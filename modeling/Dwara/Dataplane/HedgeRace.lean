import Dwara.Lib.System

/-! A request raced against speculative copies of itself. A run is one order of completion, with the
polls of the race in between. -/

namespace Dwara.Dataplane.Hedge
open Dwara.Lib

structure HedgeParams where
  hedgeAfter : ℕ
  hedgeMax : ℕ

/-- What a task of the set ends with. -/
inductive Joined (E R : Type*) where
  | done (result : Except E R)
  | panicked

/-- The primary send, or a copy, is through. -/
inductive Completion (E R : Type*) where
  | primary (result : Except E R)
  | copy (i : ℕ) (joined : Joined E R)

variable {E R : Type*}

def Completion.success : Completion E R → Option R
  | .primary (.ok resp) => some resp
  | .copy _ (.done (.ok resp)) => some resp
  | _ => none

/-- The timer is awaited, the copies are raced, or the race is over. -/
inductive RacePhase (E R : Type*) where
  | timing
  | racing
  | returned (result : Except E R)

/-- A race: the primary where it is through, the tasks of the set, and those of them that are through but
not joined yet, in order. `completed` is all that ever was through, in order. -/
structure Race (E R : Type*) where
  now : ℕ
  phase : RacePhase E R
  hedgesSpawned : ℕ
  primarySend : Option (Except E R)
  set : List ℕ
  ready : List (ℕ × Joined E R)
  completed : List (Completion E R)

inductive RaceEvent (E R : Type*) where
  | advance (ms : ℕ)
  | complete (c : Completion E R)
  | poll

namespace Race

def start : Race E R := ⟨0,.timing,0,none,[],[],[]⟩

/-- A send is through, where it runs. -/
def through (s : Race E R) : Completion E R → Option (Race E R)
  | .primary result =>
    if s.primarySend.isNone then
      some { s with primarySend := some result, completed := s.completed ++ [.primary result] }
    else none
  | .copy i joined =>
    if i ∈ s.set ∧ i ∉ s.ready.map Prod.fst then
      some { s with ready := s.ready ++ [(i,joined)], completed := s.completed ++ [.copy i joined] }
    else none

/-- `n` copies are spawned. -/
def spawn (s : Race E R) : ℕ → Race E R
  | 0 => s
  | n + 1 => spawn { s with set := s.set ++ [s.hedgesSpawned], hedgesSpawned := s.hedgesSpawned + 1 } n

/-- The set is joined until a copy has succeeded, or none of it is through. -/
def joinNext (s : Race E R) : List (ℕ × Joined E R) → Race E R
  | [] => { s with ready := [] }
  | (_,.done (.ok resp)) :: rest => { s with phase := .returned (.ok resp), ready := rest }
  | (i,_) :: rest => joinNext { s with set := s.set.erase i } rest

/-- The biased select of the race: the primary comes before the set. -/
def select (s : Race E R) : Race E R :=
  match s.primarySend with
  | some result => { s with phase := .returned result }
  | none => s.joinNext s.ready

/-- The biased select before it: the primary comes before the timer. -/
def awaitTimer (p : HedgeParams) (s : Race E R) : Race E R :=
  match s.primarySend with
  | some result => { s with phase := .returned result }
  | none => if p.hedgeAfter ≤ s.now then select (spawn { s with phase := .racing } p.hedgeMax) else s

def step (p : HedgeParams) (s : Race E R) (e : RaceEvent E R) : Option (Race E R) :=
  match s.phase,e with
  | .returned _,_ => none
  | _,.advance ms => some { s with now := s.now + ms }
  | _,.complete c => s.through c
  | .timing,.poll => some (s.awaitTimer p)
  | .racing,.poll => some s.select

end Race

def hedgeRace (p : HedgeParams) : System (Race E R) (RaceEvent E R) := ⟨.start,Race.step p⟩

namespace Race

/-- The first success, of the primary or a copy. -/
def earliest (s : Race E R) : Option R := s.completed.findSome? Completion.success

/-- Every copy is through, and nothing succeeded. -/
def CopiesFailed (s : Race E R) : Prop := (∀ i < s.hedgesSpawned, ∃ joined, .copy i joined ∈ s.completed) ∧ s.earliest = none

/-- Everything that was started failed. -/
def AllFailed (s : Race E R) : Prop := (∃ result, .primary result ∈ s.completed) ∧ s.CopiesFailed

/-- The first success is what is returned, and an error only where everything failed. -/
def Wins (s : Race E R) (result : Except E R) : Prop :=
  (∀ resp, s.earliest = some resp → result = .ok resp) ∧ ∀ err, result = .error err → s.AllFailed

/-- A success of the primary is the first of all, a failure the last. -/
def LastOrFirst (s : Race E R) : Except E R → Prop
  | .ok resp => s.earliest = some resp
  | .error _ => s.CopiesFailed

/-- Where the race finds the primary through, that is in turn. -/
def InTurn (s : Race E R) : RaceEvent E R → Prop
  | .poll => s.phase = .racing → ∀ result, s.primarySend = some result → s.LastOrFirst result
  | _ => True

/-- There is something to return. -/
def Settled (s : Race E R) : Prop := s.earliest ≠ none ∨ s.AllFailed

structure Consistent (p : HedgeParams) (s : Race E R) : Prop where
  spawned_le : s.hedgesSpawned ≤ p.hedgeMax
  timing : s.phase = .timing → s.hedgesSpawned = 0 ∧ s.set = [] ∧ s.ready = [] ∧ s.completed = s.primarySend.toList.map .primary
  primary_iff : ∀ result, s.primarySend = some result ↔ .primary result ∈ s.completed
  earliest_ready : s.phase = .racing → s.primarySend = none →
    s.earliest = s.ready.findSome? fun c => Completion.success (.copy c.1 c.2)

variable {p : HedgeParams} {s t : Race E R} {e : RaceEvent E R}

theorem consistent_start : (start : Race E R).Consistent p where
  spawned_le := Nat.zero_le _
  timing _ := ⟨rfl,rfl,rfl,rfl⟩
  primary_iff _ := iff_of_false nofun List.not_mem_nil
  earliest_ready := nofun

theorem through_cases {c : Completion E R} (h : s.through c = some t) :
    (∃ result, c = .primary result ∧ s.primarySend = none ∧
      t = { s with primarySend := some result, completed := s.completed ++ [c] }) ∨
    ∃ i joined, c = .copy i joined ∧ i ∈ s.set ∧ t = { s with ready := s.ready ++ [(i,joined)], completed := s.completed ++ [c] } := by
  cases c with
  | primary result =>
    rw [through] at h
    split at h
    · rename_i hnone
      exact .inl ⟨result,rfl,Option.isNone_iff_eq_none.mp hnone,(Option.some.inj h).symm⟩
    · cases h
  | copy i joined =>
    rw [through] at h
    split at h
    · rename_i hruns
      exact .inr ⟨i,joined,rfl,hruns.1,(Option.some.inj h).symm⟩
    · cases h

theorem spawn_eq (s : Race E R) (n : ℕ) :
    s.spawn n = { s with set := (s.spawn n).set, hedgesSpawned := s.hedgesSpawned + n } := by
  induction n generalizing s with
  | zero => rfl
  | succ n ih =>
    rw [spawn,ih,Nat.add_assoc,Nat.add_comm 1 n]

/-- The joins end at the first success, or where nothing is through. -/
theorem joinNext_cases (s : Race E R) (ready : List (ℕ × Joined E R)) :
    (∃ resp, (ready.findSome? fun c => Completion.success (.copy c.1 c.2)) = some resp ∧
      s.joinNext ready = { s with phase := .returned (.ok resp), set := (s.joinNext ready).set, ready := (s.joinNext ready).ready }) ∨
    (ready.findSome? fun c => Completion.success (.copy c.1 c.2)) = none ∧
      s.joinNext ready = { s with set := (s.joinNext ready).set, ready := [] } := by
  induction ready generalizing s with
  | nil => exact .inr ⟨rfl,rfl⟩
  | cons c rest ih =>
    obtain ⟨i,joined⟩ := c
    match joined with
    | .done (.ok resp) => exact .inl ⟨resp,rfl,rfl⟩
    | .done (.error err) => exact ih { s with set := s.set.erase i }
    | .panicked => exact ih { s with set := s.set.erase i }

theorem consistent_through {c : Completion E R} (hs : s.Consistent p) (h : s.through c = some t) : t.Consistent p := by
  rcases through_cases h with ⟨result,rfl,hnone,rfl⟩ | ⟨i,joined,rfl,hi,rfl⟩
  · refine ⟨hs.spawned_le,fun htiming => ?_,fun other => ?_,fun _ hprimary => by cases hprimary⟩
    · obtain ⟨hspawned,hset,hready,hcompleted⟩ := hs.timing htiming
      refine ⟨hspawned,hset,hready,?_⟩
      show s.completed ++ _ = _
      rw [hcompleted,hnone]
      rfl
    · have hbefore : .primary other ∉ s.completed := fun hmem => by
        rw [(hs.primary_iff other).mpr hmem] at hnone
        cases hnone
      simp [hbefore,eq_comm]
  · refine ⟨hs.spawned_le,fun htiming => ?_,fun other => ?_,fun hracing hprimary => ?_⟩
    · rw [(hs.timing htiming).2.1] at hi
      cases hi
    · simp [hs.primary_iff other]
    · have hbefore := hs.earliest_ready hracing hprimary
      rw [earliest] at hbefore
      simp only [earliest,List.findSome?_append,hbefore]
      rfl

theorem select_of_some {result : Except E R} (h : s.primarySend = some result) : s.select = { s with phase := .returned result } := by
  unfold select
  split
  · rename_i other hother
    rw [Option.some.inj (h.symm.trans hother)]
  · rename_i hnone
    cases h.symm.trans hnone

theorem select_of_none (h : s.primarySend = none) : s.select = s.joinNext s.ready := by
  unfold select
  split
  · rename_i other hother
    cases h.symm.trans hother
  · rfl

theorem consistent_select (hs : s.Consistent p) (hracing : s.phase = .racing) : s.select.Consistent p := by
  cases hprimary : s.primarySend with
  | some result =>
    rw [select_of_some hprimary]
    exact ⟨hs.spawned_le,nofun,hs.primary_iff,nofun⟩
  | none =>
    rw [select_of_none hprimary]
    rcases joinNext_cases s s.ready with ⟨resp,-,hjoin⟩ | ⟨hfailed,hjoin⟩
    · rw [hjoin]
      exact ⟨hs.spawned_le,nofun,hs.primary_iff,nofun⟩
    · rw [hjoin]
      refine ⟨hs.spawned_le,fun h => ?_,hs.primary_iff,fun _ hnone => ?_⟩
      · cases hracing.symm.trans h
      · exact (hs.earliest_ready hracing hnone).trans hfailed

theorem earliest_ne_none_of_primary (hs : s.Consistent p) {resp : R} (h : s.primarySend = some (.ok resp)) : s.earliest ≠ none :=
  fun hnone => Option.some_ne_none resp (List.findSome?_eq_none_iff.mp hnone _ ((hs.primary_iff _).mp h))

/-- The primary's result is the right one just when it comes in turn. -/
theorem wins_primary_iff (hs : s.Consistent p) {result : Except E R} (h : s.primarySend = some result) :
    s.Wins result ↔ s.LastOrFirst result := by
  cases result with
  | ok resp =>
    constructor
    · intro hwins
      obtain ⟨first,hfirst⟩ := Option.ne_none_iff_exists'.mp (earliest_ne_none_of_primary hs h)
      obtain rfl : resp = first := Except.ok.inj (hwins.1 first hfirst)
      exact hfirst
    · intro hearliest
      refine ⟨fun first hfirst => ?_,fun err herr => by cases herr⟩
      rw [Option.some.inj (hearliest.symm.trans hfirst)]
  | error err =>
    constructor
    · intro hwins
      exact (hwins.2 err rfl).2
    · intro hcopies
      refine ⟨fun first hfirst => ?_,fun _ _ => ⟨⟨_,(hs.primary_iff _).mp h⟩,hcopies⟩⟩
      cases hcopies.2.symm.trans hfirst

theorem select_wins_iff (hs : s.Consistent p) (hracing : s.phase = .racing) :
    (∀ result, s.select.phase = .returned result → s.select.Wins result) ↔ s.InTurn .poll := by
  cases hprimary : s.primarySend with
  | some result =>
    have hturn := wins_primary_iff hs hprimary
    rw [select_of_some hprimary]
    constructor
    · intro hwins _ other hother
      obtain rfl : result = other := Option.some.inj (hprimary.symm.trans hother)
      exact hturn.mp (hwins result rfl)
    · intro h other hother
      obtain rfl : result = other := RacePhase.returned.inj hother
      exact hturn.mpr (h hracing result hprimary)
  | none =>
    rw [select_of_none hprimary]
    refine iff_of_true (fun result hresult => ?_) (fun _ other hother => by cases hprimary.symm.trans hother)
    rcases joinNext_cases s s.ready with ⟨resp,hfirst,hjoin⟩ | ⟨-,hjoin⟩
    · rw [hjoin] at hresult ⊢
      obtain rfl : .ok resp = result := RacePhase.returned.inj hresult
      have hearliest : s.earliest = some resp := (hs.earliest_ready hracing hprimary).trans hfirst
      refine ⟨fun first hsuccess => ?_,fun err herr => by cases herr⟩
      rw [Option.some.inj (hearliest.symm.trans hsuccess)]
    · rw [hjoin] at hresult
      cases hracing.symm.trans hresult

/-- The copies of a race that has not begun to race are spawned. -/
theorem consistent_spawn (hs : s.Consistent p) (htiming : s.phase = .timing) (hnone : s.primarySend = none) :
    (spawn { s with phase := .racing } p.hedgeMax).Consistent p := by
  obtain ⟨hspawned,-,hready,hcompleted⟩ := hs.timing htiming
  rw [spawn_eq]
  refine ⟨?_,nofun,hs.primary_iff,fun _ _ => ?_⟩
  · exact (Nat.add_comm _ _).trans_le (by simp [hspawned])
  · show s.completed.findSome? _ = s.ready.findSome? _
    rw [hcompleted,hready,hnone]
    rfl

theorem spawn_primarySend (n : ℕ) : (s.spawn n).primarySend = s.primarySend := by rw [spawn_eq]

theorem spawn_phase (n : ℕ) : (s.spawn n).phase = s.phase := by rw [spawn_eq]

theorem consistent_awaitTimer (hs : s.Consistent p) (htiming : s.phase = .timing) : (s.awaitTimer p).Consistent p := by
  unfold awaitTimer
  split
  · exact ⟨hs.spawned_le,nofun,hs.primary_iff,nofun⟩
  · rename_i hnone
    split
    · exact consistent_select (consistent_spawn hs htiming hnone) (spawn_phase _)
    · exact hs

/-- Before the timer only the primary was started. -/
theorem awaitTimer_wins (hs : s.Consistent p) (htiming : s.phase = .timing) {result : Except E R}
    (h : (s.awaitTimer p).phase = .returned result) : (s.awaitTimer p).Wins result := by
  obtain ⟨hspawned,-,-,hcompleted⟩ := hs.timing htiming
  unfold awaitTimer at h ⊢
  split at h
  · rename_i other hother
    obtain rfl : other = result := RacePhase.returned.inj h
    refine (wins_primary_iff hs hother).mpr ?_
    have hone : s.completed = [.primary other] := by rw [hcompleted,hother]; rfl
    cases other with
    | ok resp =>
      show s.completed.findSome? _ = _
      rw [hone]
      rfl
    | error err =>
      refine ⟨fun i hi => by omega,?_⟩
      show s.completed.findSome? _ = _
      rw [hone]
      rfl
  · rename_i hnone
    split at h
    · rename_i hfired
      rw [if_pos hfired]
      refine (select_wins_iff (consistent_spawn hs htiming hnone) (spawn_phase _)).mpr (fun _ other hother => ?_) result h
      rw [spawn_primarySend] at hother
      cases hnone.symm.trans hother
    · cases htiming.symm.trans h

theorem through_phase {c : Completion E R} (h : s.through c = some t) : t.phase = s.phase := by
  rcases through_cases h with ⟨_,-,-,rfl⟩ | ⟨_,_,-,-,rfl⟩ <;> rfl

theorem consistent_step (hs : s.Consistent p) (h : s.step p e = some t) : t.Consistent p := by
  unfold step at h
  split at h
  · cases h
  · cases h
    exact ⟨hs.spawned_le,hs.timing,hs.primary_iff,hs.earliest_ready⟩
  · exact consistent_through hs h
  · rename_i htiming
    cases h
    exact consistent_awaitTimer hs htiming
  · rename_i hracing
    cases h
    exact consistent_select hs hracing

/-- A race that is over takes no step. -/
theorem not_returned_of_step (h : s.step p e = some t) (result : Except E R) : s.phase ≠ .returned result := by
  intro hphase
  unfold step at h
  rw [hphase] at h
  cases h

theorem step_poll_timing (h : s.phase = .timing) : s.step p .poll = some (s.awaitTimer p) := by
  unfold step
  rw [h]

theorem step_poll_racing (h : s.phase = .racing) : s.step p .poll = some s.select := by
  unfold step
  rw [h]

theorem awaitTimer_of_some {result : Except E R} (h : s.primarySend = some result) :
    s.awaitTimer p = { s with phase := .returned result } := by
  unfold awaitTimer
  split
  · rename_i other hother
    rw [Option.some.inj (h.symm.trans hother)]
  · rename_i hnone
    cases h.symm.trans hnone

/-- A step keeps the promise of the race just when it finds the primary in turn. -/
theorem wins_step_iff (hs : s.Consistent p) (h : s.step p e = some t) :
    (∀ result, t.phase = .returned result → t.Wins result) ↔ s.InTurn e := by
  have hrunning := not_returned_of_step h
  unfold step at h
  split at h
  · cases h
  · cases h
    exact iff_of_true (fun result hresult => absurd hresult (hrunning result)) trivial
  · exact iff_of_true (fun result hresult => absurd ((through_phase h).symm.trans hresult) (hrunning result)) trivial
  · rename_i htiming
    cases h
    exact iff_of_true (fun _ => awaitTimer_wins hs htiming) (fun hracing => by cases htiming.symm.trans hracing)
  · rename_i hracing
    cases h
    exact select_wins_iff hs hracing

/-- Where there is something to return, the next poll returns. -/
theorem returned_of_settled (hs : s.Consistent p) (h : s.Settled) :
    ∃ result, s.phase = .returned result ∨ ∃ t, s.step p .poll = some t ∧ t.phase = .returned result := by
  cases hphase : s.phase with
  | returned result => exact ⟨result,.inl rfl⟩
  | timing =>
    cases hprimary : s.primarySend with
    | some result =>
      refine ⟨result,.inr ⟨_,step_poll_timing hphase,?_⟩⟩
      rw [awaitTimer_of_some hprimary]
    | none =>
      have hnone : s.completed = [] := by rw [(hs.timing hphase).2.2.2,hprimary]; rfl
      rcases h with h | ⟨⟨_,hmem⟩,-⟩
      · rw [earliest,hnone] at h
        exact absurd rfl h
      · rw [hnone] at hmem
        cases hmem
  | racing =>
    cases hprimary : s.primarySend with
    | some result =>
      refine ⟨result,.inr ⟨_,step_poll_racing hphase,?_⟩⟩
      rw [select_of_some hprimary]
    | none =>
      rcases h with h | ⟨⟨result,hmem⟩,-⟩
      · rw [hs.earliest_ready hphase hprimary] at h
        rcases joinNext_cases s s.ready with ⟨resp,-,hjoin⟩ | ⟨hnone,-⟩
        · refine ⟨.ok resp,.inr ⟨_,step_poll_racing hphase,?_⟩⟩
          rw [select_of_none hprimary,hjoin]
        · exact absurd hnone h
      · cases hprimary.symm.trans ((hs.primary_iff result).mpr hmem)

/-- Nothing follows a race that is over. -/
def Continues (s t : Race E R) : Prop := s = t ∨ ∀ result, s.phase ≠ .returned result

instance : Std.Refl (Continues (E := E) (R := R)) := ⟨fun _ => .inl rfl⟩

instance : IsTrans (Race E R) Continues := ⟨fun _ _ _ hst htu => by
  rcases hst with rfl | hst
  · exact htu
  · exact .inr hst⟩

end Race

open Race

theorem consistent_hedgeRace {p : HedgeParams} {events : List (RaceEvent E R)} {s : Race E R} (hr : (hedgeRace p).run events = some s) :
    s.Consistent p :=
  System.run_inv (Consistent p) consistent_start (fun _ _ _ hs h => consistent_step hs h) hr

/-- No race starts more than its copies, or waits where there is something to return; and it returns the
first success, or an error only once everything failed, just when it finds the primary in turn. -/
theorem hedgeRace_wins_iff {p : HedgeParams} {events : List (RaceEvent E R)} {s : Race E R} (hr : (hedgeRace p).run events = some s) :
    s.hedgesSpawned ≤ p.hedgeMax ∧
    (s.Settled → ∃ result, s.phase = .returned result ∨ ∃ t, s.step p .poll = some t ∧ t.phase = .returned result) ∧
    ((∀ result, s.phase = .returned result → s.Wins result) ↔ (hedgeRace p).Along InTurn events) := by
  have hs := consistent_hedgeRace hr
  refine ⟨hs.spawned_le,returned_of_settled hs,?_⟩
  rw [← System.forall_prefix_iff_along (fun s => s.Consistent p ∧ ∀ result, s.phase = .returned result → s.Wins result)
    ⟨consistent_start,nofun⟩ (fun s e t hs h => (and_iff_right (consistent_step hs.1 h)).trans (wins_step_iff hs.1 h)) hr]
  constructor
  · rintro hwins pre post r rfl hpre
    refine ⟨consistent_hedgeRace hpre,?_⟩
    rcases System.extension_related Continues (fun _ _ _ h => .inr (not_returned_of_step h)) hpre hr with rfl | hrunning
    · exact hwins
    · exact fun result hresult => absurd hresult (hrunning result)
  · intro hall
    exact (hall events [] s (List.append_nil events).symm hr).2

/-- A copy answers before the slow primary fails. -/
theorem hedgeRace_wins_copy : ∃ s : Race ℕ ℕ,
    (hedgeRace ⟨50,2⟩).run [.advance 50,.poll,.complete (.copy 1 (.done (.error 4))),.poll,.complete (.copy 0 (.done (.ok 7))),.poll] = some s ∧
    s.phase = .returned (.ok 7) ∧ s.Wins (.ok 7) := by
  refine ⟨_,rfl,rfl,?_⟩
  refine (@hedgeRace_wins_iff ℕ ℕ ⟨50,2⟩ [.advance 50,.poll,.complete (.copy 1 (.done (.error 4))),.poll,
    .complete (.copy 0 (.done (.ok 7))),.poll] _ rfl).2.2.mpr (System.along_of_alongFrom ?_) (.ok 7) rfl
  exact ⟨trivial,nofun,trivial,fun _ => nofun,trivial,fun _ => nofun,trivial⟩

/-- The primary fails: its error is returned while the copy runs, and also where the copy was first and succeeded. -/
theorem hedgeRace_returns_early_error : ∃ s t : Race ℕ ℕ,
    (hedgeRace ⟨50,1⟩).run [.advance 50,.poll,.complete (.primary (.error 4)),.poll] = some s ∧
    (hedgeRace ⟨50,1⟩).run [.advance 50,.poll,.complete (.copy 0 (.done (.ok 7))),.complete (.primary (.error 4)),.poll] = some t ∧
    s.phase = .returned (.error 4) ∧ t.phase = .returned (.error 4) ∧ ¬ s.AllFailed ∧ t.earliest = some 7 := by
  refine ⟨_,_,rfl,rfl,rfl,rfl,?_,rfl⟩
  rintro ⟨-,hcopies,-⟩
  obtain ⟨joined,hjoined⟩ := hcopies 0 (by decide)
  cases List.mem_singleton.mp hjoined

end Dwara.Dataplane.Hedge
