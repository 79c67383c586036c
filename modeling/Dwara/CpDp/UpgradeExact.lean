import Dwara.CpDp.UpgradeWaves

/-! When the records of a rolling upgrade are exact. -/

namespace Dwara.CpDp

variable {E : Type*} [DecidableEq E]

/-- What a poll learns of an edge: nothing yet, that it has acked the generation as applied or
is gone, or that it has refused it. -/
inductive Reading where
  | pending
  | upgraded
  | refused
  deriving DecidableEq, Repr

def Reading.ofAck : Option Bool → Reading
  | some false => .refused
  | _ => .upgraded

/-- The controller once the edges of a poll are visited. -/
def afterVisits : List E → List (List (ControllerEvent E)) → ControllerState E → ControllerState E
  | [], _, s => s
  | _ :: rest, visits, s => afterVisits rest visits.tail (s.after (visits.headD []))

/-- The ack of an edge when it is visited. -/
def ackAt (generation : ℕ) (e : E) : List E → List (List (ControllerEvent E)) → ControllerState E → Option Bool
  | [], _, s => s.acks e generation
  | e' :: rest, visits, s =>
    if e' = e then (s.after (visits.headD [])).acks e generation else ackAt generation e rest visits.tail (s.after (visits.headD []))

def readEdge (unacked : List E) (e : E) (ack : Option Bool) : Reading := if e ∈ unacked then .pending else .ofAck ack

def Poll.reading (generation : ℕ) (target : List E) (p : Poll E) (s : ControllerState E) (e : E) : Reading :=
  readEdge ((s.after p.before).unackedEdges generation) e (ackAt generation e target p.visits (s.after p.before))

def Poll.after (target : List E) (p : Poll E) (s : ControllerState E) : ControllerState E :=
  afterVisits target p.visits (s.after p.before)

/-- How often an edge is in the two lists. -/
def AckLists.tally (b : AckLists E) (e : E) : ℕ × ℕ := (b.acked.count e,b.failed.count e)

/-- What a poll makes of an edge's tally: a second refusal is recorded again. -/
def Reading.tally : Reading → ℕ × ℕ → ℕ × ℕ
  | .pending, t => t
  | .upgraded, t => if 0 < t.1 then t else (t.1 + 1,t.2)
  | .refused, t => if 0 < t.1 then t else (t.1,t.2 + 1)

section Acks
variable {s : ControllerState E} {generation : ℕ} {e : E}

/-- An ack is never taken back. -/
theorem isSome_acks_after (h : (s.acks e generation).isSome) (events : List (ControllerEvent E)) :
    ((s.after events).acks e generation).isSome := by
  induction events generalizing s with
  | nil => exact h
  | cons event rest ih =>
    apply ih (s := s.apply event)
    cases event with
    | recordAck e' n applied =>
      simp only [ControllerState.apply]
      split
      · rfl
      · exact h
    | registerEdge r => exact h
    | removeEdge e' => exact h
    | setGeneration g => exact h

theorem isSome_acks_afterVisits (h : (s.acks e generation).isSome) (target : List E) (visits : List (List (ControllerEvent E))) :
    ((afterVisits target visits s).acks e generation).isSome := by
  induction target generalizing visits s with
  | nil => exact h
  | cons e' rest ih => exact ih (isSome_acks_after h _) _

theorem isSome_acks_of_ackAt {target : List E} {visits : List (List (ControllerEvent E))}
    (h : (ackAt generation e target visits s).isSome) : ((afterVisits target visits s).acks e generation).isSome := by
  induction target generalizing visits s with
  | nil => exact h
  | cons e' rest ih =>
    rw [ackAt] at h
    split at h
    · exact isSome_acks_afterVisits h rest _
    · exact ih h

/-- A refusal is read from an ack, which is still there after the poll. -/
theorem isSome_acks_of_refused {target : List E} {p : Poll E} (h : p.reading generation target s e = .refused) :
    ((p.after target s).acks e generation).isSome := by
  apply isSome_acks_of_ackAt
  rw [Poll.reading,readEdge] at h
  split at h
  · cases h
  · cases hack : ackAt generation e target p.visits (s.after p.before) with
    | none =>
      rw [hack] at h
      cases h
    | some applied => rfl

/-- Once acked, an edge is read in every later poll. -/
theorem reading_ne_pending (h : (s.acks e generation).isSome) (target : List E) (p : Poll E) :
    p.reading generation target s e ≠ .pending := by
  have hacked := isSome_acks_after h p.before
  have hread : e ∉ (s.after p.before).unackedEdges generation := by
    intro hmem
    have hnone := (List.mem_filter.mp hmem).2
    rw [Option.isNone_iff_eq_none] at hnone
    rw [hnone] at hacked
    cases hacked
  rw [Poll.reading,readEdge,if_neg hread]
  cases ackAt generation e target p.visits (s.after p.before) with
  | none => nofun
  | some applied => cases applied <;> nofun

end Acks

section Tallies
variable {s : ControllerState E} {b : AckLists E} {generation : ℕ} {target : List E} {e : E}

theorem tally_record (ack : Option Bool) (e' : E) :
    (b.record e ack).tally e' = if e' = e then (Reading.ofAck ack).tally (b.tally e') else b.tally e' := by
  unfold AckLists.record
  by_cases hacked : e ∈ b.acked
  · have hpos : 0 < b.acked.count e := List.count_pos_iff.mpr hacked
    rw [if_pos hacked]
    split
    · rename_i he
      subst he
      rcases ack with _ | _ | _ <;> simp [Reading.ofAck,Reading.tally,AckLists.tally,hpos]
    · rfl
  · have hzero : b.acked.count e = 0 := List.count_eq_zero.mpr hacked
    rw [if_neg hacked]
    by_cases he : e' = e
    · subst he
      rcases ack with _ | _ | _ <;> simp [Reading.ofAck,Reading.tally,AckLists.tally,hzero]
    · rcases ack with _ | _ | _ <;> simp [AckLists.tally,he,Ne.symm he]

/-- What visiting the edges of a poll does to the controller and to each edge's tally. -/
theorem visitEdges_spec (unacked : List E) (hnodup : target.Nodup) (visits : List (List (ControllerEvent E)))
    (s : ControllerState E) (b : AckLists E) :
    (visitEdges generation unacked target visits s b).1 = afterVisits target visits s ∧
      ∀ e, (visitEdges generation unacked target visits s b).2.tally e =
        if e ∈ target then (readEdge unacked e (ackAt generation e target visits s)).tally (b.tally e) else b.tally e := by
  induction target generalizing visits s b with
  | nil => exact ⟨rfl,fun e => by simp [visitEdges]⟩
  | cons e' rest ih =>
    obtain ⟨hfresh,hrest⟩ := List.nodup_cons.mp hnodup
    have hhead : ∀ e, (if e' ∈ unacked then b else b.record e' ((s.after (visits.headD [])).acks e' generation)).tally e =
        if e = e' then (readEdge unacked e ((s.after (visits.headD [])).acks e' generation)).tally (b.tally e) else b.tally e := by
      intro e
      by_cases hpending : e' ∈ unacked
      · rw [if_pos hpending]
        split
        · rename_i he
          rw [he,readEdge,if_pos hpending]
          rfl
        · rfl
      · rw [if_neg hpending,tally_record]
        split
        · rename_i he
          rw [he,readEdge,if_neg hpending]
        · rfl
    obtain ⟨hafter,htally⟩ := ih hrest visits.tail (s.after (visits.headD []))
      (if e' ∈ unacked then b else b.record e' ((s.after (visits.headD [])).acks e' generation))
    refine ⟨hafter,fun e => ?_⟩
    rw [visitEdges]
    simp only [htally,hhead,List.mem_cons]
    by_cases he : e = e'
    · subst he
      simp only [hfresh,if_false,if_true,true_or,ackAt]
    · simp only [he,Ne.symm he,if_false,false_or,ackAt]

theorem Poll.run_spec (hnodup : target.Nodup) (p : Poll E) (s : ControllerState E) (b : AckLists E) :
    (p.run generation target s b).1 = p.after target s ∧
      ∀ e, (p.run generation target s b).2.tally e =
        if e ∈ target then (p.reading generation target s e).tally (b.tally e) else b.tally e :=
  visitEdges_spec _ hnodup p.visits (s.after p.before) b

/-- An edge in neither list is put among the failed ones, once. -/
theorem tally_markRemaining (target : List E) (b : AckLists E) (e : E) :
    (b.markRemaining target).tally e = if e ∈ target ∧ b.tally e = (0,0) then (0,1) else b.tally e := by
  have hzero : ∀ (b : AckLists E) e, b.tally e = (0,0) ↔ e ∉ b.acked ∧ e ∉ b.failed := by
    intro b e
    rw [AckLists.tally,Prod.mk.injEq,List.count_eq_zero,List.count_eq_zero]
  induction target generalizing b with
  | nil => simp [AckLists.markRemaining]
  | cons e' rest ih =>
    rw [AckLists.markRemaining,List.foldl_cons]
    by_cases hmissing : e' ∉ b.acked ∧ e' ∉ b.failed
    · rw [if_pos hmissing]
      have hrest := ih { b with failed := b.failed ++ [e'] }
      rw [AckLists.markRemaining] at hrest
      rw [hrest]
      by_cases he : e = e'
      · subst he
        simp [AckLists.tally,List.count_eq_zero.mpr hmissing.1,List.count_eq_zero.mpr hmissing.2]
      · simp [AckLists.tally,he,Ne.symm he]
    · rw [if_neg hmissing]
      have hrest := ih b
      rw [AckLists.markRemaining] at hrest
      rw [hrest]
      by_cases he : e = e'
      · subst he
        simp [hzero b e,hmissing]
      · simp [he]

theorem allDone_iff : b.allDone target ↔ ∀ e ∈ target, b.tally e ≠ (0,0) := by
  simp only [AckLists.allDone,List.all_eq_true,decide_eq_true_eq,AckLists.tally,ne_eq,Prod.mk.injEq,List.count_eq_zero]
  apply forall₂_congr
  intro e _
  tauto

/-- A poll only adds to the tallies. -/
theorem Reading.le_tally (r : Reading) (t : ℕ × ℕ) : t.1 + t.2 ≤ (r.tally t).1 + (r.tally t).2 := by
  cases r with
  | pending => exact Nat.le_refl _
  | upgraded =>
    rw [Reading.tally]
    split <;> omega
  | refused =>
    rw [Reading.tally]
    split <;> omega

/-- The number of entries an edge has in the two lists. -/
abbrev AckLists.entries (b : AckLists E) (e : E) : ℕ := (b.tally e).1 + (b.tally e).2

theorem le_entries_markRemaining (b : AckLists E) : b.entries e ≤ (b.markRemaining target).entries e := by
  rw [AckLists.entries,AckLists.entries,tally_markRemaining]
  split
  · rename_i h
    rw [h.2]
    decide
  · exact Nat.le_refl _

theorem le_entries_run (hnodup : target.Nodup) (p : Poll E) : b.entries e ≤ (p.run generation target s b).2.entries e := by
  rw [AckLists.entries,AckLists.entries,(p.run_spec hnodup s b).2]
  split
  · exact Reading.le_tally _ _
  · exact Nat.le_refl _

theorem le_entries_awaitAcks (hnodup : target.Nodup) (last : Poll E) (polls : List (Poll E)) (s : ControllerState E) (b : AckLists E) :
    b.entries e ≤ (awaitAcks generation target last polls s b).2.entries e := by
  induction polls generalizing s b with
  | nil => exact Nat.le_trans (le_entries_run hnodup last) (le_entries_markRemaining _)
  | cons p rest ih =>
    rw [awaitAcks]
    split
    · exact Nat.le_trans (le_entries_run hnodup p) (le_entries_markRemaining _)
    · exact Nat.le_trans (le_entries_run hnodup p) (ih _ _)

/-- A refusal that another poll reads again makes the lists overlap or repeat the edge. -/
theorem refused_again (hnodup : target.Nodup) (he : e ∈ target) (hrefused : b.tally e = (0,1)) (hack : (s.acks e generation).isSome)
    (last : Poll E) (polls : List (Poll E)) : 2 ≤ (awaitAcks generation target last polls s b).2.entries e := by
  have hpoll : ∀ p : Poll E, 2 ≤ (p.run generation target s b).2.entries e := by
    intro p
    rw [AckLists.entries,(p.run_spec hnodup s b).2,if_pos he,hrefused]
    cases hreading : p.reading generation target s e with
    | pending => exact absurd hreading (reading_ne_pending hack target p)
    | upgraded => decide
    | refused => decide
  cases polls with
  | nil => exact Nat.le_trans (hpoll last) (le_entries_markRemaining _)
  | cons p rest =>
    rw [awaitAcks]
    split
    · exact Nat.le_trans (hpoll p) (le_entries_markRemaining _)
    · exact Nat.le_trans (hpoll p) (le_entries_awaitAcks hnodup last rest _ _)

end Tallies

/-- What the polls of a wave come to, told from their readings alone: `prompt` says that no
edge's first answer is a refusal read in a poll that leaves the wave unanswered, `clean` that
every edge is upgraded in time. -/
structure Outlook (E : Type*) where
  prompt : Bool
  clean : Bool
  after : ControllerState E

def outlook (generation : ℕ) (target : List E) (last : Poll E) : List (Poll E) → ControllerState E → List E → Outlook E
  | [], s, seen => ⟨true,target.all fun e => e ∈ seen ∨ last.reading generation target s e = .upgraded,last.after target s⟩
  | p :: rest, s, seen =>
    let unrefused := target.all fun e => e ∈ seen ∨ p.reading generation target s e ≠ .refused
    let answered := seen ++ target.filter fun e => p.reading generation target s e ≠ .pending
    if target.all (· ∈ answered) then ⟨true,unrefused,p.after target s⟩
    else
      let later := outlook generation target last rest (p.after target s) answered
      ⟨unrefused && later.prompt,later.clean,later.after⟩

/-- The lists are free of duplicates, disjoint, and together the wave. -/
structure WaveResult.Exact (r : WaveResult E) : Prop where
  acked_nodup : r.acked.Nodup
  failed_nodup : r.failed.Nodup
  disjoint : r.acked.Disjoint r.failed
  together : ∀ e, e ∈ r.acked ∨ e ∈ r.failed ↔ e ∈ r.targetEdges

section Waves
variable {b : AckLists E} {generation : ℕ} {target : List E}

/-- Exact records have each edge of the wave once, and no other. -/
theorem exact_iff_entries (name : String) (success : Bool) :
    (WaveResult.mk name target b.acked b.failed success).Exact ↔ ∀ e, b.entries e = if e ∈ target then 1 else 0 := by
  have hcount : ∀ e, b.entries e = (b.acked ++ b.failed).count e := fun e => List.count_append.symm
  simp only [hcount]
  constructor
  · rintro ⟨ha,hf,hd,ht⟩ e
    have hboth : (b.acked ++ b.failed).Nodup := List.nodup_append'.mpr ⟨ha,hf,hd⟩
    split
    · rename_i he
      exact List.count_eq_one_of_mem hboth (List.mem_append.mpr ((ht e).mpr he))
    · rename_i he
      exact List.count_eq_zero.mpr fun hmem => he ((ht e).mp (List.mem_append.mp hmem))
  · intro hone
    have hboth : (b.acked ++ b.failed).Nodup := by
      rw [List.nodup_iff_count_le_one]
      intro e
      rw [hone]
      split <;> decide
    obtain ⟨ha,hf,hd⟩ := List.nodup_append'.mp hboth
    refine ⟨ha,hf,hd,fun e => ?_⟩
    rw [← List.mem_append,← List.count_pos_iff,hone]
    split <;> simpa

/-- The lists while every first answer so far was an upgrade: the answered edges are acked. -/
def AckLists.Answered (b : AckLists E) (target seen : List E) : Prop := ∀ e, b.tally e = if e ∈ target ∧ e ∈ seen then (1,0) else (0,0)

variable {s : ControllerState E} {seen : List E}

/-- A poll gives the edges not answered yet the entry its reading asks for. -/
theorem AckLists.Answered.run (h : b.Answered target seen) (hnodup : target.Nodup) (p : Poll E) (e : E) :
    (p.run generation target s b).2.tally e =
      if e ∈ target then (if e ∈ seen then (1,0) else (p.reading generation target s e).tally (0,0)) else (0,0) := by
  rw [(p.run_spec hnodup s b).2,h e]
  by_cases he : e ∈ target
  · by_cases hs : e ∈ seen
    · rw [if_pos he,if_pos he,if_pos ⟨he,hs⟩,if_pos hs]
      cases p.reading generation target s e <;> rfl
    · rw [if_pos he,if_pos he,if_neg fun hboth => hs hboth.2,if_neg hs]
  · rw [if_neg he,if_neg he,if_neg fun hboth => he hboth.1]

theorem failed_eq_nil_iff : b.failed = [] ↔ ∀ e, (b.tally e).2 = 0 := by
  simp only [AckLists.tally,List.count_eq_zero,List.eq_nil_iff_forall_not_mem]

/-- The lists after the deadline: every edge has its one entry, and those not upgraded are failed. -/
theorem AckLists.Answered.deadline (h : b.Answered target seen) (hnodup : target.Nodup) (last : Poll E) (e : E) :
    ((last.run generation target s b).2.markRemaining target).tally e =
      if e ∈ target then (if e ∈ seen ∨ last.reading generation target s e = .upgraded then (1,0) else (0,1)) else (0,0) := by
  rw [tally_markRemaining,h.run hnodup]
  by_cases he : e ∈ target
  · by_cases hs : e ∈ seen
    · simp [he,hs]
    · cases hreading : last.reading generation target s e <;> simp [he,hs,Reading.tally]
  · simp [he]

variable (generation s) in
/-- So the last poll leaves every edge of the wave one entry. -/
theorem AckLists.Answered.settled (h : b.Answered target seen) (hnodup : target.Nodup) (last : Poll E) :
    (∀ e, ((last.run generation target s b).2.markRemaining target).entries e = if e ∈ target then 1 else 0) ∧
      (((last.run generation target s b).2.markRemaining target).failed = [] ↔
        ∀ e ∈ target, e ∈ seen ∨ last.reading generation target s e = .upgraded) := by
  constructor
  · intro e
    rw [AckLists.entries,h.deadline hnodup]
    split
    · split <;> rfl
    · rfl
  · rw [failed_eq_nil_iff]
    apply forall_congr'
    intro e
    rw [h.deadline hnodup]
    by_cases he : e ∈ target
    · rw [if_pos he]
      split
      · rename_i hup
        exact iff_of_true rfl fun _ => hup
      · rename_i hdown
        exact iff_of_false (by decide) fun hall => hdown (hall he)
    · rw [if_neg he]
      exact iff_of_true rfl fun hmem => absurd hmem he

theorem AckLists.Answered.allDone_iff (h : b.Answered target seen) (hnodup : target.Nodup) (p : Poll E) :
    (p.run generation target s b).2.allDone target ↔
      ∀ e ∈ target, e ∈ seen ++ target.filter fun e => p.reading generation target s e ≠ .pending := by
  rw [CpDp.allDone_iff]
  apply forall₂_congr
  intro e he
  rw [h.run hnodup,if_pos he,List.mem_append,List.mem_filter]
  by_cases hs : e ∈ seen
  · simp [hs]
  · cases hreading : p.reading generation target s e <;> simp [he,hs,Reading.tally]

variable (generation s) in
/-- A poll that reads no refusal leaves only upgrades. -/
theorem AckLists.Answered.next (h : b.Answered target seen) (hnodup : target.Nodup) {p : Poll E}
    (hunrefused : ∀ e ∈ target, e ∈ seen ∨ p.reading generation target s e ≠ .refused) :
    (p.run generation target s b).2.Answered target (seen ++ target.filter fun e => p.reading generation target s e ≠ .pending) := by
  intro e
  rw [h.run hnodup]
  by_cases he : e ∈ target
  · have hfine := hunrefused e he
    by_cases hs : e ∈ seen
    · simp [he,hs]
    · cases hreading : p.reading generation target s e <;> simp_all [Reading.tally]
  · simp [he]

/-- An edge whose first answer is a refusal is recorded twice by the polls after it. -/
theorem AckLists.Answered.refused_again (h : b.Answered target seen) (hnodup : target.Nodup) {p : Poll E} {e : E} (he : e ∈ target)
    (hs : e ∉ seen) (hreading : p.reading generation target s e = .refused) (last : Poll E) (rest : List (Poll E)) :
    2 ≤ (awaitAcks generation target last rest (p.run generation target s b).1 (p.run generation target s b).2).2.entries e := by
  have htally : (p.run generation target s b).2.tally e = (0,1) := by
    rw [h.run hnodup,if_pos he,if_neg hs,hreading]
    rfl
  have hack : ((p.run generation target s b).1.acks e generation).isSome := by
    rw [(p.run_spec hnodup s b).1]
    exact isSome_acks_of_refused hreading
  exact CpDp.refused_again hnodup he htally hack last rest

variable (generation s) in
/-- The records of a wave are exact when its outlook is prompt, and only then; then it ends as
foreseen, with no failures when the outlook is clean. -/
theorem awaitAcks_outlook (hnodup : target.Nodup) (last : Poll E) (polls : List (Poll E)) (h : b.Answered target seen) :
    ((∀ e, (awaitAcks generation target last polls s b).2.entries e = if e ∈ target then 1 else 0) ↔
        (outlook generation target last polls s seen).prompt) ∧
      ((outlook generation target last polls s seen).prompt →
        (awaitAcks generation target last polls s b).1 = (outlook generation target last polls s seen).after ∧
          ((awaitAcks generation target last polls s b).2.failed = [] ↔ (outlook generation target last polls s seen).clean)) := by
  induction polls generalizing s b seen with
  | nil =>
    obtain ⟨hentries,hfailed⟩ := h.settled generation s hnodup last
    refine ⟨iff_of_true hentries rfl,fun _ => ⟨(last.run_spec hnodup s b).1,?_⟩⟩
    rw [outlook,awaitAcks]
    simp only [hfailed,List.all_eq_true,decide_eq_true_eq]
  | cons p rest ih =>
    rw [awaitAcks,outlook]
    simp only [List.all_eq_true,decide_eq_true_eq,h.allDone_iff hnodup p]
    by_cases hanswered : ∀ e ∈ target, e ∈ seen ++ target.filter fun e => p.reading generation target s e ≠ .pending
    · obtain ⟨hentries,hfailed⟩ := h.settled generation s hnodup p
      simp only [if_pos hanswered]
      refine ⟨iff_of_true hentries trivial,fun _ => ⟨(p.run_spec hnodup s b).1,?_⟩⟩
      rw [hfailed]
      simp only [List.all_eq_true,decide_eq_true_eq]
      apply forall₂_congr
      intro e he
      have hread := hanswered e he
      rw [List.mem_append,List.mem_filter,decide_eq_true_eq] at hread
      cases hreading : p.reading generation target s e <;> simp_all
    · simp only [if_neg hanswered]
      by_cases hunrefused : ∀ e ∈ target, e ∈ seen ∨ p.reading generation target s e ≠ .refused
      · have hnext := h.next generation s hnodup hunrefused
        have hall : (target.all fun e => e ∈ seen ∨ p.reading generation target s e ≠ .refused) = true := by
          simpa using hunrefused
        rw [(p.run_spec hnodup s b).1]
        simp only [hall,Bool.true_and]
        exact ih _ hnext
      · obtain ⟨e,hrest⟩ := not_forall.mp hunrefused
        obtain ⟨he,hrefused⟩ := Classical.not_imp.mp hrest
        obtain ⟨hs,hreading⟩ := not_or.mp hrefused
        have hall : (target.all fun e => e ∈ seen ∨ p.reading generation target s e ≠ .refused) = false := by
          rw [Bool.eq_false_iff,ne_eq,List.all_eq_true]
          simpa using hunrefused
        have htwice := h.refused_again hnodup he hs (not_not.mp hreading) last rest
        simp only [hall,Bool.false_and]
        refine ⟨iff_of_false (fun hone => ?_) nofun,nofun⟩
        have honce := hone e
        rw [if_pos he] at honce
        omega

end Waves

/-- The outlook of a wave with its timing. -/
def WaveTiming.outlook (generation : ℕ) (wave : String × List E) (timing : WaveTiming E) (s : ControllerState E) : Outlook E :=
  CpDp.outlook generation wave.2 timing.last timing.polls s []

/-- Every wave that is processed is prompt; a halting rollout stops after one that is not clean. -/
def promptWaves (haltOnFailure : Bool) (generation : ℕ) : List (String × List E) → (ℕ → WaveTiming E) → ControllerState E → Bool
  | [], _, _ => true
  | wave :: rest, timing, s =>
    let o := (timing 0).outlook generation wave s
    o.prompt && ((! o.clean && haltOnFailure) || promptWaves haltOnFailure generation rest (fun n => timing (n + 1)) o.after)

/-- The rollout is prompt. -/
def promptUpgrade (upgrade : FleetUpgradeConfig) (haltOnFailure : Bool) (s : ControllerState E)
    (between : List (ControllerEvent E)) (timing : ℕ → WaveTiming E) : Bool :=
  (s.after between).current.all fun g =>
    promptWaves haltOnFailure g.generation (computeUpgradeWaves upgrade s.edges) timing (s.after between)

section Runs
variable {generation : ℕ}

variable (generation) in
theorem runWave_outlook (wave : String × List E) (hnodup : wave.2.Nodup) (timing : WaveTiming E) (s : ControllerState E) :
    ((runWave generation wave timing s).2.Exact ↔ (timing.outlook generation wave s).prompt) ∧
      ((timing.outlook generation wave s).prompt →
        (runWave generation wave timing s).1 = (timing.outlook generation wave s).after ∧
          (runWave generation wave timing s).2.success = (timing.outlook generation wave s).clean) := by
  have hempty : AckLists.Answered ⟨[],[]⟩ wave.2 [] := fun e => by simp [AckLists.tally]
  obtain ⟨hexact,hends⟩ := awaitAcks_outlook generation s hnodup timing.last timing.polls hempty
  refine ⟨(exact_iff_entries _ _).trans hexact,fun hprompt => ?_⟩
  obtain ⟨hafter,hclean⟩ := hends hprompt
  refine ⟨hafter,?_⟩
  rw [Bool.eq_iff_iff]
  exact decide_eq_true_iff.trans hclean

theorem runWaves_exact_iff (haltOnFailure : Bool) (waves : List (String × List E)) (hnodup : ∀ w ∈ waves, w.2.Nodup)
    (timing : ℕ → WaveTiming E) (s : ControllerState E) :
    (∀ r ∈ (runWaves haltOnFailure generation waves timing s).1, r.Exact) ↔ promptWaves haltOnFailure generation waves timing s := by
  induction waves generalizing timing s with
  | nil => simp [runWaves,promptWaves]
  | cons wave rest ih =>
    obtain ⟨hexact,hends⟩ := runWave_outlook generation wave (hnodup wave List.mem_cons_self) (timing 0) s
    rw [runWaves,promptWaves]
    cases hprompt : ((timing 0).outlook generation wave s).prompt with
    | false =>
      refine iff_of_false (fun hall => ?_) (by simp)
      have hfirst : (runWave generation wave (timing 0) s).2.Exact := by
        apply hall
        split <;> exact List.mem_cons_self
      rw [hexact,hprompt] at hfirst
      cases hfirst
    | true =>
      obtain ⟨hafter,hclean⟩ := hends hprompt
      have hfirst := hexact.mpr hprompt
      have hrest := ih (fun w hw => hnodup w (List.mem_cons_of_mem wave hw)) (fun n => timing (n + 1))
        ((timing 0).outlook generation wave s).after
      simp only [hclean,hafter,Bool.true_and]
      cases hhalts : (! ((timing 0).outlook generation wave s).clean && haltOnFailure) with
      | true => simpa using hfirst
      | false => simpa [hfirst] using hrest

/-- The waves processed are the first ones. -/
theorem runWaves_initial (haltOnFailure : Bool) (waves : List (String × List E)) (timing : ℕ → WaveTiming E) (s : ControllerState E) :
    ((runWaves haltOnFailure generation waves timing s).1.map fun r => (r.name,r.targetEdges)) <+: waves := by
  induction waves generalizing timing s with
  | nil => exact List.prefix_refl []
  | cons wave rest ih =>
    rw [runWaves]
    simp only
    split
    · exact List.cons_prefix_cons.mpr ⟨rfl,List.nil_prefix⟩
    · exact List.cons_prefix_cons.mpr ⟨rfl,ih _ _⟩

omit [DecidableEq E] in
/-- Exact records add up. -/
theorem WaveResult.Exact.lengths {r : WaveResult E} (h : r.Exact) (hnodup : r.targetEdges.Nodup) :
    r.acked.length + r.failed.length = r.targetEdges.length := by
  have hboth : (r.acked ++ r.failed).Nodup := List.nodup_append'.mpr ⟨h.acked_nodup,h.failed_nodup,h.disjoint⟩
  have hperm : (r.acked ++ r.failed).Perm r.targetEdges :=
    (List.perm_ext_iff_of_nodup hboth hnodup).mpr fun e => List.mem_append.trans (h.together e)
  rw [← List.length_append,hperm.length_eq]

omit [DecidableEq E] in
theorem sum_lengths {results : List (WaveResult E)} (h : ∀ r ∈ results, r.Exact) (hnodup : ∀ r ∈ results, r.targetEdges.Nodup) :
    (results.map (·.acked.length)).sum + (results.map (·.failed.length)).sum = (results.map (·.targetEdges.length)).sum := by
  induction results with
  | nil => rfl
  | cons r rest ih =>
    have hfirst := (h r List.mem_cons_self).lengths (hnodup r List.mem_cons_self)
    have hrest := ih (fun r' hr' => h r' (List.mem_cons_of_mem r hr')) fun r' hr' => hnodup r' (List.mem_cons_of_mem r hr')
    simp only [List.map_cons,List.sum_cons]
    omega

end Runs

/-- The records of a whole rollout: every wave's lists are exact, and the totals add up. -/
structure FleetUpgradeResult.Exact (r : FleetUpgradeResult E) : Prop where
  waves : ∀ w ∈ r.waveResults, w.Exact
  totals : r.edgesUpgraded + r.edgesFailed = (r.waveResults.map (·.targetEdges.length)).sum

theorem runFleetUpgrade_exact_iff (upgrade : FleetUpgradeConfig) (haltOnFailure : Bool) (s : ControllerState E)
    (between : List (ControllerEvent E)) (timing : ℕ → WaveTiming E) :
    (runFleetUpgrade upgrade haltOnFailure s between timing).Exact ↔ promptUpgrade upgrade haltOnFailure s between timing := by
  rw [runFleetUpgrade,promptUpgrade]
  simp only
  split
  · rename_i hnone
    refine iff_of_true ⟨nofun,rfl⟩ ?_
    rw [hnone]
    cases (s.after between).current <;> rfl
  · cases hcurrent : (s.after between).current with
    | none => exact iff_of_true ⟨nofun,rfl⟩ rfl
    | some g =>
      have hwaves : ∀ w ∈ computeUpgradeWaves upgrade s.edges, w.2.Nodup := fun w hw => nodup_of_mem_computeUpgradeWaves s.distinct hw
      refine Iff.trans ?_ (runWaves_exact_iff haltOnFailure _ hwaves timing (s.after between))
      refine ⟨fun hexact => hexact.waves,fun hall => ⟨hall,sum_lengths hall fun r hr => ?_⟩⟩
      have hmem := (runWaves_initial haltOnFailure _ timing (s.after between)).subset (List.mem_map_of_mem hr)
      exact hwaves _ hmem

/-- A rollout puts every registered edge in exactly one wave of the configured size, and keeps
exact records of the waves it processes if and only if it is prompt. -/
theorem fleet_upgrade_bookkeeping (upgrade : FleetUpgradeConfig) (haltOnFailure : Bool) (s : ControllerState E)
    (between : List (ControllerEvent E)) (timing : ℕ → WaveTiming E) :
    ((computeUpgradeWaves upgrade s.edges).flatMap (·.2)).Perm (s.edges.map (·.edgeId)) ∧
      ((computeUpgradeWaves upgrade s.edges).flatMap (·.2)).Nodup ∧
      (0 < upgrade.maxConcurrent → ∀ w ∈ computeUpgradeWaves upgrade s.edges, w.2.length ≤ upgrade.maxConcurrent) ∧
      ((runFleetUpgrade upgrade haltOnFailure s between timing).waveResults.map fun r => (r.name,r.targetEdges)) <+:
        computeUpgradeWaves upgrade s.edges ∧
      ((runFleetUpgrade upgrade haltOnFailure s between timing).Exact ↔ promptUpgrade upgrade haltOnFailure s between timing) := by
  have hperm := computeUpgradeWaves_perm upgrade s.distinct
  refine ⟨hperm,hperm.nodup_iff.mpr s.distinct,fun hmax w hw => length_le_of_mem_wavesFrom hmax hw,?_,
    runFleetUpgrade_exact_iff upgrade haltOnFailure s between timing⟩
  rw [runFleetUpgrade]
  simp only
  split
  · exact List.nil_prefix
  · split
    · exact List.nil_prefix
    · exact runWaves_initial haltOnFailure _ timing (s.after between)

/-- Two edges, the first of which has refused the generation. -/
def refusedState : ControllerState String where
  edges := [⟨"edge-1",1,[]⟩,⟨"edge-2",1,[]⟩]
  distinct := by decide
  acks := fun e n => if e = "edge-1" ∧ n = 1 then some false else none
  current := some ⟨1,"",""⟩

/-- The second edge's ack comes a poll later. -/
def lateAck : WaveTiming String := ⟨[⟨[],[]⟩],⟨[.recordAck "edge-2" 1 true],[]⟩⟩

/-- The refusal is recorded twice. -/
theorem refusal_counted_twice :
    ((runFleetUpgrade ⟨[],0⟩ false refusedState [] fun _ => lateAck).waveResults.map fun w => (w.acked,w.failed)) =
        [(["edge-2"],["edge-1","edge-1"])] ∧
      (runFleetUpgrade ⟨[],0⟩ false refusedState [] fun _ => lateAck).edgesUpgraded = 1 ∧
      (runFleetUpgrade ⟨[],0⟩ false refusedState [] fun _ => lateAck).edgesFailed = 2 ∧
      ¬ (runFleetUpgrade ⟨[],0⟩ false refusedState [] fun _ => lateAck).Exact := by
  refine ⟨by decide,by decide,by decide,fun hexact => ?_⟩
  have htotals := hexact.totals
  revert htotals
  decide

end Dwara.CpDp
