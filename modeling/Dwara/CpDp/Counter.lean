import Dwara.CpDp.ControlPlane
import Dwara.Lib.System
import Mathlib.Algebra.GroupWithZero.Nat
import Mathlib.Data.List.Nodup

/-! The generation counter of one controller under concurrent publishes, registrations
and seedings. Every lock acquisition is a step of its own. -/

namespace Dwara.CpDp
open Dwara.Lib

/-- What a call on the counter does next. A publish carries the highest generation an
edge had registered at when it started. -/
inductive CounterCall (E : Type*) where
  | idle
  | publishWrite (generation : ConfigGeneration) (floor : ℕ)
  | seedWrite (persisted : ℕ)
  | registerSeed (registration : EdgeRegistration E)
  | registerInsert (registration : EdgeRegistration E)
  deriving DecidableEq, Repr

/-- The counter with the calls on it and, for the statements, the highest generation
registered and what every publish returned. -/
structure CounterState (E : Type*) where
  current : Option ConfigGeneration
  edges : List (EdgeRegistration E)
  calls : ℕ → CounterCall E
  registered : ℕ
  returned : List (ConfigGeneration × ℕ)

inductive CounterLabel (E : Type*) where
  | publish (t : ℕ) (config configHash : String)
  | seed (t : ℕ) (persisted : ℕ)
  | register (t : ℕ) (registration : EdgeRegistration E)
  | call (t : ℕ)
  deriving DecidableEq, Repr

/-- The next number of a 64-bit counter. -/
def nextWord (g : Option ConfigGeneration) : ℕ := nextNumber g % 2 ^ 64

namespace CounterState
variable {E : Type*}

def goto (s : CounterState E) (t : ℕ) (next : CounterCall E) : CounterState E :=
  { s with calls := Function.update s.calls t next }

@[simp] theorem goto_calls (s : CounterState E) (t : ℕ) (next : CounterCall E) :
    (s.goto t next).calls = Function.update s.calls t next := rfl

@[simp] theorem goto_current (s : CounterState E) (t : ℕ) (next : CounterCall E) : (s.goto t next).current = s.current := rfl

def init : CounterState E := ⟨none,[],fun _ => .idle,0,[]⟩

variable [DecidableEq E]

def callStep (s : CounterState E) (t : ℕ) : Option (CounterState E) :=
  match s.calls t with
  | .idle => none
  | .publishWrite g floor => some ({ s with current := some g, returned := s.returned ++ [(g,floor)] }.goto t .idle)
  | .seedWrite persisted => some ({ s with current := seeded s.current persisted }.goto t .idle)
  | .registerSeed r => some ({ s with current := seeded s.current r.currentGeneration }.goto t (.registerInsert r))
  | .registerInsert r =>
    some ({ s with
      edges := insertEdge s.edges r
      registered := max s.registered r.currentGeneration }.goto t .idle)

def step (s : CounterState E) : CounterLabel E → Option (CounterState E)
  | .publish t config configHash =>
    if s.calls t = .idle then some (s.goto t (.publishWrite ⟨nextWord s.current,config,configHash⟩ s.registered)) else none
  | .seed t persisted =>
    if s.calls t = .idle then some (if number s.current < persisted then s.goto t (.seedWrite persisted) else s) else none
  | .register t r =>
    if s.calls t = .idle then
      some (s.goto t (if number s.current < r.currentGeneration then .registerSeed r else .registerInsert r))
    else none
  | .call t => s.callStep t

/-- Everything a step can do. -/
inductive Move (s : CounterState E) : CounterLabel E → CounterState E → Prop
  | stay {a : CounterLabel E} : Move s a s
  | publish {t : ℕ} {config configHash : String} :
      Move s (.publish t config configHash) (s.goto t (.publishWrite ⟨nextWord s.current,config,configHash⟩ s.registered))
  | seed {t n : ℕ} : Move s (.seed t n) (s.goto t (.seedWrite n))
  | register {t : ℕ} {r : EdgeRegistration E} : Move s (.register t r) (s.goto t (.registerSeed r))
  | registerKnown {t : ℕ} {r : EdgeRegistration E} (hle : r.currentGeneration ≤ number s.current) :
      Move s (.register t r) (s.goto t (.registerInsert r))
  | publishWrite {t floor : ℕ} {g : ConfigGeneration} (ht : s.calls t = .publishWrite g floor) :
      Move s (.call t) ({ s with current := some g, returned := s.returned ++ [(g,floor)] }.goto t .idle)
  | seedWrite {t n : ℕ} (ht : s.calls t = .seedWrite n) :
      Move s (.call t) ({ s with current := seeded s.current n }.goto t .idle)
  | registerSeed {t : ℕ} {r : EdgeRegistration E} (ht : s.calls t = .registerSeed r) :
      Move s (.call t) ({ s with current := seeded s.current r.currentGeneration }.goto t (.registerInsert r))
  | registerInsert {t : ℕ} {r : EdgeRegistration E} (ht : s.calls t = .registerInsert r) :
      Move s (.call t) ({ s with
        edges := insertEdge s.edges r
        registered := max s.registered r.currentGeneration }.goto t .idle)

theorem step_move {s s' : CounterState E} {a : CounterLabel E} (h : s.step a = some s') : Move s a s' := by
  cases a with
  | publish t config configHash =>
    simp only [step,Option.ite_none_right_eq_some,Option.some.injEq] at h
    obtain ⟨_,rfl⟩ := h
    exact .publish
  | seed t n =>
    simp only [step,Option.ite_none_right_eq_some,Option.some.injEq] at h
    obtain ⟨_,rfl⟩ := h
    split
    · exact .seed
    · exact .stay
  | register t r =>
    simp only [step,Option.ite_none_right_eq_some,Option.some.injEq] at h
    obtain ⟨_,rfl⟩ := h
    split
    · exact .register
    · rename_i hle
      exact .registerKnown (Nat.le_of_not_lt hle)
  | call t =>
    rw [step,callStep] at h
    split at h
    · cases h
    · rename_i g floor ht
      cases h
      exact .publishWrite ht
    · rename_i n ht
      cases h
      exact .seedWrite ht
    · rename_i r ht
      cases h
      exact .registerSeed ht
    · rename_i r ht
      cases h
      exact .registerInsert ht

end CounterState

def counter (E : Type*) [DecidableEq E] : System (CounterState E) (CounterLabel E) := ⟨CounterState.init,CounterState.step⟩

section Ahead
variable {E : Type*}

/-- A publish writes a number the counter has not passed and no publish has written. -/
def CounterCall.WritesAhead (s : CounterState E) : CounterCall E → Prop
  | .publishWrite g _ => number s.current ≤ g.generation ∧ ∀ p ∈ s.returned, p.1.generation ≠ g.generation
  | _ => True

def WritesAhead (s : CounterState E) : CounterLabel E → Prop
  | .call t => (s.calls t).WritesAhead s
  | _ => True

instance (s : CounterState E) : (c : CounterCall E) → Decidable (c.WritesAhead s)
  | .publishWrite _ _ => inferInstanceAs (Decidable (_ ∧ _))
  | .idle | .seedWrite _ | .registerSeed _ | .registerInsert _ => isTrue trivial

instance (s : CounterState E) : (a : CounterLabel E) → Decidable (WritesAhead s a)
  | .call t => inferInstanceAs (Decidable ((s.calls t).WritesAhead s))
  | .publish _ _ _ | .seed _ _ | .register _ _ => isTrue trivial

/-- What the counter and the calls on it satisfy while every publish writes ahead. -/
structure Ahead (s : CounterState E) : Prop where
  registered : s.registered ≤ number s.current
  publishing : ∀ t g floor, s.calls t = .publishWrite g floor → ∃ n, floor ≤ n ∧ n ≤ number s.current ∧ g.generation = (n + 1) % 2 ^ 64
  inserting : ∀ t r, s.calls t = .registerInsert r → r.currentGeneration ≤ number s.current
  distinct : (s.returned.map (·.1.generation)).Nodup
  above : ∀ p ∈ s.returned, p.2 < p.1.generation

theorem Ahead.init : Ahead (CounterState.init : CounterState E) where
  registered := le_refl _
  publishing _ _ _ h := by cases h
  inserting _ _ h := by cases h
  distinct := List.nodup_nil
  above _ h := absurd h List.not_mem_nil

theorem Ahead.goto {s : CounterState E} (h : Ahead s) (t : ℕ) {next : CounterCall E}
    (hpublish : ∀ g floor, next = .publishWrite g floor → ∃ n, floor ≤ n ∧ n ≤ number s.current ∧ g.generation = (n + 1) % 2 ^ 64)
    (hinsert : ∀ r, next = .registerInsert r → r.currentGeneration ≤ number s.current) : Ahead (s.goto t next) := by
  refine ⟨h.registered,fun t' g floor ht' => ?_,fun t' r ht' => ?_,h.distinct,h.above⟩
  · by_cases htt : t' = t
    · rw [htt,CounterState.goto_calls,Function.update_self] at ht'
      exact hpublish g floor ht'
    · rw [CounterState.goto_calls,Function.update_of_ne htt] at ht'
      exact h.publishing t' g floor ht'
  · by_cases htt : t' = t
    · rw [htt,CounterState.goto_calls,Function.update_self] at ht'
      exact hinsert r ht'
    · rw [CounterState.goto_calls,Function.update_of_ne htt] at ht'
      exact h.inserting t' r ht'

theorem Ahead.raise {s : CounterState E} (h : Ahead s) {current : Option ConfigGeneration}
    (hle : number s.current ≤ number current) : Ahead { s with current := current } where
  registered := h.registered.trans hle
  publishing t g floor ht := by
    obtain ⟨n,hfloor,hn,hg⟩ := h.publishing t g floor ht
    exact ⟨n,hfloor,hn.trans hle,hg⟩
  inserting t r ht := (h.inserting t r ht).trans hle
  distinct := h.distinct
  above := h.above

theorem le_number_seeded (g : Option ConfigGeneration) (n : ℕ) : number g ≤ number (seeded g n) := by
  rw [number_seeded]
  exact le_max_left _ _

/-- A publish that writes ahead lifts the counter above every edge registered before it. -/
theorem Ahead.write {s : CounterState E} (h : Ahead s) {t floor : ℕ} {g : ConfigGeneration}
    (ht : s.calls t = .publishWrite g floor) (hle : number s.current ≤ g.generation)
    (hnew : ∀ p ∈ s.returned, p.1.generation ≠ g.generation) :
    Ahead { s with current := some g, returned := s.returned ++ [(g,floor)] } := by
  obtain ⟨n,hfloor,hn,hg⟩ := h.publishing t g floor ht
  have hraised : Ahead { s with current := some g } := h.raise hle
  refine ⟨hraised.registered,hraised.publishing,hraised.inserting,?_,?_⟩
  · rw [List.map_append,List.nodup_append]
    refine ⟨h.distinct,List.nodup_singleton _,?_⟩
    intro a ha b hb hab
    obtain ⟨p,hp,rfl⟩ := List.mem_map.mp ha
    rw [List.map_singleton,List.mem_singleton] at hb
    exact hnew p hp (hab.trans hb)
  · intro p hp
    rcases List.mem_append.mp hp with hp | hp
    · exact h.above p hp
    · rw [List.mem_singleton.mp hp]
      simp only
      omega

theorem Ahead.step [DecidableEq E] {s s' : CounterState E} {a : CounterLabel E} (h : Ahead s) (hw : WritesAhead s a)
    (hm : CounterState.Move s a s') : Ahead s' ∧ number s.current ≤ number s'.current := by
  cases hm with
  | stay => exact ⟨h,le_refl _⟩
  | publish =>
    refine ⟨h.goto _ ?_ nofun,le_refl _⟩
    intro g floor hnext
    obtain ⟨rfl,rfl⟩ := CounterCall.publishWrite.inj hnext
    exact ⟨number s.current,h.registered,le_refl _,by rw [nextWord,nextNumber_eq]⟩
  | seed => exact ⟨h.goto _ nofun nofun,le_refl _⟩
  | register => exact ⟨h.goto _ nofun nofun,le_refl _⟩
  | registerKnown hle =>
    refine ⟨h.goto _ nofun ?_,le_refl _⟩
    intro r hnext
    obtain rfl := CounterCall.registerInsert.inj hnext
    exact hle
  | publishWrite ht =>
    simp only [WritesAhead,ht,CounterCall.WritesAhead] at hw
    exact ⟨(h.write ht hw.1 hw.2).goto _ nofun nofun,hw.1⟩
  | seedWrite ht => exact ⟨(h.raise (le_number_seeded _ _)).goto _ nofun nofun,le_number_seeded _ _⟩
  | registerSeed ht =>
    refine ⟨(h.raise (le_number_seeded _ _)).goto _ nofun ?_,le_number_seeded _ _⟩
    intro r hnext
    obtain rfl := CounterCall.registerInsert.inj hnext
    rw [number_seeded]
    exact le_max_right _ _
  | registerInsert ht =>
    refine ⟨Ahead.goto ?_ _ nofun nofun,le_refl _⟩
    exact ⟨max_le h.registered (h.inserting _ _ ht),h.publishing,h.inserting,h.distinct,h.above⟩

end Ahead

section Run
variable {E : Type*} [DecidableEq E]

/-- No step of the run lowers the counter. -/
def Rises (run : List (CounterLabel E)) : Prop :=
  ∀ pre a post s s', run = pre ++ a :: post → (counter E).run pre = some s → s.step a = some s' →
    number s.current ≤ number s'.current

/-- The counter never goes back along the run, no two publishes return one number, and
each returns more than the generation of any edge registered before it started. -/
structure NeverBackwards (run : List (CounterLabel E)) (s : CounterState E) : Prop where
  rises : Rises run
  distinct : (s.returned.map (·.1.generation)).Nodup
  above : ∀ p ∈ s.returned, p.2 < p.1.generation

/-- While every publish writes ahead, the calls stay in line with the counter. -/
theorem ahead_run {run : List (CounterLabel E)} {s : CounterState E} (hr : (counter E).run run = some s)
    (hw : (counter E).Along WritesAhead run) : Ahead s := by
  refine System.guarded_inv Ahead Ahead.init ?_ hw hr
  exact fun s a s' h hg hstep => (h.step hg (CounterState.step_move hstep)).1

theorem returned_prefix {xs ys : List (CounterLabel E)} {s s' : CounterState E} (hs : (counter E).run xs = some s)
    (hs' : (counter E).run (xs ++ ys) = some s') : s.returned <+: s'.returned := by
  have : Std.Refl (fun s s' : CounterState E => s.returned <+: s'.returned) := ⟨fun s => List.prefix_rfl⟩
  have : IsTrans (CounterState E) (fun s s' => s.returned <+: s'.returned) := ⟨fun _ _ _ => List.IsPrefix.trans⟩
  refine System.extension_related (fun s s' : CounterState E => s.returned <+: s'.returned) ?_ hs hs'
  intro s a s' hstep
  cases CounterState.step_move hstep with
  | publishWrite ht => exact List.prefix_append _ _
  | _ => exact List.prefix_rfl

/-- Two publishes return number 1, and a third takes the counter from 9 back to 2. -/
def overlapping : List (CounterLabel ℕ) :=
  [.publish 0 "a" "h1",.publish 1 "b" "h2",.call 0,.call 1,.publish 2 "c" "h3",.register 3 ⟨7,9,[]⟩,.call 3,.call 3,.call 2]

/-- One publish after another, with a registration in between. -/
def oneByOne : List (CounterLabel ℕ) :=
  [.publish 0 "a" "h1",.call 0,.register 1 ⟨7,9,[]⟩,.call 1,.call 1,.publish 0 "b" "h2",.call 0]

end Run
end Dwara.CpDp
