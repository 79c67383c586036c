import Mathlib.Data.List.Basic
import Mathlib.Data.Nat.Basic
import Mathlib.Logic.Function.Basic

/-! What the controller and an edge hold in memory, and what each of their
operations does under one lock. -/

namespace Dwara.CpDp

/-- A published configuration, or a seed of the counter with an empty body. -/
structure ConfigGeneration where
  generation : ℕ
  config : String
  configHash : String
  deriving DecidableEq, Repr

/-- An update for the edges it names; an empty list names them all. -/
structure ConfigUpdate (E : Type*) where
  generation : ConfigGeneration
  targetEdges : List E
  deriving DecidableEq, Repr

structure EdgeRegistration (E : Type*) where
  edgeId : E
  currentGeneration : ℕ
  labels : List (String × String)
  deriving DecidableEq, Repr

/-- Why `receive_update` refuses an update. -/
inductive UpdateRefused (E : Type*) where
  | notTargeted (targetEdges : List E)
  | notNewer (received cached : ℕ)
  deriving DecidableEq, Repr

/-- The number of a generation slot, zero when it is empty. -/
def number (g : Option ConfigGeneration) : ℕ := (g.map (·.generation)).getD 0

/-- The number `publish_generation` computes from the slot it reads. -/
def nextNumber (g : Option ConfigGeneration) : ℕ := (g.map (·.generation + 1)).getD 1

/-- The placeholder recorded when the counter is seeded. -/
def placeholder (n : ℕ) : ConfigGeneration := ⟨n,"",""⟩

/-- The write half of seeding, which checks the counter again. -/
def seeded (g : Option ConfigGeneration) (n : ℕ) : Option ConfigGeneration :=
  if number g < n then some (placeholder n) else g

theorem number_some (g : ConfigGeneration) : number (some g) = g.generation := rfl

theorem nextNumber_eq (g : Option ConfigGeneration) : nextNumber g = number g + 1 := by cases g <;> rfl

theorem number_seeded (g : Option ConfigGeneration) (n : ℕ) : number (seeded g n) = max (number g) n := by
  rw [seeded]
  split
  · rename_i h
    exact (max_eq_right (Nat.le_of_lt h)).symm
  · rename_i h
    exact (max_eq_left (Nat.le_of_not_lt h)).symm

section Edges
variable {E : Type*} [DecidableEq E]

/-- Insert or replace the registration of one edge. -/
def insertEdge (edges : List (EdgeRegistration E)) (registration : EdgeRegistration E) : List (EdgeRegistration E) :=
  registration :: edges.filter (fun r => r.edgeId ≠ registration.edgeId)

/-- The update reaches this edge's stream and passes its target check. -/
def ConfigUpdate.targets (update : ConfigUpdate E) (e : E) : Prop :=
  update.targetEdges = [] ∨ e ∈ update.targetEdges

instance (update : ConfigUpdate E) (e : E) : Decidable (update.targets e) :=
  inferInstanceAs (Decidable (_ ∨ _))

/-- What the edge caches after an update, if it accepts it. -/
def receiveUpdate (e : E) (cached : Option ConfigGeneration) (update : ConfigUpdate E) :
    Except (UpdateRefused E) ConfigGeneration :=
  if ¬ update.targets e then
    .error (.notTargeted update.targetEdges)
  else
    match cached with
    | some held =>
      if update.generation.generation ≤ held.generation then
        .error (.notNewer update.generation.generation held.generation)
      else
        .ok update.generation
    | none => .ok update.generation

/-- What the edge holds once it has received an update. -/
def cacheAfter (e : E) (cached : Option ConfigGeneration) (update : ConfigUpdate E) : Option ConfigGeneration :=
  match receiveUpdate e cached update with
  | .ok g => some g
  | .error _ => cached

/-- An accepted update is the one received, addressed to the edge and newer than its cache. -/
theorem receiveUpdate_ok {e : E} {cached : Option ConfigGeneration} {update : ConfigUpdate E} {g : ConfigGeneration}
    (h : receiveUpdate e cached update = .ok g) :
    g = update.generation ∧ update.targets e ∧ ∀ held, cached = some held → held.generation < g.generation := by
  unfold receiveUpdate at h
  split at h
  · cases h
  · rename_i ht
    split at h
    · split at h
      · cases h
      · cases h
        exact ⟨rfl,not_not.mp ht,fun held hh => by cases hh; omega⟩
    · cases h
      exact ⟨rfl,not_not.mp ht,fun _ hh => nomatch hh⟩

/-- An update addressed to the edge is refused only for not being newer. -/
theorem receiveUpdate_error {e : E} {cached : Option ConfigGeneration} {update : ConfigUpdate E}
    {refused : UpdateRefused E} (ht : update.targets e) (h : receiveUpdate e cached update = .error refused) :
    ∃ held, cached = some held ∧ update.generation.generation ≤ held.generation := by
  unfold receiveUpdate at h
  rw [if_neg (not_not.mpr ht)] at h
  cases cached with
  | none => cases h
  | some held =>
    refine ⟨held,rfl,?_⟩
    by_contra hnew
    simp [hnew] at h

/-- Receiving never lowers the number an edge holds. -/
theorem number_le_cacheAfter (e : E) (cached : Option ConfigGeneration) (update : ConfigUpdate E) :
    number cached ≤ number (cacheAfter e cached update) := by
  rw [cacheAfter]
  split
  · rename_i g h
    cases cached with
    | none => exact Nat.zero_le _
    | some held => exact Nat.le_of_lt ((receiveUpdate_ok h).2.2 held rfl)
  · exact Nat.le_refl _

theorem cacheAfter_eq (e : E) (cached : Option ConfigGeneration) (update : ConfigUpdate E) :
    cacheAfter e cached update = some update.generation ∨ cacheAfter e cached update = cached := by
  rw [cacheAfter]
  split
  · rename_i g h
    exact .inl (congrArg some (receiveUpdate_ok h).1)
  · exact .inr rfl

/-- A newer update addressed to the edge is cached. -/
theorem cacheAfter_of_newer {e : E} {cached : Option ConfigGeneration} {update : ConfigUpdate E}
    (ht : update.targets e) (h : number cached < update.generation.generation) :
    cacheAfter e cached update = some update.generation := by
  rw [cacheAfter]
  split
  · rename_i g hg
    exact congrArg some (receiveUpdate_ok hg).1
  · rename_i refused hr
    obtain ⟨held,rfl,hold⟩ := receiveUpdate_error ht hr
    rw [number_some] at h
    omega

/-- An update that is not newer leaves a held generation alone. -/
theorem cacheAfter_of_not_newer {e : E} {held : ConfigGeneration} {update : ConfigUpdate E}
    (h : update.generation.generation ≤ held.generation) : cacheAfter e (some held) update = some held := by
  rw [cacheAfter]
  split
  · rename_i g hg
    obtain ⟨rfl,-,hnew⟩ := receiveUpdate_ok hg
    have := hnew held rfl
    omega
  · rfl

end Edges

/-- One entry of the upgrade order: the edges that carry all its labels. -/
structure FleetUpgradeEntry where
  name : String
  labels : List (String × String)
  deriving DecidableEq, Repr

structure FleetUpgradeConfig where
  order : List FleetUpgradeEntry
  maxConcurrent : ℕ
  deriving DecidableEq, Repr

section Waves
variable {E : Type*} [DecidableEq E]

def FleetUpgradeEntry.selects (entry : FleetUpgradeEntry) (edge : EdgeRegistration E) : Bool :=
  entry.labels.all (fun l => edge.labels.lookup l.1 = some l.2)

/-- At most `size` edges at a time; zero stands for no limit. -/
def chunks (size : ℕ) (edges : List E) : List (List E) :=
  if 0 < size ∧ size < edges.length then edges.toChunks size else [edges]

/-- The edges one entry takes from those not matched yet, with everything matched so far. -/
def takeWave (entry : FleetUpgradeEntry) (edges : List (EdgeRegistration E)) (matched : List E) : List E × List E :=
  edges.foldl (fun (wave,matched) edge =>
    if edge.edgeId ∈ matched then (wave,matched)
    else if entry.selects edge then (wave ++ [edge.edgeId],matched ++ [edge.edgeId])
    else (wave,matched)) ([],matched)

def wavesFrom (upgrade : FleetUpgradeConfig) (edges : List (EdgeRegistration E)) :
    List FleetUpgradeEntry → List E → List (String × List E)
  | [], matched =>
    let remaining := (edges.filter (fun e => e.edgeId ∉ matched)).map (·.edgeId)
    if remaining = [] then [] else (chunks upgrade.maxConcurrent remaining).map (fun c => ("catch-all",c))
  | entry :: rest, matched =>
    let (wave,matched) := takeWave entry edges matched
    (if wave = [] then [] else (chunks upgrade.maxConcurrent wave).map (fun c => (entry.name,c))) ++
      wavesFrom upgrade edges rest matched

/-- The waves of an upgrade over the registered edges, in order. -/
def computeUpgradeWaves (upgrade : FleetUpgradeConfig) (edges : List (EdgeRegistration E)) : List (String × List E) :=
  wavesFrom upgrade edges upgrade.order []

end Waves
end Dwara.CpDp
