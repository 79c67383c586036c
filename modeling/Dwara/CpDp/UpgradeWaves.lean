import Dwara.CpDp.ControlPlane
import Dwara.Lib.GroupBy
import Mathlib.Data.List.Basic
import Mathlib.Data.List.Nodup
import Mathlib.Data.List.Perm.Basic
import Mathlib.Algebra.GroupWithZero.Nat

/-! The waves of an upgrade: every registered edge is in exactly one, and none is too large. -/

namespace Dwara.CpDp
open Dwara.Lib

variable {E : Type*} [DecidableEq E] {upgrade : FleetUpgradeConfig} {edges : List (EdgeRegistration E)}

section Chunks
omit [DecidableEq E]

theorem flatten_chunks (size : ℕ) (edges : List E) : (chunks size edges).flatten = edges := by
  rw [chunks]
  split
  · exact Chunks.flatten_toChunks size edges
  · simp

theorem length_le_of_mem_chunks {size : ℕ} (hsize : 0 < size) {edges c : List E} (hc : c ∈ chunks size edges) : c.length ≤ size := by
  rw [chunks] at hc
  split at hc
  · exact Chunks.length_le_of_mem_toChunks hsize hc
  · rename_i hfits
    rw [List.mem_singleton] at hc
    rw [hc]
    omega

/-- The chunks of a wave hold the wave. -/
theorem flatMap_chunked (name : String) (size : ℕ) (wave : List E) :
    (if wave = [] then [] else (chunks size wave).map (fun c => (name,c))).flatMap (·.2) = wave := by
  split
  · rename_i h
    rw [h]
    rfl
  · rw [List.flatMap_map,List.flatMap_id',flatten_chunks]

end Chunks

/-- The edges an entry takes. -/
def FleetUpgradeEntry.takes (entry : FleetUpgradeEntry) (edges : List (EdgeRegistration E)) (matched : List E) :
    List (EdgeRegistration E) := edges.filter fun e => e.edgeId ∉ matched ∧ entry.selects e

/-- What the loop of an entry does with one edge. -/
def FleetUpgradeEntry.visit (entry : FleetUpgradeEntry) (taken : List E × List E) (edge : EdgeRegistration E) : List E × List E :=
  if edge.edgeId ∈ taken.2 then taken
  else if entry.selects edge then (taken.1 ++ [edge.edgeId],taken.2 ++ [edge.edgeId])
  else taken

theorem takeWave_eq_foldl (entry : FleetUpgradeEntry) (matched : List E) :
    takeWave entry edges matched = edges.foldl entry.visit ([],matched) := rfl

theorem foldl_visit (entry : FleetUpgradeEntry) {matched : List E} (hnodup : (edges.map (·.edgeId)).Nodup) (wave taken : List E)
    (htaken : ∀ e ∈ edges, e.edgeId ∈ taken ↔ e.edgeId ∈ matched) :
    edges.foldl entry.visit (wave,taken) =
      (wave ++ (entry.takes edges matched).map (·.edgeId),taken ++ (entry.takes edges matched).map (·.edgeId)) := by
  induction edges generalizing wave taken with
  | nil => simp [FleetUpgradeEntry.takes]
  | cons edge rest ih =>
    obtain ⟨hfresh,hrest⟩ := List.nodup_cons.mp (List.map_cons ▸ hnodup)
    have hhead := htaken edge List.mem_cons_self
    have htail : ∀ e ∈ rest, e.edgeId ∈ taken ↔ e.edgeId ∈ matched := fun e he => htaken e (List.mem_cons_of_mem edge he)
    rw [List.foldl_cons,FleetUpgradeEntry.visit]
    by_cases hmatched : edge.edgeId ∈ matched
    · rw [if_pos (hhead.mpr hmatched),ih hrest wave taken htail]
      simp [FleetUpgradeEntry.takes,hmatched]
    · rw [if_neg (mt hhead.mp hmatched)]
      by_cases hselects : entry.selects edge
      · rw [if_pos hselects,ih hrest]
        · simp [FleetUpgradeEntry.takes,hmatched,hselects]
        · intro e he
          have hne : e.edgeId ≠ edge.edgeId := fun h => hfresh (List.mem_map.mpr ⟨e,he,h⟩)
          simp [htail e he,hne]
      · rw [if_neg hselects,ih hrest wave taken htail]
        simp [FleetUpgradeEntry.takes,hselects]

/-- An entry takes the unmatched edges it selects, each once. -/
theorem takeWave_eq (entry : FleetUpgradeEntry) (matched : List E) (hnodup : (edges.map (·.edgeId)).Nodup) :
    takeWave entry edges matched =
      ((entry.takes edges matched).map (·.edgeId),matched ++ (entry.takes edges matched).map (·.edgeId)) := by
  rw [takeWave_eq_foldl,foldl_visit entry hnodup [] matched fun _ _ => Iff.rfl,List.nil_append]

/-- What an entry leaves to the later ones. -/
theorem filter_not_taken (entry : FleetUpgradeEntry) (matched : List E) (hnodup : (edges.map (·.edgeId)).Nodup) :
    (edges.filter fun e => e.edgeId ∉ matched ++ (entry.takes edges matched).map (·.edgeId)) =
      (edges.filter fun e => e.edgeId ∉ matched).filter fun e => ! entry.selects e := by
  rw [List.filter_filter]
  apply List.filter_congr
  intro e he
  have htaken : e.edgeId ∈ (entry.takes edges matched).map (·.edgeId) ↔ e.edgeId ∉ matched ∧ entry.selects e := by
    constructor
    · intro hmem
      obtain ⟨e',he',hid⟩ := List.mem_map.mp hmem
      obtain ⟨hedges,htakes⟩ := List.mem_filter.mp he'
      obtain rfl := List.inj_on_of_nodup_map hnodup hedges he hid
      simpa using htakes
    · intro htakes
      exact List.mem_map_of_mem (List.mem_filter.mpr ⟨he,by simpa using htakes⟩)
  rw [Bool.eq_iff_iff]
  simp only [decide_eq_true_eq,List.mem_append,htaken,Bool.and_eq_true,Bool.not_eq_true']
  cases entry.selects e <;> simp

/-- Each edge that is not matched yet is put in one wave. -/
theorem wavesFrom_perm (hnodup : (edges.map (·.edgeId)).Nodup) (order : List FleetUpgradeEntry) (matched : List E) :
    ((wavesFrom upgrade edges order matched).flatMap (·.2)).Perm ((edges.filter fun e => e.edgeId ∉ matched).map (·.edgeId)) := by
  induction order generalizing matched with
  | nil =>
    rw [wavesFrom]
    simp only [flatMap_chunked]
    exact List.Perm.refl _
  | cons entry rest ih =>
    have hrest := ih (matched ++ (entry.takes edges matched).map (·.edgeId))
    rw [filter_not_taken entry matched hnodup] at hrest
    have htakes : entry.takes edges matched = (edges.filter fun e => e.edgeId ∉ matched).filter entry.selects := by
      rw [FleetUpgradeEntry.takes,List.filter_filter]
      apply List.filter_congr
      intro e _
      rw [Bool.eq_iff_iff]
      simp [and_comm]
    rw [wavesFrom,takeWave_eq entry matched hnodup]
    simp only [List.flatMap_append,flatMap_chunked]
    refine (hrest.append_left _).trans ?_
    rw [htakes,← List.map_append]
    exact (List.filter_append_perm _ _).map _

theorem length_le_of_mem_wavesFrom (hmax : 0 < upgrade.maxConcurrent) {order : List FleetUpgradeEntry} {matched : List E}
    {w : String × List E} (hw : w ∈ wavesFrom upgrade edges order matched) : w.2.length ≤ upgrade.maxConcurrent := by
  have hchunked : ∀ (name : String) (wave : List E),
      w ∈ (if wave = [] then [] else (chunks upgrade.maxConcurrent wave).map (fun c => (name,c))) →
        w.2.length ≤ upgrade.maxConcurrent := by
    intro name wave hw
    split at hw
    · cases hw
    · obtain ⟨c,hc,rfl⟩ := List.mem_map.mp hw
      exact length_le_of_mem_chunks hmax hc
  induction order generalizing matched with
  | nil => exact hchunked _ _ hw
  | cons entry rest ih =>
    rw [wavesFrom] at hw
    rcases List.mem_append.mp hw with hw | hw
    · exact hchunked _ _ hw
    · exact ih hw

/-- Every registered edge is in exactly one wave. -/
theorem computeUpgradeWaves_perm (upgrade : FleetUpgradeConfig) (hnodup : (edges.map (·.edgeId)).Nodup) :
    ((computeUpgradeWaves upgrade edges).flatMap (·.2)).Perm (edges.map (·.edgeId)) := by
  have hperm : ((computeUpgradeWaves upgrade edges).flatMap (·.2)).Perm _ := wavesFrom_perm hnodup upgrade.order []
  simpa using hperm

theorem nodup_of_mem_computeUpgradeWaves (hnodup : (edges.map (·.edgeId)).Nodup) {w : String × List E}
    (hw : w ∈ computeUpgradeWaves upgrade edges) : w.2.Nodup := by
  have hall : ((computeUpgradeWaves upgrade edges).flatMap (·.2)).Nodup := (computeUpgradeWaves_perm upgrade hnodup).nodup_iff.mpr hnodup
  exact (List.nodup_flatten.mp hall).1 w.2 (List.mem_map_of_mem hw)

end Dwara.CpDp

/-! A rolling upgrade waiting for the acks of its waves: which of them it records, and when
its records are exact. -/

namespace Dwara.CpDp

/-- What a rollout reads of the controller: the registered edges, under distinct ids, the acks
with whether each was applied, and the current generation. -/
structure ControllerState (E : Type*) where
  edges : List (EdgeRegistration E)
  distinct : (edges.map (·.edgeId)).Nodup
  acks : E → ℕ → Option Bool
  current : Option ConfigGeneration

/-- What happens to the controller between two reads of a rollout. -/
inductive ControllerEvent (E : Type*) where
  | registerEdge (registration : EdgeRegistration E)
  | removeEdge (edge : E)
  | recordAck (edge : E) (generation : ℕ) (applied : Bool)
  | setGeneration (generation : ConfigGeneration)

variable {E : Type*} [DecidableEq E]

omit [DecidableEq E] in
theorem nodup_filter_edges {edges : List (EdgeRegistration E)} (h : (edges.map (·.edgeId)).Nodup) (p : EdgeRegistration E → Bool) :
    ((edges.filter p).map (·.edgeId)).Nodup := h.sublist (List.filter_sublist.map _)

theorem nodup_insertEdge {edges : List (EdgeRegistration E)} (h : (edges.map (·.edgeId)).Nodup) (r : EdgeRegistration E) :
    ((insertEdge edges r).map (·.edgeId)).Nodup := by
  rw [insertEdge,List.map_cons,List.nodup_cons]
  refine ⟨fun hmem => ?_,nodup_filter_edges h _⟩
  obtain ⟨r',hr',hid⟩ := List.mem_map.mp hmem
  exact absurd hid (by simpa using (List.mem_filter.mp hr').2)

namespace ControllerState

def apply (s : ControllerState E) : ControllerEvent E → ControllerState E
  | .registerEdge r => { s with edges := insertEdge s.edges r, distinct := nodup_insertEdge s.distinct r }
  | .removeEdge e => { s with edges := s.edges.filter (·.edgeId ≠ e), distinct := nodup_filter_edges s.distinct _ }
  | .recordAck e n applied => { s with acks := fun e' n' => if e' = e ∧ n' = n then some applied else s.acks e' n' }
  | .setGeneration g => { s with current := some g }

def after (s : ControllerState E) (events : List (ControllerEvent E)) : ControllerState E := events.foldl apply s

def unackedEdges (s : ControllerState E) (generation : ℕ) : List E :=
  (s.edges.map (·.edgeId)).filter fun e => (s.acks e generation).isNone

end ControllerState

/-- One pass of the polling loop: what happens before the unacked edges are read, and before
each target edge's ack is. -/
structure Poll (E : Type*) where
  before : List (ControllerEvent E)
  visits : List (List (ControllerEvent E))

/-- The polls of a wave that come before its deadline, and the one that finds it passed. -/
structure WaveTiming (E : Type*) where
  polls : List (Poll E)
  last : Poll E

/-- The two lists a wave keeps. -/
structure AckLists (E : Type*) where
  acked : List E
  failed : List E
  deriving DecidableEq, Repr

namespace AckLists

/-- An edge that is not among the unacked ones, with the ack found for it. Without one it has
disconnected, and is treated as acked. -/
def record (b : AckLists E) (e : E) (ack : Option Bool) : AckLists E :=
  if e ∈ b.acked then b
  else
    match ack with
    | some true => { b with acked := b.acked ++ [e] }
    | some false => { b with failed := b.failed ++ [e] }
    | none => { b with acked := b.acked ++ [e] }

def allDone (b : AckLists E) (target : List E) : Bool := target.all fun e => e ∈ b.acked ∨ e ∈ b.failed

/-- The edges still in neither list have timed out. -/
def markRemaining (b : AckLists E) (target : List E) : AckLists E :=
  target.foldl (fun b e => if e ∉ b.acked ∧ e ∉ b.failed then { b with failed := b.failed ++ [e] } else b) b

end AckLists

def visitEdges (generation : ℕ) (unacked : List E) : List E → List (List (ControllerEvent E)) → ControllerState E → AckLists E →
    ControllerState E × AckLists E
  | [], _, s, b => (s,b)
  | e :: rest, visits, s, b =>
    let s := s.after (visits.headD [])
    visitEdges generation unacked rest visits.tail s (if e ∈ unacked then b else b.record e (s.acks e generation))

def Poll.run (generation : ℕ) (target : List E) (p : Poll E) (s : ControllerState E) (b : AckLists E) :
    ControllerState E × AckLists E :=
  visitEdges generation ((s.after p.before).unackedEdges generation) target p.visits (s.after p.before) b

/-- The polling loop, which ends when every edge is in a list or at the deadline. -/
def awaitAcks (generation : ℕ) (target : List E) (last : Poll E) : List (Poll E) → ControllerState E → AckLists E →
    ControllerState E × AckLists E
  | [], s, b =>
    let r := last.run generation target s b
    (r.1,r.2.markRemaining target)
  | p :: rest, s, b =>
    let r := p.run generation target s b
    if r.2.allDone target then (r.1,r.2.markRemaining target) else awaitAcks generation target last rest r.1 r.2

structure WaveResult (E : Type*) where
  name : String
  targetEdges : List E
  acked : List E
  failed : List E
  success : Bool
  deriving DecidableEq, Repr

structure FleetUpgradeResult (E : Type*) where
  success : Bool
  waves : ℕ
  edgesUpgraded : ℕ
  edgesFailed : ℕ
  waveResults : List (WaveResult E)
  summary : String
  deriving DecidableEq, Repr

def runWave (generation : ℕ) (wave : String × List E) (timing : WaveTiming E) (s : ControllerState E) :
    ControllerState E × WaveResult E :=
  let r := awaitAcks generation wave.2 timing.last timing.polls s ⟨[],[]⟩
  (r.1,⟨wave.1,wave.2,r.2.acked,r.2.failed,r.2.failed = []⟩)

/-- The results of the waves that are processed, and whether the rollout was halted. -/
def runWaves (haltOnFailure : Bool) (generation : ℕ) : List (String × List E) → (ℕ → WaveTiming E) → ControllerState E →
    List (WaveResult E) × Bool
  | [], _, _ => ([],false)
  | wave :: rest, timing, s =>
    let r := runWave generation wave (timing 0) s
    if ! r.2.success && haltOnFailure then ([r.2],true)
    else
      let later := runWaves haltOnFailure generation rest (fun n => timing (n + 1)) r.1
      (r.2 :: later.1,later.2)

/-- A rolling upgrade. The events between its reads of the edges and of the generation come
with the timings of its waves. -/
def runFleetUpgrade (upgrade : FleetUpgradeConfig) (haltOnFailure : Bool) (s : ControllerState E)
    (between : List (ControllerEvent E)) (timing : ℕ → WaveTiming E) : FleetUpgradeResult E :=
  let waves := computeUpgradeWaves upgrade s.edges
  if waves = [] then ⟨true,0,0,0,[],"no edges registered; nothing to upgrade"⟩
  else
    match (s.after between).current with
    | none => ⟨false,0,0,0,[],"no config generation published; publish a config first"⟩
    | some g =>
      let r := runWaves haltOnFailure g.generation waves timing (s.after between)
      let upgraded := (r.1.map (·.acked.length)).sum
      let failed := (r.1.map (·.failed.length)).sum
      let success := ! r.2 && failed = 0
      ⟨success,r.1.length,upgraded,failed,r.1,
        "fleet upgrade " ++ (if success then "complete" else "incomplete") ++ ": " ++ toString r.1.length ++ " waves, " ++
          toString upgraded ++ " edges upgraded, " ++ toString failed ++ " failed"⟩

end Dwara.CpDp
