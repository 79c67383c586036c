import Dwara.Lib.System
import Mathlib.Data.Fintype.Basic
import Mathlib.Logic.Function.Basic

/-! Instances that converge on each other's configurations through one shared backend.
Every snapshot read, backend exchange and publish is a step of its own. -/

namespace Dwara.Dataplane
open Dwara.Lib

/-- What an instance does to a configuration before it serves it. `validate` also looks
at files of its own host. Normalized text parses back to a gateway of the same text. -/
structure Pipeline (I Gateway Yaml Hash : Type*) where
  validate : I → Gateway → Bool
  gatewayToYaml : Gateway → Option Yaml
  parseGateway : Yaml → Option Gateway
  normalizedHash : Yaml → Hash
  round_trip : ∀ g y, gatewayToYaml g = some y → ∃ g', parseGateway y = some g' ∧ gatewayToYaml g' = some y

/-- A published snapshot, with the normalized text of its gateway. -/
structure Snapshot {I Gateway Yaml Hash : Type*} (P : Pipeline I Gateway Yaml Hash) where
  generation : ℕ
  gateway : Gateway
  yaml : Yaml
  normalized : P.gatewayToYaml gateway = some yaml

structure InstanceGeneration (I Hash : Type*) where
  instanceId : I
  generation : ℕ
  configHash : Hash
  deriving DecidableEq, Repr

section Pipeline
variable {I Gateway Yaml Hash : Type*} {P : Pipeline I Gateway Yaml Hash}

def Snapshot.contentHash (s : Snapshot P) : Hash := P.normalizedHash s.yaml

/-- What `i` publishes to the backend while it serves `s`. -/
def Snapshot.record (s : Snapshot P) (i : I) : InstanceGeneration I Hash := ⟨i,s.generation,s.contentHash⟩

/-- The normalized text of a gateway that compiles on `i`. -/
def Pipeline.compile (P : Pipeline I Gateway Yaml Hash) (i : I) (g : Gateway) : Option { y : Yaml // P.gatewayToYaml g = some y } :=
  if P.validate i g then (P.gatewayToYaml g).attach else none

/-- The snapshot `i` serves after it published `g`, or `none` and the old one stays. -/
def Snapshot.compileAndPublish (s : Snapshot P) (i : I) (g : Gateway) : Option (Snapshot P) :=
  (P.compile i g).map fun y => ⟨s.generation + 1,g,y.1,y.2⟩

theorem compile_of_yaml {i : I} {g : Gateway} {y : Yaml} (hy : P.gatewayToYaml g = some y) (hv : P.validate i g = true) :
    P.compile i g = some ⟨y,hy⟩ := by
  rw [Pipeline.compile,if_pos hv]
  exact Option.attach_eq_some_iff.mpr hy

theorem compileAndPublish_generation {s s' : Snapshot P} {i : I} {g : Gateway} (h : s.compileAndPublish i g = some s') :
    s'.generation = s.generation + 1 ∧ s'.gateway = g := by
  obtain ⟨y,-,rfl⟩ := Option.map_eq_some_iff.mp h
  exact ⟨rfl,rfl⟩

theorem adopted_generation {s s' : Snapshot P} {i : I} {y : Yaml} (hs : (P.parseGateway y).bind (s.compileAndPublish i) = some s') :
    s'.generation = s.generation + 1 := by
  obtain ⟨g,-,hg⟩ := Option.bind_eq_some_iff.mp hs
  exact (compileAndPublish_generation hg).1

/-- The last element of highest key. -/
def maxByKey {α : Type*} (key : α → ℕ) : List α → Option α
  | [] => none
  | x :: xs =>
    match maxByKey key xs with
    | none => some x
    | some y => if key x ≤ key y then some y else some x

theorem maxByKey_mem {α : Type*} {key : α → ℕ} {xs : List α} {y : α} (h : maxByKey key xs = some y) : y ∈ xs := by
  induction xs generalizing y with
  | nil => cases h
  | cons x xs ih =>
    rw [maxByKey] at h
    split at h
    · cases h
      exact List.mem_cons_self
    · rename_i z hz
      split at h
      · cases h
        exact List.mem_cons_of_mem _ (ih hz)
      · cases h
        exact List.mem_cons_self

theorem maxByKey_concat {α : Type*} {key : α → ℕ} {xs : List α} {y : α} (h : ∀ x ∈ xs, key x ≤ key y) :
    maxByKey key (xs ++ [y]) = some y := by
  induction xs with
  | nil => rfl
  | cons x xs ih =>
    rw [List.cons_append,maxByKey,ih fun z hz => h z (List.mem_cons_of_mem _ hz)]
    exact if_pos (h x List.mem_cons_self)

/-- The record `i` converges to when it serves `s` and the backend lists `instances`. -/
def convergeTarget [DecidableEq I] [DecidableEq Hash] (s : Snapshot P) (i : I) (instances : List (InstanceGeneration I Hash)) :
    Option (InstanceGeneration I Hash) :=
  (maxByKey (·.generation) (instances.filter (·.instanceId ≠ i))).filter
    fun r => s.generation < r.generation ∧ r.configHash ≠ s.contentHash

theorem convergeTarget_mem [DecidableEq I] [DecidableEq Hash] {s : Snapshot P} {i : I} {instances : List (InstanceGeneration I Hash)}
    {r : InstanceGeneration I Hash} (h : convergeTarget s i instances = some r) :
    r ∈ instances ∧ s.generation < r.generation ∧ r.configHash ≠ s.contentHash := by
  obtain ⟨hr,hkeep⟩ := Option.filter_eq_some_iff.mp h
  exact ⟨List.mem_of_mem_filter (maxByKey_mem hr),of_decide_eq_true hkeep⟩

end Pipeline

/-- What a task of an instance does next: the reload path publishes once, a poll
publishes, watches and converges. -/
inductive PeerTask {I Gateway Yaml Hash : Type*} (P : Pipeline I Gateway Yaml Hash) where
  | idle
  | publishing (i : I) (snapshot : Snapshot P) (polling : Bool)
  | watching (i : I)
  | converging (i : I) (instances : List (InstanceGeneration I Hash))
  | loading (i : I) (target : InstanceGeneration I Hash)
  | loaded (i : I) (target : InstanceGeneration I Hash) (yaml : Yaml)
  | converged (i : I)

/-- The snapshots the instances serve, the backend's records and bodies, and the tasks. -/
structure PeerState {I Gateway Yaml Hash : Type*} (P : Pipeline I Gateway Yaml Hash) where
  live : I → Snapshot P
  instances : I → Option (InstanceGeneration I Hash)
  configs : ℕ → Option Yaml
  tasks : ℕ → PeerTask P

/-- `order` is the order in which the backend's hash lists the instances. -/
inductive PeerLabel (I Gateway : Type*) where
  | reload (i : I) (gateway : Gateway)
  | publish (t : ℕ) (i : I)
  | poll (t : ℕ) (i : I)
  | call (t : ℕ) (order : List I)
  | fail (t : ℕ)
  | expireInstances
  | expireConfig (generation : ℕ)

/-- A step of a poll, and not of a local publish. -/
def PeerLabel.Polls {I Gateway : Type*} : PeerLabel I Gateway → Prop
  | .poll _ _ | .call _ _ => True
  | .reload _ _ | .publish _ _ | .fail _ | .expireInstances | .expireConfig _ => False

namespace PeerState
variable {I Gateway Yaml Hash : Type*} {P : Pipeline I Gateway Yaml Hash}

def goto (s : PeerState P) (t : ℕ) (next : PeerTask P) : PeerState P := { s with tasks := Function.update s.tasks t next }

@[simp] theorem goto_live (s : PeerState P) (t : ℕ) (next : PeerTask P) : (s.goto t next).live = s.live := rfl

@[simp] theorem goto_instances (s : PeerState P) (t : ℕ) (next : PeerTask P) : (s.goto t next).instances = s.instances := rfl

@[simp] theorem goto_configs (s : PeerState P) (t : ℕ) (next : PeerTask P) : (s.goto t next).configs = s.configs := rfl

@[simp] theorem goto_tasks (s : PeerState P) (t : ℕ) (next : PeerTask P) : (s.goto t next).tasks = Function.update s.tasks t next := rfl

@[simp] theorem goto_tasks_self (s : PeerState P) (t : ℕ) (next : PeerTask P) : (s.goto t next).tasks t = next := by
  rw [goto_tasks,Function.update_self]

theorem goto_goto (s : PeerState P) (t : ℕ) (a b : PeerTask P) : (s.goto t a).goto t b = s.goto t b := by
  rw [goto,goto_tasks,Function.update_idem]
  rfl

def expireConfig (s : PeerState P) (n : ℕ) : PeerState P := { s with configs := Function.update s.configs n none }

theorem configs_of_expireConfig {s : PeerState P} {n m : ℕ} {y : Yaml} (h : (s.expireConfig n).configs m = some y) :
    s.configs m = some y := by
  rw [expireConfig] at h
  simp only [Function.update_apply] at h
  split at h
  · cases h
  · exact h

def watchGenerations (s : PeerState P) (order : List I) : List (InstanceGeneration I Hash) := order.filterMap s.instances

theorem mem_watchGenerations {s : PeerState P} {order : List I} {r : InstanceGeneration I Hash}
    (h : r ∈ s.watchGenerations order) : ∃ k, s.instances k = some r := by
  obtain ⟨k,-,hk⟩ := List.mem_filterMap.mp h
  exact ⟨k,hk⟩

variable [DecidableEq I]

def serve (s : PeerState P) (i : I) (snapshot : Snapshot P) : PeerState P := { s with live := Function.update s.live i snapshot }

@[simp] theorem serve_live (s : PeerState P) (i : I) (snapshot : Snapshot P) :
    (s.serve i snapshot).live = Function.update s.live i snapshot := rfl

/-- The record and the body go to the backend in one transaction. -/
def publishGeneration (s : PeerState P) (i : I) (snapshot : Snapshot P) : PeerState P :=
  { s with
    instances := Function.update s.instances i (some (snapshot.record i))
    configs := Function.update s.configs snapshot.generation (some snapshot.yaml) }

@[simp] theorem publishGeneration_instances (s : PeerState P) (i : I) (snapshot : Snapshot P) :
    (s.publishGeneration i snapshot).instances = Function.update s.instances i (some (snapshot.record i)) := rfl

@[simp] theorem publishGeneration_configs (s : PeerState P) (i : I) (snapshot : Snapshot P) :
    (s.publishGeneration i snapshot).configs = Function.update s.configs snapshot.generation (some snapshot.yaml) := rfl

@[simp] theorem publishGeneration_live (s : PeerState P) (i : I) (snapshot : Snapshot P) :
    (s.publishGeneration i snapshot).live = s.live := rfl

@[simp] theorem publishGeneration_tasks (s : PeerState P) (i : I) (snapshot : Snapshot P) :
    (s.publishGeneration i snapshot).tasks = s.tasks := rfl

variable [Fintype I] [DecidableEq Hash]

/-- The next step of task `t`. -/
def callStep (s : PeerState P) (t : ℕ) (order : List I) : Option (PeerState P) :=
  match s.tasks t with
  | .idle => none
  | .publishing i snapshot polling => some ((s.publishGeneration i snapshot).goto t (if polling then .watching i else .idle))
  | .watching i =>
    if order.Nodup ∧ ∀ k, k ∈ order then some (s.goto t (.converging i (s.watchGenerations order))) else none
  | .converging i instances =>
    match convergeTarget (s.live i) i instances with
    | none => some (s.goto t .idle)
    | some target => some (s.goto t (.loading i target))
  | .loading i target =>
    match s.configs target.generation with
    | none => some (s.goto t .idle)
    | some yaml => some (s.goto t (.loaded i target yaml))
  | .loaded i _ yaml =>
    match (P.parseGateway yaml).bind ((s.live i).compileAndPublish i) with
    | none => some (s.goto t .idle)
    | some snapshot => some ((s.serve i snapshot).goto t (.converged i))
  | .converged i => some (s.goto t (.publishing i (s.live i) false))

/-- An exchange with the backend fails: a publish goes on, a poll ends. -/
def failStep (s : PeerState P) (t : ℕ) : Option (PeerState P) :=
  match s.tasks t with
  | .publishing i _ polling => some (s.goto t (if polling then .watching i else .idle))
  | .watching _ | .loading _ _ => some (s.goto t .idle)
  | .idle | .converging _ _ | .loaded _ _ _ | .converged _ => none

def step (s : PeerState P) : PeerLabel I Gateway → Option (PeerState P)
  | .reload i g => some (match (s.live i).compileAndPublish i g with | some snapshot => s.serve i snapshot | none => s)
  | .publish t i => match s.tasks t with | .idle => some (s.goto t (.publishing i (s.live i) false)) | _ => none
  | .poll t i => match s.tasks t with | .idle => some (s.goto t (.publishing i (s.live i) true)) | _ => none
  | .call t order => s.callStep t order
  | .fail t => s.failStep t
  | .expireInstances => some { s with instances := fun _ => none }
  | .expireConfig n => some (s.expireConfig n)

end PeerState

/-- Every instance serves its startup configuration as generation 1. -/
def PeerState.init {I Gateway Yaml Hash : Type*} {P : Pipeline I Gateway Yaml Hash} (startup : I → Snapshot P) : PeerState P :=
  ⟨fun i => { startup i with generation := 1 },fun _ => none,fun _ => none,fun _ => .idle⟩

/-- The instances from state `s` on. -/
def peersFrom {I Gateway Yaml Hash : Type*} [Fintype I] [DecidableEq I] [DecidableEq Hash] {P : Pipeline I Gateway Yaml Hash}
    (s : PeerState P) : System (PeerState P) (PeerLabel I Gateway) :=
  ⟨s,PeerState.step⟩

def peers {I Gateway Yaml Hash : Type*} [Fintype I] [DecidableEq I] [DecidableEq Hash] (P : Pipeline I Gateway Yaml Hash)
    (startup : I → Snapshot P) : System (PeerState P) (PeerLabel I Gateway) :=
  peersFrom (PeerState.init startup)

end Dwara.Dataplane
