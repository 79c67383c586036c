import Dwara.Config.Gateway
import Dwara.Lib.System

/-! The generation the data plane serves: what a reload and a weight update store in its
place. Every load and every store is a step of its own. -/

namespace Dwara.Dataplane.Generations
open Dwara.Lib

structure AiCanaryVersion where
  version : String
  weight : ℕ
  provider : String
  providerModel : String

structure RouteTarget where
  provider : String
  providerModel : String
  version : Option String := none

/-- A model of `ai.models`; `evaluated` where a policy or an experiment serves it. -/
structure AiModel where
  target : RouteTarget
  failover : List RouteTarget := []
  canary : List AiCanaryVersion := []
  evaluated : Bool := false

/-- A published snapshot. -/
structure Snapshot where
  generation : ℕ
  gateway : Config.Gateway
  ai : Option (List (String × AiModel)) := none

inductive CompiledModel where
  | chain (targets : List RouteTarget)
  | canary (versions : List (ℕ × RouteTarget))
  | evaluated

/-- The upstreams with a handle and the services' compiled splits. -/
structure UpstreamRegistry where
  handles : List String
  splits : String → Option (List (String × ℕ))

structure AiRuntime where
  models : String → Option CompiledModel

/-- What one request is served from. -/
structure Generation where
  snapshot : Snapshot
  registry : UpstreamRegistry
  ai : Option AiRuntime

def compileModel (m : AiModel) : CompiledModel :=
  if m.evaluated then .evaluated
  else if m.canary.isEmpty then .chain (m.target :: m.failover)
  else .canary (m.canary.map fun v => (v.weight,⟨v.provider,v.providerModel,some v.version⟩))

/-- The registry of a snapshot; a split with a target that has no handle is skipped. The
handles of the generation before lend theirs, which no weight depends on. -/
def UpstreamRegistry.fromSnapshot (snapshot : Snapshot) : UpstreamRegistry where
  handles := snapshot.gateway.upstreams.map (·.name)
  splits name := do
    let service ← snapshot.gateway.services.find? (·.name = name)
    let targets ← service.split
    if targets.all fun t => t.upstream ∈ snapshot.gateway.upstreams.map (·.name) then
      some (targets.map fun t => (t.upstream,t.weight))
    else none

def AiRuntime.compile (aliases : List (String × AiModel)) : AiRuntime where
  models model := (aliases.lookup model).map compileModel

def Generation.compile (snapshot : Snapshot) : Generation where
  snapshot
  registry := .fromSnapshot snapshot
  ai := snapshot.ai.map AiRuntime.compile

def UpstreamRegistry.withRebuiltSplitFromPairs (registry : UpstreamRegistry) (service : String) (pairs : List (String × ℕ)) :
    Option UpstreamRegistry :=
  if pairs.all fun p => p.1 ∈ registry.handles then
    some { registry with splits := Function.update registry.splits service (some pairs) }
  else none

def AiRuntime.withRebuiltCanary (ai : AiRuntime) (model : String) (newWeights : List ℕ) : Option AiRuntime :=
  match ai.models model with
  | some (.canary versions) =>
    if newWeights.length ≠ versions.length then none
    else some { models := Function.update ai.models model (some (.canary (newWeights.zip (versions.map (·.2))))) }
  | _ => none

/-- The generation a service's split is stored with, `none` where the call answers
false. -/
def applyServiceSplitWeights (gen : Generation) (service : String) (newCanaryWeight : ℕ) : Option Generation :=
  match (gen.snapshot.gateway.services.find? (·.name = service)).bind (·.split) with
  | some [baseline,canary] =>
    let total := baseline.weight + canary.weight
    if total = 0 then none
    else
      let newCanaryWeight := min newCanaryWeight total
      (gen.registry.withRebuiltSplitFromPairs service
        [(baseline.upstream,total - newCanaryWeight),(canary.upstream,newCanaryWeight)]).map fun registry => { gen with registry }
  | _ => none

/-- The generation a model's canary is stored with. Its weights are 32-bit ones. -/
def applyAiCanaryWeights (gen : Generation) (model : String) (newCanaryWeight : ℕ) : Option Generation :=
  match gen.ai, (gen.snapshot.ai.bind (·.lookup model)).map (·.canary) with
  | some ai, some [baseline,canary] =>
    let total := baseline.weight + canary.weight
    if total = 0 then none
    else
      let newCanaryWeight := min newCanaryWeight total % 2 ^ 32
      let newBaselineWeight := (total - newCanaryWeight) % 2 ^ 32
      (ai.withRebuiltCanary model [newBaselineWeight,newCanaryWeight]).map fun ai => { gen with ai := some ai }
  | _, _ => none

/-- What a weight update is about. -/
inductive WeightKey where
  | service (name : String)
  | model (name : String)
  deriving DecidableEq

def Generation.applyWeights (gen : Generation) (newCanaryWeight : ℕ) : WeightKey → Option Generation
  | .service name => applyServiceSplitWeights gen name newCanaryWeight
  | .model name => applyAiCanaryWeights gen name newCanaryWeight

/-- The weights requests are split by. -/
def Generation.weights (gen : Generation) : WeightKey → Option (List ℕ)
  | .service name => (gen.registry.splits name).map (·.map (·.2))
  | .model name => match gen.ai.bind (·.models name) with
    | some (.canary versions) => some (versions.map (·.1))
    | _ => none

/-- A call under way: a reload with the snapshot it has loaded, a reload that has stored
it, a weight update with the generation it has loaded. -/
inductive Task where
  | refreshing (snapshot : Snapshot)
  | stored (generation : ℕ)
  | updating (loaded : Generation) (key : WeightKey) (newCanaryWeight : ℕ)
  | returned

/-- The state's snapshot, the data plane's generation and the calls under way; beside
them the highest generation served, the reloads that have returned, and for each
generation the weights last stored under it. -/
structure Serving where
  published : Snapshot
  current : Generation
  tasks : List Task := []
  highest : ℕ
  refreshed : List ℕ := []
  applied : ℕ → WeightKey → Option (List ℕ) := fun _ _ => none

inductive ServingEvent where
  | publish (gateway : Config.Gateway) (ai : Option (List (String × AiModel)))
  | loadSnapshot
  | loadCurrent (key : WeightKey) (newCanaryWeight : ℕ)
  | store (i : ℕ)
  | finish (i : ℕ)

namespace Serving

/-- The generation every request is served from, from here on. -/
def serve (s : Serving) (gen : Generation) : Serving :=
  { s with current := gen, highest := max s.highest gen.snapshot.generation }

/-- The store of a call. A reload brings the configured weights back; an update leaves
its own. -/
def store (s : Serving) (i : ℕ) : Task → Option Serving
  | .refreshing snapshot => some { s.serve (.compile snapshot) with
      tasks := s.tasks.set i (.stored snapshot.generation)
      applied := Function.update s.applied snapshot.generation fun _ => none }
  | .updating loaded key newCanaryWeight =>
    match loaded.applyWeights newCanaryWeight key with
    | none => some { s with tasks := s.tasks.set i .returned }
    | some gen => some { s.serve gen with
        tasks := s.tasks.set i .returned
        applied := Function.update s.applied gen.snapshot.generation
          (Function.update (s.applied gen.snapshot.generation) key (gen.weights key)) }
  | _ => none

def step (s : Serving) : ServingEvent → Option Serving
  | .publish gateway ai => some { s with published := ⟨s.published.generation + 1,gateway,ai⟩ }
  | .loadSnapshot => some { s with tasks := s.tasks ++ [.refreshing s.published] }
  | .loadCurrent key newCanaryWeight => some { s with tasks := s.tasks ++ [.updating s.current key newCanaryWeight] }
  | .store i => (s.tasks[i]?).bind (s.store i)
  | .finish i =>
    match s.tasks[i]? with
    | some (.stored generation) => some { s with tasks := s.tasks.set i .returned, refreshed := generation :: s.refreshed }
    | _ => none

def system (snapshot : Snapshot) : System Serving ServingEvent where
  init := { published := snapshot, current := .compile snapshot, highest := snapshot.generation }
  step := step

/-- The generation served is the highest yet and no older than any reload that has
returned, and carries the weights last stored under it. -/
structure Forward (s : Serving) : Prop where
  highest : s.highest ≤ s.current.snapshot.generation
  refreshed : ∀ g ∈ s.refreshed, g ≤ s.current.snapshot.generation
  applied : ∀ key weights, s.applied s.current.snapshot.generation key = some weights → s.current.weights key = some weights

/-- A store finds nothing in its way: it is not older than what is served, and an update
was made from a generation that already had every other update in it. -/
def Unraced (s : Serving) : ServingEvent → Prop
  | .store i => match s.tasks[i]? with
    | some (.refreshing snapshot) => s.current.snapshot.generation ≤ snapshot.generation
    | some (.updating loaded key newCanaryWeight) => (loaded.applyWeights newCanaryWeight key).isSome →
        s.current.snapshot.generation ≤ loaded.snapshot.generation ∧
        ∀ other ≠ key, ∀ weights, s.applied loaded.snapshot.generation other = some weights → loaded.weights other = some weights
    | _ => True
  | _ => True

end Serving

/-- A rebuilt generation is of the snapshot it was rebuilt from, has weights under its own
key and the loaded ones under every other. -/
theorem Generation.applyWeights_spec {gen gen' : Generation} {newCanaryWeight : ℕ} {key : WeightKey}
    (h : gen.applyWeights newCanaryWeight key = some gen') :
    gen'.snapshot = gen.snapshot ∧ ∀ other ≠ key, gen'.weights other = gen.weights other := by
  cases key with
  | service name =>
    simp only [applyWeights,applyServiceSplitWeights] at h
    split at h
    · split_ifs at h
      obtain ⟨registry,hreg,rfl⟩ := Option.map_eq_some_iff.mp h
      rw [UpstreamRegistry.withRebuiltSplitFromPairs] at hreg
      split_ifs at hreg
      obtain rfl := Option.some.inj hreg
      refine ⟨rfl,?_⟩
      intro other hother
      cases other with
      | service other =>
        have hne : other ≠ name := fun he => hother (by rw [he])
        simp [weights,Function.update_of_ne hne]
      | model other => rfl
    · cases h
  | model name =>
    simp only [applyWeights,applyAiCanaryWeights] at h
    split at h
    · split_ifs at h
      obtain ⟨runtime,hrun,rfl⟩ := Option.map_eq_some_iff.mp h
      rename_i ai _ _ _ hai _ _
      rw [AiRuntime.withRebuiltCanary] at hrun
      split at hrun
      · split_ifs at hrun
        obtain rfl := Option.some.inj hrun
        refine ⟨rfl,?_⟩
        intro other hother
        cases other with
        | service other => rfl
        | model other =>
          have hne : other ≠ name := fun he => hother (by rw [he])
          simp [weights,hai,Function.update_of_ne hne]
      · cases hrun
    · cases h

namespace Serving
variable {s s' : Serving} {event : ServingEvent}

/-- What the record of the reloads and of the highest generation says of each other. -/
structure Recorded (s : Serving) : Prop where
  current : s.current.snapshot.generation ≤ s.highest
  refreshed : ∀ g ∈ s.refreshed, g ≤ s.highest
  stored : ∀ g, .stored g ∈ s.tasks → g ≤ s.highest

theorem mem_set_stored {tasks : List Task} {i g : ℕ} {t : Task} (h : .stored g ∈ tasks.set i t) :
    .stored g ∈ tasks ∨ t = .stored g := by
  rcases List.mem_or_eq_of_mem_set h with h | h
  · exact .inl h
  · exact .inr h.symm

/-- A call that returns has stored nothing more. -/
theorem mem_set_returned {tasks : List Task} {i g : ℕ} (h : .stored g ∈ tasks.set i .returned) : .stored g ∈ tasks := by
  rcases mem_set_stored h with h | h
  · exact h
  · cases h

/-- The ways a step can go. -/
inductive Move (s : Serving) : ServingEvent → Serving → Prop
  | publish (gateway : Config.Gateway) (ai : Option (List (String × AiModel))) :
      Move s (.publish gateway ai) { s with published := ⟨s.published.generation + 1,gateway,ai⟩ }
  | loadSnapshot : Move s .loadSnapshot { s with tasks := s.tasks ++ [.refreshing s.published] }
  | loadCurrent (key : WeightKey) (newCanaryWeight : ℕ) :
      Move s (.loadCurrent key newCanaryWeight) { s with tasks := s.tasks ++ [.updating s.current key newCanaryWeight] }
  | refresh {i : ℕ} {snapshot : Snapshot} (ht : s.tasks[i]? = some (.refreshing snapshot)) :
      Move s (.store i) { s.serve (.compile snapshot) with
        tasks := s.tasks.set i (.stored snapshot.generation)
        applied := Function.update s.applied snapshot.generation fun _ => none }
  | refuse {i : ℕ} {loaded : Generation} {key : WeightKey} {newCanaryWeight : ℕ}
      (ht : s.tasks[i]? = some (.updating loaded key newCanaryWeight)) (hnone : loaded.applyWeights newCanaryWeight key = none) :
      Move s (.store i) { s with tasks := s.tasks.set i .returned }
  | update {i : ℕ} {loaded gen : Generation} {key : WeightKey} {newCanaryWeight : ℕ}
      (ht : s.tasks[i]? = some (.updating loaded key newCanaryWeight)) (hgen : loaded.applyWeights newCanaryWeight key = some gen) :
      Move s (.store i) { s.serve gen with
        tasks := s.tasks.set i .returned
        applied := Function.update s.applied gen.snapshot.generation
          (Function.update (s.applied gen.snapshot.generation) key (gen.weights key)) }
  | finish {i g : ℕ} (ht : s.tasks[i]? = some (.stored g)) :
      Move s (.finish i) { s with tasks := s.tasks.set i .returned, refreshed := g :: s.refreshed }

theorem Move.of_step (h : step s event = some s') : Move s event s' := by
  cases event with
  | publish gateway ai =>
    obtain rfl := Option.some.inj h
    exact .publish gateway ai
  | loadSnapshot =>
    obtain rfl := Option.some.inj h
    exact .loadSnapshot
  | loadCurrent key newCanaryWeight =>
    obtain rfl := Option.some.inj h
    exact .loadCurrent key newCanaryWeight
  | store i =>
    obtain ⟨task,ht,h⟩ := Option.bind_eq_some_iff.mp h
    cases task with
    | refreshing snapshot =>
      obtain rfl := Option.some.inj h
      exact .refresh ht
    | stored g => cases h
    | updating loaded key newCanaryWeight =>
      rw [store] at h
      split at h
      · rename_i hnone
        obtain rfl := Option.some.inj h
        exact .refuse ht hnone
      · rename_i gen hgen
        obtain rfl := Option.some.inj h
        exact .update ht hgen
    | returned => cases h
  | finish i =>
    rw [step] at h
    split at h
    · rename_i g ht
      obtain rfl := Option.some.inj h
      exact .finish ht
    · cases h

theorem recorded_step (hs : s.Recorded) (h : step s event = some s') : s'.Recorded := by
  obtain ⟨hcurrent,hrefreshed,hstored⟩ := hs
  cases Move.of_step h with
  | publish gateway ai => exact ⟨hcurrent,hrefreshed,hstored⟩
  | loadSnapshot => exact ⟨hcurrent,hrefreshed,fun g hg => hstored g (by simpa using hg)⟩
  | loadCurrent key newCanaryWeight => exact ⟨hcurrent,hrefreshed,fun g hg => hstored g (by simpa using hg)⟩
  | @refresh i snapshot ht =>
    refine ⟨le_max_right _ _,fun g hg => le_max_of_le_left (hrefreshed g hg),?_⟩
    intro g hg
    rcases mem_set_stored hg with hg | hg
    · exact le_max_of_le_left (hstored g hg)
    · obtain rfl : snapshot.generation = g := Task.stored.inj hg
      exact le_max_right _ _
  | refuse ht hnone => exact ⟨hcurrent,hrefreshed,fun g hg => hstored g (mem_set_returned hg)⟩
  | update ht hgen =>
    refine ⟨le_max_right _ _,fun g hg => le_max_of_le_left (hrefreshed g hg),?_⟩
    intro g hg
    exact le_max_of_le_left (hstored g (mem_set_returned hg))
  | finish ht =>
    refine ⟨hcurrent,?_,fun g hg => hstored g (mem_set_returned hg)⟩
    intro g hg
    rcases List.mem_cons.mp hg with rfl | hg
    · exact hstored g (List.mem_of_getElem? ht)
    · exact hrefreshed g hg

/-- One step keeps the generation going forward just when it is an unraced one. -/
theorem forward_step_iff (hrec : s.Recorded) (hs : s.Forward) (h : step s event = some s') : s'.Forward ↔ s.Unraced event := by
  have hhighest : s.current.snapshot.generation = s.highest := le_antisymm hrec.current hs.highest
  cases Move.of_step h with
  | publish gateway ai => exact iff_of_true ⟨hs.highest,hs.refreshed,hs.applied⟩ trivial
  | loadSnapshot => exact iff_of_true ⟨hs.highest,hs.refreshed,hs.applied⟩ trivial
  | loadCurrent key newCanaryWeight => exact iff_of_true ⟨hs.highest,hs.refreshed,hs.applied⟩ trivial
  | @refresh i snapshot ht =>
    simp only [Unraced,ht]
    constructor
    · intro hf
      rw [hhighest]
      exact (le_max_left _ _).trans hf.highest
    · intro hle
      refine ⟨?_,?_,?_⟩
      · exact max_le (hhighest ▸ hle) le_rfl
      · exact fun g hg => (hs.refreshed g hg).trans hle
      · intro key weights hw
        simp [Generation.compile,serve] at hw
  | refuse ht hnone =>
    simp only [Unraced,ht]
    exact iff_of_true ⟨hs.highest,hs.refreshed,hs.applied⟩ (fun hsome => by simp [hnone] at hsome)
  | @update i loaded gen key newCanaryWeight ht hgen =>
    simp only [Unraced,ht,hgen,Option.isSome_some,forall_const]
    obtain ⟨hsnap,hother⟩ := Generation.applyWeights_spec hgen
    constructor
    · rintro ⟨hhigh,-,happlied⟩
      simp only [serve,hsnap,Function.update_self] at hhigh happlied
      refine ⟨?_,?_⟩
      · rw [hhighest]
        exact (le_max_left _ _).trans hhigh
      · intro other hne weights hw
        rw [← hother other hne]
        exact happlied other weights (by rwa [Function.update_of_ne hne])
    · rintro ⟨hle,hloaded⟩
      refine ⟨?_,?_,?_⟩
      · simp only [serve,hsnap]
        exact max_le (hhighest ▸ hle) le_rfl
      · simp only [serve,hsnap]
        exact fun g hg => (hs.refreshed g hg).trans hle
      · simp only [serve,hsnap,Function.update_self]
        intro other weights hw
        by_cases hne : other = key
        · subst hne
          rwa [Function.update_self] at hw
        · rw [Function.update_of_ne hne] at hw
          rw [hother other hne]
          exact hloaded other hne weights hw
  | @finish i g ht =>
    have hg : g ≤ s.current.snapshot.generation := by
      rw [hhighest]
      exact hrec.stored g (List.mem_of_getElem? ht)
    refine iff_of_true ⟨hs.highest,?_,hs.applied⟩ trivial
    intro g' hg'
    rcases List.mem_cons.mp hg' with rfl | hg'
    · exact hg
    · exact hs.refreshed g' hg'

theorem recorded_init (snapshot : Snapshot) : (system snapshot).init.Recorded :=
  ⟨le_rfl,fun _ hg => absurd hg List.not_mem_nil,fun _ hg => absurd hg List.not_mem_nil⟩

theorem forward_init (snapshot : Snapshot) : (system snapshot).init.Forward :=
  ⟨le_rfl,fun _ hg => absurd hg List.not_mem_nil,fun _ _ hw => by cases hw⟩

/-- Over any interleaving of reloads and weight updates, the generation served only goes
forward, stays with the reloads that have returned and keeps every update made under it,
in exactly the runs whose stores are unraced. -/
theorem forward_iff_unraced (snapshot : Snapshot) (events : List ServingEvent) (s : Serving)
    (hr : (system snapshot).run events = some s) :
    (∀ pre post r, events = pre ++ post → (system snapshot).run pre = some r → r.Forward) ↔ (system snapshot).Along Unraced events := by
  have hrec : ∀ {pre r}, (system snapshot).run pre = some r → r.Recorded := fun hpre =>
    System.run_inv Recorded (recorded_init snapshot) (fun _ _ _ hs h => recorded_step hs h) hpre
  have hboth := System.forall_prefix_iff_along (fun r => r.Recorded ∧ r.Forward)
    ⟨recorded_init snapshot,forward_init snapshot⟩
    (fun t event t' ht h => by
      rw [and_iff_right (recorded_step ht.1 h)]
      exact forward_step_iff ht.1 ht.2 h) hr
  rw [← hboth]
  constructor
  · intro hall pre post r he hpre
    exact ⟨hrec hpre,hall pre post r he hpre⟩
  · intro hall pre post r he hpre
    exact (hall pre post r he hpre).2

section Splits

/-- A service and a model, each with a tenth of its traffic on the canary. -/
private def gateway : Config.Gateway where
  routes := []
  services := [⟨"web",none,some [⟨"stable",90⟩,⟨"next",10⟩],[],none⟩]
  upstreams := [⟨"stable",.roundRobin,[]⟩,⟨"next",.roundRobin,[]⟩]
  consumers := []
  policies := []
  globalPolicies := []
  authorization := none
  trustedProxies := []

private def models : List (String × AiModel) :=
  [("chat",{ target := ⟨"openai","gpt-4o",none⟩, canary := [⟨"v1",90,"openai","gpt-4o"⟩,⟨"v2",10,"openai","gpt-4.1"⟩] })]

private def first : Snapshot := ⟨1,gateway,some models⟩

private def updateThenReload : List ServingEvent :=
  [.loadCurrent (.service "web") 50,.store 0,.publish gateway (some models),.loadSnapshot,.store 1,.finish 1]

/-- A weight update that ends before the reload begins is gone with it, and the generation
goes up. -/
theorem forward_update_then_reload :
    ∃ s, (system first).run updateThenReload = some s ∧ s.current.snapshot.generation = 2 ∧ s.Forward := by
  have hunraced : (system first).Along Unraced updateThenReload := by
    refine System.along_of_alongFrom ⟨trivial,?_,trivial,trivial,?_,trivial,trivial⟩
    · exact fun _ => ⟨le_rfl,fun _ _ _ hw => by cases hw⟩
    · exact Nat.le_succ 1
  have hrun : ∃ s, (system first).run updateThenReload = some s ∧ s.current.snapshot.generation = 2 := ⟨_,rfl,rfl⟩
  obtain ⟨s,hs,hgen⟩ := hrun
  exact ⟨s,hs,hgen,(forward_iff_unraced first _ s hs).mpr hunraced _ [] s (List.append_nil _).symm hs⟩

/-- An update that overlaps a reload restores the old generation after the reload has
returned; of two updates from one generation, the second takes the first back. -/
theorem stores_race :
    (∃ s, (system first).run [.loadCurrent (.service "web") 50,.publish gateway (some models),.loadSnapshot,.store 1,.finish 1,
        .store 0] = some s ∧ s.refreshed = [2] ∧ s.current.snapshot.generation = 1) ∧
    (∃ s, (system first).run [.loadCurrent (.service "web") 50,.loadCurrent (.model "chat") 50,.store 0,.store 1] = some s ∧
      s.current.snapshot.generation = 1 ∧ s.applied 1 (.service "web") = some [50,50] ∧
      s.current.weights (.service "web") = some [90,10]) := by
  exact ⟨⟨_,rfl,rfl,rfl⟩,⟨_,rfl,rfl,rfl,rfl⟩⟩

end Splits

end Serving
end Dwara.Dataplane.Generations
