import Dwara.Dataplane.Generations
import Dwara.Dataplane.Split
import Dwara.Lib.Keyed
import Mathlib.Data.Rat.Defs

/-! The automatic canary: outcomes are recorded for the two sides of a split, and a loop moves
its weights a step at a time. Between two publishes. -/

namespace Dwara.Dataplane.Canary
open Dwara.Lib Generations

def maxLatencySamples : ℕ := 1000

/-- What was observed of one side. -/
structure CanarySide where
  requests : ℕ := 0
  errors : ℕ := 0
  latencySamples : List ℚ := []

def CanarySide.record (side : CanarySide) (status : ℕ) (latencyMs : ℚ) : CanarySide where
  requests := side.requests + 1
  errors := if 500 ≤ status then side.errors + 1 else side.errors
  latencySamples := (if maxLatencySamples ≤ side.latencySamples.length then side.latencySamples.tail else side.latencySamples) ++ [latencyMs]

/-- `canary_analysis`. Its two rules are given by what their thresholds, and twice the second,
say of a side: these compare floating-point numbers. -/
structure CanaryAnalysis where
  enabled : Bool
  step : ℕ
  minRequests : ℕ
  cooldownSeconds : ℕ
  promote : CanarySide → Bool
  rollback : CanarySide → Bool
  severe : CanarySide → Bool

/-- The two sides of a split, the weight of the second and when it was last changed. -/
structure CanaryGroup where
  key : WeightKey
  config : CanaryAnalysis
  baseline : CanarySide := {}
  canary : CanarySide := {}
  lastAdjustment : ℕ := 0
  currentCanaryWeight : ℕ
  totalWeight : ℕ

inductive Reason where
  | severeRegression
  | rollback
  | promote
  deriving DecidableEq

/-- A weight to be set, as it was found at some time. -/
structure CanaryAction where
  key : WeightKey
  newCanaryWeight : ℕ
  reason : Reason
  evaluated : ℕ

/-- The name a group is kept under, which a service and a model may share. -/
def name : WeightKey → String
  | .service name => name
  | .model name => name

namespace CanaryGroup

def act (g : CanaryGroup) (now newWeight : ℕ) (reason : Reason) : Option CanaryAction :=
  if newWeight = g.currentCanaryWeight then none else some ⟨g.key,newWeight,reason,now⟩

def evaluate (g : CanaryGroup) (now : ℕ) : Option CanaryAction :=
  if 0 < g.lastAdjustment ∧ now - g.lastAdjustment < g.config.cooldownSeconds then none
  else if g.baseline.requests + g.canary.requests < g.config.minRequests then none
  else if g.config.severe g.canary then g.act now 0 .severeRegression
  else if g.config.rollback g.canary then g.act now (g.currentCanaryWeight - g.config.step) .rollback
  else if g.config.promote g.canary then g.act now (min (g.currentCanaryWeight + g.config.step) g.totalWeight) .promote
  else none

end CanaryGroup

abbrev Groups := String → Option CanaryGroup

/-- Only a pair with a weight at all is a canary's. -/
def compileGroup (key : WeightKey) (analysis : Option CanaryAnalysis) (weights : List ℕ) : Option CanaryGroup :=
  match analysis, weights with
  | some config, [baseline,canary] =>
    if config.enabled ∧ baseline + canary ≠ 0 then
      some { key, config, currentCanaryWeight := canary, totalWeight := baseline + canary }
    else none
  | _, _ => none

def insertGroups (groups : Groups) (compiled : List (String × Option CanaryGroup)) : Groups :=
  compiled.foldl (fun groups p => match p.2 with
    | some g => Function.update groups p.1 (some g)
    | none => groups) groups

/-- The groups of a snapshot, the services' before the models'. -/
def compile (snapshot : Generations.Snapshot) (analyses : WeightKey → Option CanaryAnalysis) : Groups :=
  let services := snapshot.gateway.services.map fun s =>
    (s.name,s.split.bind fun targets => compileGroup (.service s.name) (analyses (.service s.name)) (targets.map (·.weight)))
  let models := (snapshot.ai.getD []).map fun p =>
    (p.1,compileGroup (.model p.1) (analyses (.model p.1)) (p.2.canary.map (·.weight)))
  insertGroups (insertGroups (fun _ => none) services) models

/-- An action that was applied, and when. -/
structure Adjustment extends CanaryAction where
  noted : ℕ

/-- The generation served, the controller, and of the loop the groups it has yet to evaluate in
this round and the actions it has yet to apply; beside them all that was applied. -/
structure Steering where
  gen : Generation
  groups : Groups
  toEvaluate : List String := []
  actions : List CanaryAction := []
  log : List Adjustment := []

inductive SteeringEvent where
  | recordOutcome (group : String) (isCanary : Bool) (status : ℕ) (latencyMs : ℚ)
  | tick (order : List String)
  | evaluateNext (now : ℕ)
  | applyNext (now : ℕ)

namespace Steering

def recordOutcome (groups : Groups) (group : String) (isCanary : Bool) (status : ℕ) (latencyMs : ℚ) : Groups :=
  Function.update groups group ((groups group).map fun g =>
    if isCanary then { g with canary := g.canary.record status latencyMs } else { g with baseline := g.baseline.record status latencyMs })

def noteApplied (groups : Groups) (a : CanaryAction) (now : ℕ) : Groups :=
  Function.update groups (name a.key) ((groups (name a.key)).map fun g =>
    { g with lastAdjustment := now, currentCanaryWeight := a.newCanaryWeight })

/-- A round walks the groups in an order of its own. -/
def step (s : Steering) : SteeringEvent → Option Steering
  | .recordOutcome group isCanary status latencyMs => some { s with groups := recordOutcome s.groups group isCanary status latencyMs }
  | .tick order => if s.toEvaluate = [] ∧ s.actions = [] ∧ order.Nodup then some { s with toEvaluate := order } else none
  | .evaluateNext now =>
    match s.toEvaluate with
    | group :: rest => some { s with
        toEvaluate := rest
        actions := s.actions ++ ((s.groups group).bind (·.evaluate now)).toList }
    | [] => none
  | .applyNext now =>
    match s.toEvaluate, s.actions with
    | [], a :: rest =>
      match s.gen.applyWeights a.newCanaryWeight a.key with
      | some gen => some { s with
          gen, actions := rest
          groups := noteApplied s.groups a now
          log := s.log ++ [⟨a,now⟩] }
      | none => some { s with actions := rest }
    | _, _ => none

def system (snapshot : Generations.Snapshot) (analyses : WeightKey → Option CanaryAnalysis) : System Steering SteeringEvent where
  init := { gen := .compile snapshot, groups := compile snapshot analyses }
  step := step

end Steering

section Course

/-- What a reason makes of a weight. -/
def Reason.weight (step total weight : ℕ) : Reason → ℕ
  | .severeRegression => 0
  | .rollback => weight - step
  | .promote => min (weight + step) total

/-- An action that a group at some weight, last adjusted at some time, may take. -/
structure Permitted (config : CanaryAnalysis) (total : ℕ) (course : ℕ × ℕ) (a : CanaryAction) : Prop where
  rested : course.2 = 0 ∨ config.cooldownSeconds ≤ a.evaluated - course.2
  weight : a.newCanaryWeight = a.reason.weight config.step total course.1
  moves : a.newCanaryWeight ≠ course.1

/-- A weight and the time it was set, after some adjustments. -/
inductive Course (config : CanaryAnalysis) (total : ℕ) (start : ℕ) : List Adjustment → ℕ × ℕ → Prop
  | start : Course config total start [] (start,0)
  | adjust {log : List Adjustment} {course : ℕ × ℕ} {a : Adjustment} (h : Course config total start log course)
      (ha : Permitted config total course a.toCanaryAction) : Course config total start (log ++ [a]) (a.newCanaryWeight,a.noted)

variable {config : CanaryAnalysis} {total start : ℕ} {log : List Adjustment} {course : ℕ × ℕ} {a : CanaryAction} {g : CanaryGroup} {now : ℕ}

theorem Permitted.le_total (h : Permitted config total course a) (hle : course.1 ≤ total) : a.newCanaryWeight ≤ total := by
  rw [h.weight]
  cases a.reason with
  | severeRegression => exact Nat.zero_le _
  | rollback => exact (Nat.sub_le _ _).trans hle
  | promote => exact Nat.min_le_right _ _

theorem Course.le_total (h : Course config total start log course) (hle : start ≤ total) : course.1 ≤ total := by
  induction h with
  | start => exact hle
  | adjust h ha ih => exact ha.le_total ih

theorem Course.nil_or_set (h : Course config total start log course) (hnoted : ∀ a ∈ log, 0 < a.noted) : log = [] ∨ 0 < course.2 := by
  cases h with
  | start => exact .inl rfl
  | adjust h ha => exact .inr (hnoted _ (by simp))

/-- Each adjustment but the first waits for the cooldown, if the clock is not set back between its evaluation and itself. -/
theorem Course.paced (hcooldown : 0 < config.cooldownSeconds) (h : Course config total start log course)
    (hclock : ∀ a ∈ log, 0 < a.noted ∧ a.evaluated ≤ a.noted) :
    ∀ first ∈ log.head?, first.noted + (log.length - 1) * config.cooldownSeconds ≤ course.2 := by
  induction h with
  | start => exact fun first hfirst => by cases hfirst
  | @adjust log course a h ha ih =>
    have hbefore : ∀ b ∈ log, 0 < b.noted ∧ b.evaluated ≤ b.noted := fun b hb => hclock b (List.mem_append_left _ hb)
    intro first hfirst
    cases log with
    | nil =>
      obtain rfl := Option.some.inj hfirst
      simp
    | cons b log =>
      obtain rfl := Option.some.inj hfirst
      have hpace := ih hbefore b rfl
      have hset := (h.nil_or_set fun c hc => (hbefore c hc).1).resolve_left (List.cons_ne_nil _ _)
      have hrested := ha.rested.resolve_left (Nat.ne_of_gt hset)
      have hread := (hclock a (by simp)).2
      have hlength : ((b :: log) ++ [a]).length - 1 = (b :: log).length - 1 + 1 := by simp
      rw [hlength,Nat.add_mul,Nat.one_mul]
      omega

theorem evaluate_permitted (h : g.evaluate now = some a) :
    a.key = g.key ∧ Permitted g.config g.totalWeight (g.currentCanaryWeight,g.lastAdjustment) a := by
  have hact : ∀ {reason : Reason} {newWeight : ℕ}, g.act now newWeight reason = some a →
      ¬ (0 < g.lastAdjustment ∧ now - g.lastAdjustment < g.config.cooldownSeconds) →
      newWeight = reason.weight g.config.step g.totalWeight g.currentCanaryWeight →
      a.key = g.key ∧ Permitted g.config g.totalWeight (g.currentCanaryWeight,g.lastAdjustment) a := by
    intro reason newWeight hact hrested hweight
    rw [CanaryGroup.act] at hact
    split at hact
    · cases hact
    · rename_i hmoves
      obtain rfl := Option.some.inj hact
      refine ⟨rfl,?_,hweight,hmoves⟩
      simp only
      omega
  rw [CanaryGroup.evaluate] at h
  split at h
  · cases h
  · rename_i hrested
    split at h
    · cases h
    · split at h
      · exact hact h hrested rfl
      · split at h
        · exact hact h hrested rfl
        · split at h
          · exact hact h hrested rfl
          · cases h

end Course

section Configured

/-- The weights a snapshot gives a service or a model. -/
def configured (snapshot : Generations.Snapshot) : WeightKey → Option (List ℕ)
  | .service name => ((snapshot.gateway.services.find? (·.name = name)).bind (·.split)).map fun targets => targets.map (·.weight)
  | .model name => (snapshot.ai.bind (·.lookup name)).map fun model => model.canary.map (·.weight)

/-- What validation sees to, and that a model's weights add up to a number of 32 bits. -/
structure Valid (snapshot : Generations.Snapshot) : Prop where
  services : (snapshot.gateway.services.map (·.name)).Nodup
  models : ((snapshot.ai.getD []).map (·.1)).Nodup
  small : ∀ name baseline canary, configured snapshot (.model name) = some [baseline,canary] → baseline + canary < 2^32

variable {snapshot : Generations.Snapshot} {analyses : WeightKey → Option CanaryAnalysis} {groups : Groups} {g : CanaryGroup} {group : String}
  {gen gen' : Generation} {key : WeightKey} {ws : List ℕ} {newCanaryWeight : ℕ}

theorem insertGroups_eq_some {compiled : List (String × Option CanaryGroup)} (h : insertGroups groups compiled group = some g) :
    (group,some g) ∈ compiled ∨ groups group = some g := by
  induction compiled generalizing groups with
  | nil => exact .inr h
  | cons p compiled ih =>
    rcases ih h with hmem | hgroup
    · exact .inl (List.mem_cons_of_mem _ hmem)
    · obtain ⟨n,g'⟩ := p
      cases g' with
      | none => exact .inr hgroup
      | some g' =>
        simp only at hgroup
        by_cases hn : group = n
        · subst hn
          rw [Function.update_self] at hgroup
          obtain rfl := Option.some.inj hgroup
          exact .inl List.mem_cons_self
        · rw [Function.update_of_ne hn] at hgroup
          exact .inr hgroup

/-- A group as it is compiled. -/
structure Fresh (snapshot : Generations.Snapshot) (group : String) (g : CanaryGroup) : Prop where
  name : name g.key = group
  weights : ∃ baseline, configured snapshot g.key = some [baseline,g.currentCanaryWeight] ∧ g.totalWeight = baseline + g.currentCanaryWeight
  unadjusted : g.lastAdjustment = 0

theorem compileGroup_fresh {analysis : Option CanaryAnalysis} (hkey : name key = group) (hws : configured snapshot key = some ws)
    (h : compileGroup key analysis ws = some g) : Fresh snapshot group g := by
  unfold compileGroup at h
  split at h
  · split_ifs at h
    obtain rfl := Option.some.inj h
    exact ⟨hkey,⟨_,hws,rfl⟩,rfl⟩
  · cases h

theorem compile_fresh (hvalid : Valid snapshot) (h : compile snapshot analyses group = some g) : Fresh snapshot group g := by
  rcases insertGroups_eq_some h with hmodel | h
  · obtain ⟨⟨modelName,model⟩,hmem,hpair⟩ := List.mem_map.mp hmodel
    obtain ⟨rfl,hg⟩ := Prod.mk.inj hpair
    refine compileGroup_fresh rfl ?_ hg
    cases hai : snapshot.ai with
    | none => simp [hai] at hmem
    | some models =>
      have hnodup := hvalid.models
      simp only [hai, Option.getD_some] at hmem hnodup
      have hlookup : models.lookup modelName = some model := (Keyed.lookup_eq_some_iff hnodup).mpr hmem
      simp only [configured, hai, Option.bind_some, hlookup, Option.map_some]
  · rcases insertGroups_eq_some h with hservice | h
    · obtain ⟨service,hmem,hpair⟩ := List.mem_map.mp hservice
      obtain ⟨rfl,hg⟩ := Prod.mk.inj hpair
      obtain ⟨targets,htargets,hg⟩ := Option.bind_eq_some_iff.mp hg
      refine compileGroup_fresh rfl ?_ hg
      have hfind : snapshot.gateway.services.find? (·.name = service.name) = some service := Keyed.find?_key_eq hvalid.services hmem
      simp only [configured, hfind, Option.bind_some, htargets, Option.map_some]
    · cases h

/-- A compiled generation serves the weights that are configured, or none. -/
theorem weights_compile (h : (Generation.compile snapshot).weights key = some ws) : configured snapshot key = some ws := by
  cases key with
  | service name =>
    simp only [Generation.weights, Generation.compile, UpstreamRegistry.fromSnapshot] at h
    obtain ⟨pairs,hpairs,rfl⟩ := Option.map_eq_some_iff.mp h
    obtain ⟨service,hservice,hpairs⟩ := Option.bind_eq_some_iff.mp hpairs
    obtain ⟨targets,htargets,hpairs⟩ := Option.bind_eq_some_iff.mp hpairs
    split_ifs at hpairs
    obtain rfl := Option.some.inj hpairs
    simp only [configured, hservice, Option.bind_some, htargets, Option.map_some, List.map_map, Function.comp_def]
  | model name =>
    simp only [Generation.weights, Generation.compile] at h
    cases hai : snapshot.ai with
    | none => simp [hai] at h
    | some models =>
      simp only [hai, Option.map_some, Option.bind_some, AiRuntime.compile] at h
      cases hmodel : models.lookup name with
      | none => simp [hmodel] at h
      | some model =>
        simp only [hmodel, Option.map_some, compileModel] at h
        simp only [configured, hai, Option.bind_some, hmodel, Option.map_some]
        split_ifs at h
        obtain rfl := Option.some.inj h
        simp only [List.map_map, Function.comp_def]

/-- What an update stores: the weight, and the rest of the configured total. -/
theorem weights_applyWeights (hvalid : Valid gen.snapshot)
    (h : gen.applyWeights newCanaryWeight key = some gen') :
    ∃ baseline canary, configured gen.snapshot key = some [baseline,canary] ∧
      gen'.weights key = some [baseline + canary - min newCanaryWeight (baseline + canary),min newCanaryWeight (baseline + canary)] := by
  cases key with
  | service name =>
    simp only [Generation.applyWeights, applyServiceSplitWeights] at h
    split at h
    · rename_i baseline canary hpair
      split_ifs at h
      obtain ⟨registry,hreg,rfl⟩ := Option.map_eq_some_iff.mp h
      rw [UpstreamRegistry.withRebuiltSplitFromPairs] at hreg
      split_ifs at hreg
      obtain rfl := Option.some.inj hreg
      exact ⟨baseline.weight,canary.weight,by simp [configured, hpair],by simp [Generation.weights]⟩
    · cases h
  | model name =>
    simp only [Generation.applyWeights, applyAiCanaryWeights] at h
    split at h
    · rename_i ai baseline canary hai hpair
      split_ifs at h
      obtain ⟨runtime,hrun,rfl⟩ := Option.map_eq_some_iff.mp h
      obtain ⟨model,hmodel,hcanary⟩ := Option.map_eq_some_iff.mp hpair
      have hconfigured : configured gen.snapshot (.model name) = some [baseline.weight,canary.weight] := by
        simp [configured, hmodel, hcanary]
      have hlt := hvalid.small _ _ _ hconfigured
      refine ⟨_,_,hconfigured,?_⟩
      rw [AiRuntime.withRebuiltCanary] at hrun
      split at hrun
      · rename_i versions hversions
        split_ifs at hrun with hlength
        obtain rfl := Option.some.inj hrun
        have hmin : min newCanaryWeight (baseline.weight + canary.weight) ≤ baseline.weight + canary.weight := Nat.min_le_right _ _
        rw [Nat.mod_eq_of_lt (hmin.trans_lt hlt),Nat.mod_eq_of_lt ((Nat.sub_le _ _).trans_lt hlt)]
        simp only [Generation.weights, Option.bind_some, Function.update_self]
        rw [List.map_fst_zip]
        rw [List.length_map]
        exact (not_not.mp hlength).le
      · cases hrun
    · cases h

end Configured

section Run
variable {snapshot : Generations.Snapshot} {analyses : WeightKey → Option CanaryAnalysis} {s s' : Steering} {g : CanaryGroup} {group : String}

/-- A group's weight is what its adjustments made of the configured one, and what is served. -/
structure Steered (snapshot : Generations.Snapshot) (gen : Generation) (log : List Adjustment) (g : CanaryGroup) : Prop where
  course : ∃ baseline canary, configured snapshot g.key = some [baseline,canary] ∧ g.totalWeight = baseline + canary ∧
    Course g.config g.totalWeight canary (log.filter (·.key = g.key)) (g.currentCanaryWeight,g.lastAdjustment)
  served : ∀ ws, gen.weights g.key = some ws → ws = [g.totalWeight - g.currentCanaryWeight,g.currentCanaryWeight]

theorem Steered.le_total {gen : Generation} {log : List Adjustment} (h : Steered snapshot gen log g) : g.currentCanaryWeight ≤ g.totalWeight := by
  obtain ⟨baseline,canary,-,htotal,hcourse⟩ := h.course
  exact hcourse.le_total (by omega)

/-- What every step of the loop keeps. A group has at most one action to come. -/
structure Governed (snapshot : Generations.Snapshot) (s : Steering) : Prop where
  of_snapshot : s.gen.snapshot = snapshot
  name : ∀ group g, s.groups group = some g → name g.key = group
  steered : ∀ group g, s.groups group = some g → Steered snapshot s.gen s.log g
  actions : ∀ a ∈ s.actions, ∃ g, s.groups (Canary.name a.key) = some g ∧ a.key = g.key ∧
    Permitted g.config g.totalWeight (g.currentCanaryWeight,g.lastAdjustment) a
  nodup : (s.toEvaluate ++ s.actions.map fun a => Canary.name a.key).Nodup

theorem governed_init (hvalid : Valid snapshot) : Governed snapshot (Steering.system snapshot analyses).init := by
  refine ⟨rfl,fun group g hg => (compile_fresh hvalid hg).name,?_,fun a ha => absurd ha List.not_mem_nil,List.nodup_nil⟩
  intro group g hg
  obtain ⟨-,⟨baseline,hws,htotal⟩,hunadjusted⟩ := compile_fresh hvalid hg
  refine ⟨⟨baseline,_,hws,htotal,?_⟩,?_⟩
  · rw [hunadjusted]
    exact .start
  · intro ws hserved
    have hconfigured := (weights_compile hserved).symm.trans hws
    obtain rfl := Option.some.inj hconfigured
    rw [htotal,Nat.add_sub_cancel]

/-- A group before and after one more outcome. -/
structure SameCourse (g g' : CanaryGroup) : Prop where
  key : g'.key = g.key
  config : g'.config = g.config
  totalWeight : g'.totalWeight = g.totalWeight
  currentCanaryWeight : g'.currentCanaryWeight = g.currentCanaryWeight
  lastAdjustment : g'.lastAdjustment = g.lastAdjustment

theorem Steering.recordOutcome_spec {recorded : String} {isCanary : Bool} {status : ℕ} {latencyMs : ℚ} (groups : Groups) (group : String) :
    (∀ g', Steering.recordOutcome groups recorded isCanary status latencyMs group = some g' →
      ∃ g, groups group = some g ∧ SameCourse g g') ∧
    (∀ g, groups group = some g →
      ∃ g', Steering.recordOutcome groups recorded isCanary status latencyMs group = some g' ∧ SameCourse g g') := by
  unfold Steering.recordOutcome
  by_cases hgroup : group = recorded
  · subst hgroup
    rw [Function.update_self]
    refine ⟨fun g' hg' => ?_,fun g hg => ?_⟩
    · obtain ⟨g,hg,rfl⟩ := Option.map_eq_some_iff.mp hg'
      refine ⟨g,hg,?_⟩
      cases isCanary <;> exact ⟨rfl,rfl,rfl,rfl,rfl⟩
    · rw [hg]
      refine ⟨_,rfl,?_⟩
      cases isCanary <;> exact ⟨rfl,rfl,rfl,rfl,rfl⟩
  · rw [Function.update_of_ne hgroup]
    exact ⟨fun g hg => ⟨g,hg,⟨rfl,rfl,rfl,rfl,rfl⟩⟩,fun g hg => ⟨g,hg,⟨rfl,rfl,rfl,rfl,rfl⟩⟩⟩

theorem governed_record {recorded : String} {isCanary : Bool} {status : ℕ} {latencyMs : ℚ} (h : Governed snapshot s) :
    Governed snapshot { s with groups := Steering.recordOutcome s.groups recorded isCanary status latencyMs } := by
  refine ⟨h.of_snapshot,?_,?_,?_,h.nodup⟩
  · intro group g' hg'
    obtain ⟨g,hg,hsame⟩ := (Steering.recordOutcome_spec s.groups group).1 g' hg'
    rw [hsame.key]
    exact h.name group g hg
  · intro group g' hg'
    obtain ⟨g,hg,hsame⟩ := (Steering.recordOutcome_spec s.groups group).1 g' hg'
    obtain ⟨hcourse,hserved⟩ := h.steered group g hg
    constructor
    · rw [hsame.key,hsame.config,hsame.totalWeight,hsame.currentCanaryWeight,hsame.lastAdjustment]
      exact hcourse
    · rw [hsame.key,hsame.totalWeight,hsame.currentCanaryWeight]
      exact hserved
  · intro a ha
    obtain ⟨g,hg,hkey,hpermitted⟩ := h.actions a ha
    obtain ⟨g',hg',hsame⟩ := (Steering.recordOutcome_spec s.groups (name a.key)).2 g hg
    refine ⟨g',hg',by rw [hsame.key]; exact hkey,?_⟩
    rw [hsame.config,hsame.totalWeight,hsame.currentCanaryWeight,hsame.lastAdjustment]
    exact hpermitted

theorem governed_evaluate {rest : List String} {now : ℕ} (h : Governed snapshot s) (htodo : s.toEvaluate = group :: rest) :
    Governed snapshot { s with toEvaluate := rest, actions := s.actions ++ ((s.groups group).bind (·.evaluate now)).toList } := by
  have hnodup := h.nodup
  rw [htodo,List.cons_append,List.nodup_cons] at hnodup
  cases haction : (s.groups group).bind (·.evaluate now) with
  | none =>
    rw [Option.toList_none,List.append_nil]
    exact ⟨h.of_snapshot,h.name,h.steered,h.actions,hnodup.2⟩
  | some a =>
    obtain ⟨g,hg,ha⟩ := Option.bind_eq_some_iff.mp haction
    obtain ⟨hkey,hpermitted⟩ := evaluate_permitted ha
    have hname : name a.key = group := by rw [hkey]; exact h.name group g hg
    refine ⟨h.of_snapshot,h.name,h.steered,?_,?_⟩
    · intro b hb
      rcases List.mem_append.mp hb with hb | hb
      · exact h.actions b hb
      · obtain rfl := List.mem_singleton.mp hb
        exact ⟨g,by rw [hname]; exact hg,hkey,hpermitted⟩
    · simp only [Option.toList_some, List.map_append, List.map_cons, List.map_nil, hname]
      rw [← List.append_assoc]
      exact (List.nodup_append_comm.mp (List.nodup_cons.mpr hnodup))

theorem governed_apply {a : CanaryAction} {rest : List CanaryAction} {gen : Generation} {now : ℕ} (hvalid : Valid snapshot)
    (h : Governed snapshot s) (hactions : s.actions = a :: rest) (hgen : s.gen.applyWeights a.newCanaryWeight a.key = some gen) :
    Governed snapshot { s with gen, actions := rest, groups := Steering.noteApplied s.groups a now, log := s.log ++ [⟨a,now⟩] } := by
  obtain ⟨g,hg,hkey,hpermitted⟩ := h.actions a (by rw [hactions]; exact List.mem_cons_self)
  obtain ⟨hsnapshot,hothers⟩ := Generation.applyWeights_spec hgen
  obtain ⟨baseline,canary,hws,hweights⟩ := weights_applyWeights (by rwa [h.of_snapshot]) hgen
  have hsteered := h.steered _ g hg
  obtain ⟨baseline',canary',hws',htotal,hcourse⟩ := hsteered.course
  obtain ⟨rfl,rfl⟩ : baseline = baseline' ∧ canary = canary' := by
    rw [h.of_snapshot,hkey,hws'] at hws
    simpa [eq_comm] using hws
  have hnew := hpermitted.le_total hsteered.le_total
  have hnodup := h.nodup
  rw [hactions,List.map_cons,List.nodup_append] at hnodup
  have hother : ∀ {group : String} {g' : CanaryGroup}, group ≠ name a.key → s.groups group = some g' → g'.key ≠ a.key := by
    intro group g' hgroup hg' heq
    exact hgroup (heq ▸ (h.name group g' hg').symm)
  have hnoted : ∀ {group : String}, Steering.noteApplied s.groups a now group =
      if group = name a.key then some { g with lastAdjustment := now, currentCanaryWeight := a.newCanaryWeight } else s.groups group := by
    intro group
    rw [Steering.noteApplied,Function.update_apply,hg]
    rfl
  refine ⟨hsnapshot.trans h.of_snapshot,?_,?_,?_,?_⟩
  · intro group g' hg'
    simp only [hnoted] at hg'
    split_ifs at hg' with hgroup
    · obtain rfl := Option.some.inj hg'
      exact hgroup ▸ hkey ▸ rfl
    · exact h.name group g' hg'
  · intro group g' hg'
    simp only [hnoted] at hg'
    split_ifs at hg' with hgroup
    · obtain rfl := Option.some.inj hg'
      refine ⟨⟨baseline,canary,hws',htotal,?_⟩,?_⟩
      · have hlog : (s.log ++ [Adjustment.mk a now]).filter (·.key = g.key) = s.log.filter (·.key = g.key) ++ [⟨a,now⟩] := by
          rw [List.filter_append,List.filter_cons_of_pos (by simpa using hkey)]
          rfl
        simp only
        rw [hlog]
        exact hcourse.adjust hpermitted
      · intro ws hserved
        simp only [← hkey] at hserved
        rw [hweights,← htotal,Nat.min_eq_left hnew] at hserved
        exact (Option.some.inj hserved).symm
    · have hne := hother hgroup hg'
      obtain ⟨hcourse',hserved'⟩ := h.steered group g' hg'
      constructor
      · have hlog : (s.log ++ [Adjustment.mk a now]).filter (·.key = g'.key) = s.log.filter (·.key = g'.key) := by
          rw [List.filter_append,List.filter_cons_of_neg (by simpa using hne.symm)]
          exact List.append_nil _
        simp only
        rw [hlog]
        exact hcourse'
      · simp only [hothers _ hne]
        exact hserved'
  · intro b hb
    obtain ⟨g',hg',hkey',hpermitted'⟩ := h.actions b (by rw [hactions]; exact List.mem_cons_of_mem _ hb)
    have hne : name b.key ≠ name a.key := by
      intro heq
      exact (List.nodup_cons.mp hnodup.2.1).1 (heq ▸ List.mem_map_of_mem hb)
    refine ⟨g',?_,hkey',hpermitted'⟩
    simp only [hnoted]
    rw [if_neg hne]
    exact hg'
  · rw [List.nodup_append]
    exact ⟨hnodup.1,(List.nodup_cons.mp hnodup.2.1).2,fun n hn n' hn' => hnodup.2.2 n hn n' (List.mem_cons_of_mem _ hn')⟩

theorem governed_step {event : SteeringEvent} (hvalid : Valid snapshot) (h : Governed snapshot s) (hs : Steering.step s event = some s') :
    Governed snapshot s' := by
  cases event with
  | recordOutcome recorded isCanary status latencyMs =>
    obtain rfl := Option.some.inj hs
    exact governed_record h
  | tick order =>
    simp only [Steering.step] at hs
    split_ifs at hs with hidle
    obtain rfl := Option.some.inj hs
    refine ⟨h.of_snapshot,h.name,h.steered,h.actions,?_⟩
    simp only [hidle.2.1, List.map_nil, List.append_nil]
    exact hidle.2.2
  | evaluateNext now =>
    simp only [Steering.step] at hs
    split at hs
    · rename_i group rest htodo
      obtain rfl := Option.some.inj hs
      exact governed_evaluate h htodo
    · cases hs
  | applyNext now =>
    simp only [Steering.step] at hs
    split at hs
    · rename_i a rest htodo hactions
      split at hs
      · rename_i gen hgen
        obtain rfl := Option.some.inj hs
        exact governed_apply hvalid h hactions hgen
      · obtain rfl := Option.some.inj hs
        have hnodup := h.nodup
        rw [hactions,List.map_cons] at hnodup
        exact ⟨h.of_snapshot,h.name,h.steered,fun b hb => h.actions b (by rw [hactions]; exact List.mem_cons_of_mem _ hb),
          hnodup.sublist ((List.sublist_cons_self _ _).append_left _)⟩
    · cases hs

theorem governed_run (hvalid : Valid snapshot) {events : List SteeringEvent}
    (hr : (Steering.system snapshot analyses).run events = some s) : Governed snapshot s :=
  System.run_inv (Governed snapshot) (governed_init hvalid) (fun _ _ _ ht hstep => governed_step hvalid ht hstep) hr

/-- A tenth on the canary, and ten more every minute while nothing fails. -/
def web : Generations.Snapshot where
  generation := 1
  gateway := {
    routes := []
    services := [⟨"web",none,some [⟨"stable",90⟩,⟨"next",10⟩],[],none⟩]
    upstreams := [⟨"stable",.roundRobin,[]⟩,⟨"next",.roundRobin,[]⟩]
    consumers := []
    policies := []
    globalPolicies := []
    authorization := none
    trustedProxies := [] }

def webAnalyses (_ : WeightKey) : Option CanaryAnalysis :=
  some ⟨true,10,1,60,fun side => side.errors = 0,fun side => side.errors ≠ 0,fun side => 1 < side.errors⟩

theorem web_valid : Valid web := ⟨by decide,by decide,fun _ _ _ h => by cases h⟩

/-- Two rounds, a minute apart. -/
def rounds : List SteeringEvent :=
  [.recordOutcome "web" true 200 5,.tick ["web"],.evaluateNext 100,.applyNext 100,.tick ["web"],.evaluateNext 160,.applyNext 160]

/-- By a clock that is not set back, so many adjustments take as many cooldowns but one. -/
theorem canary_paced (snapshot : Generations.Snapshot) (analyses : WeightKey → Option CanaryAnalysis) (hvalid : Valid snapshot)
    (events : List SteeringEvent) (s : Steering) (hr : (Steering.system snapshot analyses).run events = some s)
    (group : String) (g : CanaryGroup) (hg : s.groups group = some g) (hcooldown : 0 < g.config.cooldownSeconds)
    (hclock : ∀ a ∈ s.log, 0 < a.noted ∧ a.evaluated ≤ a.noted) :
    ∀ first ∈ (s.log.filter (·.key = g.key)).head?,
      first.noted + ((s.log.filter (·.key = g.key)).length - 1) * g.config.cooldownSeconds ≤ g.lastAdjustment := by
  obtain ⟨baseline,canary,-,-,hcourse⟩ := ((governed_run hvalid hr).steered group g hg).course
  exact hcourse.paced hcooldown fun a ha => hclock a (List.mem_of_mem_filter ha)

theorem canary_paced_promoted : ∃ s g, (Steering.system web webAnalyses).run rounds = some s ∧ s.groups "web" = some g ∧
    g.lastAdjustment = 160 ∧ (s.log.filter (·.key = g.key)).length = 2 ∧
    ∀ first ∈ (s.log.filter (·.key = g.key)).head?, first.noted + (2 - 1) * 60 ≤ g.lastAdjustment := by
  have hrun : ∃ s g, (Steering.system web webAnalyses).run rounds = some s ∧ s.groups "web" = some g ∧ g.lastAdjustment = 160 ∧
      (s.log.filter (·.key = g.key)).length = 2 ∧ g.config.cooldownSeconds = 60 ∧
      s.log.all (fun a => decide (0 < a.noted ∧ a.evaluated ≤ a.noted)) = true := ⟨_,_,rfl,rfl,rfl,rfl,rfl,rfl⟩
  obtain ⟨s,g,hr,hg,hlast,hlength,hcooldown,hclock⟩ := hrun
  refine ⟨s,g,hr,hg,hlast,hlength,?_⟩
  have hpaced := canary_paced web webAnalyses web_valid rounds s hr "web" g hg (by rw [hcooldown]; decide)
    fun a ha => of_decide_eq_true (List.all_eq_true.mp hclock a ha)
  rwa [hlength,hcooldown] at hpaced

end Run

section Sessions
open Split Ranges
variable {α : Type*} {pairs : List (α × ℕ)} {total weight : ℕ}

/-- The canary has the last of the slots. -/
theorem pickWithIndex_canary_iff (hle : weight ≤ total) (h : weights pairs = [total - weight,weight]) (key : String) :
    ((ServiceSplit.new pairs).pickWithIndex key).map Prod.snd = some 1 ↔
      total ≠ 0 ∧ total - weight ≤ (Balance.keyHash key).toNat % total := by
  have hsum : (weights pairs).sum = total := by
    rw [h,List.sum_cons,List.sum_singleton,Nat.sub_add_cancel hle]
  have htotal : (ServiceSplit.new pairs).total = total := by rw [new_eq,hsum]
  rw [ServiceSplit.pickWithIndex,htotal]
  by_cases hzero : total = 0
  · simp [hzero]
  · have hlt := Nat.mod_lt (Balance.keyHash key).toNat (Nat.pos_of_ne_zero hzero)
    rw [if_neg hzero,pickSlot_index (hsum.symm ▸ hlt),h,owner_eq_some_iff]
    simp only [start, List.length_cons, List.length_nil, List.take_succ_cons, List.take_zero, List.sum_cons, List.sum_nil]
    omega

/-- A session that is on the canary stays there while its weight does not go down. -/
theorem sessions_stay (snapshot : Generations.Snapshot) (analyses : WeightKey → Option CanaryAnalysis) (hvalid : Valid snapshot)
    (events events' : List SteeringEvent) (s s' : Steering) (hr : (Steering.system snapshot analyses).run events = some s)
    (hr' : (Steering.system snapshot analyses).run (events ++ events') = some s') (service : String) (g g' : CanaryGroup)
    (hg : s.groups service = some g) (hg' : s'.groups service = some g') (hkey : g.key = .service service)
    (hkey' : g'.key = .service service) (hle : g.currentCanaryWeight ≤ g'.currentCanaryWeight) (pairs pairs' : List (String × ℕ))
    (hpairs : s.gen.registry.splits service = some pairs) (hpairs' : s'.gen.registry.splits service = some pairs') (key : String)
    (hpick : ((ServiceSplit.new pairs).pickWithIndex key).map Prod.snd = some 1) :
    ((ServiceSplit.new pairs').pickWithIndex key).map Prod.snd = some 1 := by
  have hsteered := (governed_run hvalid hr).steered service g hg
  have hsteered' := (governed_run hvalid hr').steered service g' hg'
  obtain ⟨baseline,canary,hws,htotal,-⟩ := hsteered.course
  obtain ⟨baseline',canary',hws',htotal',-⟩ := hsteered'.course
  have hsame : g'.totalWeight = g.totalWeight := by
    rw [hkey] at hws
    rw [hkey',hws] at hws'
    have hlists := Option.some.inj hws'
    simp only [List.cons.injEq, and_true] at hlists
    omega
  have hweights : weights pairs = [g.totalWeight - g.currentCanaryWeight,g.currentCanaryWeight] :=
    hsteered.served _ (by rw [hkey,Generation.weights,hpairs]; rfl)
  have hweights' : weights pairs' = [g'.totalWeight - g'.currentCanaryWeight,g'.currentCanaryWeight] :=
    hsteered'.served _ (by rw [hkey',Generation.weights,hpairs']; rfl)
  obtain ⟨hpositive,hslot⟩ := (pickWithIndex_canary_iff hsteered.le_total hweights key).mp hpick
  rw [pickWithIndex_canary_iff hsteered'.le_total hweights' key,hsame]
  exact ⟨hpositive,by omega⟩

theorem sessions_stay_promoted : ∃ s' pairs', (Steering.system web webAnalyses).run rounds = some s' ∧
    s'.gen.registry.splits "web" = some pairs' ∧ ((ServiceSplit.new pairs').pickWithIndex "p").map Prod.snd = some 1 := by
  have hrun : ∃ s' g' pairs', (Steering.system web webAnalyses).run ([] ++ rounds) = some s' ∧ s'.groups "web" = some g' ∧
      g'.key = .service "web" ∧ g'.currentCanaryWeight = 30 ∧ s'.gen.registry.splits "web" = some pairs' :=
    ⟨_,_,_,rfl,rfl,rfl,rfl,rfl⟩
  have hinit : ∃ g pairs, (Steering.system web webAnalyses).init.groups "web" = some g ∧ g.key = .service "web" ∧
      g.currentCanaryWeight = 10 ∧ (Steering.system web webAnalyses).init.gen.registry.splits "web" = some pairs ∧
      weights pairs = [100 - 10,10] := ⟨_,_,rfl,rfl,rfl,rfl,rfl⟩
  obtain ⟨s',g',pairs',hr',hg',hkey',hweight',hpairs'⟩ := hrun
  obtain ⟨g,pairs,hg,hkey,hweight,hpairs,hweights⟩ := hinit
  have hslot : (Balance.keyHash "p").toNat % 100 = 98 := by decide +kernel
  refine ⟨s',pairs',hr',hpairs',sessions_stay web webAnalyses web_valid [] rounds _ s' rfl hr' "web" g g' hg hg' hkey hkey'
    (by omega) pairs pairs' hpairs hpairs' "p" ?_⟩
  rw [pickWithIndex_canary_iff (by decide) hweights,hslot]
  decide

end Sessions
end Dwara.Dataplane.Canary
