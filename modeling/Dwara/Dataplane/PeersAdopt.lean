import Dwara.Dataplane.Peers

/-! What a step of the instances can do, and what an instance adopts from the record of
another one. -/

namespace Dwara.Dataplane
open Dwara.Lib

variable {I Gateway Yaml Hash : Type*} {P : Pipeline I Gateway Yaml Hash}

/-- No gateway the text parses to compiles on `i`. -/
def Pipeline.Rejects (P : Pipeline I Gateway Yaml Hash) (i : I) (y : Yaml) : Prop :=
  ∀ g, P.parseGateway y = some g → P.compile i g = none

/-- A text that came from a gateway is adopted with its hash unless it is rejected. -/
theorem adopt_of_not_rejects {s : Snapshot P} {i : I} {g : Gateway} {y : Yaml} (hy : P.gatewayToYaml g = some y)
    (hr : ¬ P.Rejects i y) : ∃ s', (P.parseGateway y).bind (s.compileAndPublish i) = some s' ∧ s'.contentHash = P.normalizedHash y := by
  obtain ⟨g',hparse,hyaml⟩ := P.round_trip g y hy
  have hv : P.validate i g' = true := by
    rw [← Bool.not_eq_false]
    intro hv
    refine hr fun g'' hg'' => ?_
    rw [hparse] at hg''
    obtain rfl := Option.some.inj hg''
    rw [Pipeline.compile,if_neg (by rw [hv]; exact Bool.false_ne_true)]
  refine ⟨⟨s.generation + 1,g',y,hyaml⟩,?_,rfl⟩
  rw [hparse,Option.bind_some,Snapshot.compileAndPublish,compile_of_yaml hyaml hv,Option.map_some]

/-- What is adopted from the text of a gateway has the hash of the text. -/
theorem adopted_hash {s s' : Snapshot P} {i : I} {g : Gateway} {y : Yaml} (hy : P.gatewayToYaml g = some y)
    (hs : (P.parseGateway y).bind (s.compileAndPublish i) = some s') : s'.contentHash = P.normalizedHash y := by
  obtain ⟨g',hparse,hyaml⟩ := P.round_trip g y hy
  rw [hparse,Option.bind_some] at hs
  have hgateway := s'.normalized
  rw [(compileAndPublish_generation hs).2,hyaml] at hgateway
  rw [Snapshot.contentHash,← Option.some.inj hgateway]

namespace PeerState
variable [DecidableEq I] [DecidableEq Hash]

/-- What a task may do next without a write to the backend or to an instance. -/
inductive Next (s : PeerState P) (t : ℕ) : PeerTask P → Prop
  | idle : Next s t .idle
  | watching {i : I} : Next s t (.watching i)
  | publishing {i : I} {polling : Bool} : Next s t (.publishing i (s.live i) polling)
  | converging {i : I} {order : List I} : Next s t (.converging i (s.watchGenerations order))
  | loading {i : I} {instances : List (InstanceGeneration I Hash)} {target : InstanceGeneration I Hash}
      (ht : s.tasks t = .converging i instances) (htarget : convergeTarget (s.live i) i instances = some target) :
      Next s t (.loading i target)
  | loaded {i : I} {target : InstanceGeneration I Hash} {yaml : Yaml} (ht : s.tasks t = .loading i target)
      (hyaml : s.configs target.generation = some yaml) : Next s t (.loaded i target yaml)

/-- Everything a step can do. -/
inductive Move (s : PeerState P) : PeerLabel I Gateway → PeerState P → Prop
  | rejected {i : I} {g : Gateway} : Move s (.reload i g) s
  | reload {i : I} {g : Gateway} {snapshot : Snapshot P} (hs : (s.live i).compileAndPublish i g = some snapshot) :
      Move s (.reload i g) (s.serve i snapshot)
  | goto {a : PeerLabel I Gateway} {t : ℕ} {next : PeerTask P} (hnext : Next s t next) : Move s a (s.goto t next)
  | write {t : ℕ} {order : List I} {i : I} {snapshot : Snapshot P} {polling : Bool} (ht : s.tasks t = .publishing i snapshot polling) :
      Move s (.call t order) ((s.publishGeneration i snapshot).goto t (if polling then .watching i else .idle))
  | converge {t : ℕ} {order : List I} {i : I} {target : InstanceGeneration I Hash} {yaml : Yaml} {snapshot : Snapshot P}
      (ht : s.tasks t = .loaded i target yaml) (hs : (P.parseGateway yaml).bind ((s.live i).compileAndPublish i) = some snapshot) :
      Move s (.call t order) ((s.serve i snapshot).goto t (.converged i))
  | expireInstances : Move s .expireInstances { s with instances := fun _ => none }
  | expireConfig {n : ℕ} : Move s (.expireConfig n) (s.expireConfig n)

private theorem next_ite (s : PeerState P) (t : ℕ) (i : I) (polling : Bool) :
    Next s t (if polling then .watching i else .idle) := by
  cases polling with
  | false => exact .idle
  | true => exact .watching

variable [Fintype I]

private theorem adoptCall_move {s s' : PeerState P} {t : ℕ} {order : List I} (h : s.callStep t order = some s') :
    Move s (.call t order) s' := by
  rw [callStep] at h
  split at h
  · cases h
  · rename_i i snapshot polling ht
    cases h
    exact .write ht
  · rename_i i ht
    obtain ⟨-,h⟩ := Option.ite_none_right_eq_some.mp h
    cases h
    exact .goto .converging
  · rename_i i instances ht
    split at h
    · cases h
      exact .goto .idle
    · rename_i target htarget
      cases h
      exact .goto (.loading ht htarget)
  · rename_i i target ht
    split at h
    · cases h
      exact .goto .idle
    · rename_i yaml hyaml
      cases h
      exact .goto (.loaded ht hyaml)
  · rename_i i target yaml ht
    split at h
    · cases h
      exact .goto .idle
    · rename_i snapshot hs
      cases h
      exact .converge ht hs
  · cases h
    exact .goto .publishing

theorem step_move {s s' : PeerState P} {a : PeerLabel I Gateway} (h : s.step a = some s') : Move s a s' := by
  cases a with
  | reload i g =>
    rw [step] at h
    split at h
    · rename_i snapshot hs
      cases h
      exact .reload hs
    · cases h
      exact .rejected
  | publish t i =>
    rw [step] at h
    split at h
    · cases h
      exact .goto .publishing
    · cases h
  | poll t i =>
    rw [step] at h
    split at h
    · cases h
      exact .goto .publishing
    · cases h
  | call t order => exact adoptCall_move h
  | fail t =>
    rw [step,failStep] at h
    split at h
    · cases h
      exact .goto (next_ite s t _ _)
    · cases h
      exact .goto .idle
    · cases h
      exact .goto .idle
    all_goals cases h
  | expireInstances =>
    cases h
    exact .expireInstances
  | expireConfig n =>
    cases h
    exact .expireConfig

end PeerState

section Kept

/-- A record the backend lists or a poll holds. -/
def PeerTask.Holds (r : InstanceGeneration I Hash) : PeerTask P → Prop
  | .converging _ instances => r ∈ instances
  | .loading _ target => r = target
  | .idle | .publishing _ _ _ | .watching _ | .loaded _ _ _ | .converged _ => False

def PeerState.InUse (s : PeerState P) (r : InstanceGeneration I Hash) : Prop :=
  (∃ k, s.instances k = some r) ∨ ∃ t, (s.tasks t).Holds r

/-- A publish that leaves the body of every record in use alone. -/
def PeerTask.KeepsBodies (s : PeerState P) : PeerTask P → Prop
  | .publishing _ snapshot _ => ∀ r, s.InUse r → r.generation = snapshot.generation → r.configHash = snapshot.contentHash
  | _ => True

def KeepsBodies (s : PeerState P) : PeerLabel I Gateway → Prop
  | .call t _ => (s.tasks t).KeepsBodies s
  | _ => True

/-- Every stored body is the text of a gateway and carries the hash of the records in use
of its number. -/
structure Kept (s : PeerState P) : Prop where
  normal : ∀ n y, s.configs n = some y → ∃ g, P.gatewayToYaml g = some y
  inUse : ∀ r y, s.InUse r → s.configs r.generation = some y → P.normalizedHash y = r.configHash
  loaded : ∀ t i r y, s.tasks t = .loaded i r y → (∃ g, P.gatewayToYaml g = some y) ∧ P.normalizedHash y = r.configHash

theorem Kept.init {startup : I → Snapshot P} : Kept (PeerState.init startup) where
  normal _ _ h := by cases h
  inUse _ _ _ h := by cases h
  loaded _ _ _ _ h := by cases h

theorem inUse_goto {s : PeerState P} {t : ℕ} {next : PeerTask P} {r : InstanceGeneration I Hash} (h : (s.goto t next).InUse r) :
    s.InUse r ∨ next.Holds r := by
  rcases h with ⟨k,hk⟩ | ⟨t',ht'⟩
  · exact .inl (.inl ⟨k,hk⟩)
  · rw [PeerState.goto_tasks] at ht'
    by_cases htt : t' = t
    · rw [htt,Function.update_self] at ht'
      exact .inr ht'
    · rw [Function.update_of_ne htt] at ht'
      exact .inl (.inr ⟨t',ht'⟩)

theorem Kept.goto {s : PeerState P} (h : Kept s) (t : ℕ) {next : PeerTask P} (hholds : ∀ r, next.Holds r → s.InUse r)
    (hloaded : ∀ i r y, next = .loaded i r y → (∃ g, P.gatewayToYaml g = some y) ∧ P.normalizedHash y = r.configHash) :
    Kept (s.goto t next) := by
  refine ⟨h.normal,fun r y hr hy => ?_,fun t' i r y ht' => ?_⟩
  · rcases inUse_goto hr with hr | hr
    · exact h.inUse r y hr hy
    · exact h.inUse r y (hholds r hr) hy
  · rw [PeerState.goto_tasks] at ht'
    by_cases htt : t' = t
    · rw [htt,Function.update_self] at ht'
      exact hloaded i r y ht'
    · rw [Function.update_of_ne htt] at ht'
      exact h.loaded t' i r y ht'

/-- A poll that publishes the text it loaded serves the hash of the record it went for. -/
def AdoptsTarget (s : PeerState P) : PeerLabel I Gateway → Prop
  | .call t _ => ∀ i target yaml snapshot, s.tasks t = .loaded i target yaml →
      (P.parseGateway yaml).bind ((s.live i).compileAndPublish i) = some snapshot → snapshot.contentHash = target.configHash
  | _ => True

theorem Kept.adopts {s : PeerState P} (h : Kept s) (a : PeerLabel I Gateway) : AdoptsTarget s a := by
  cases a with
  | call t order =>
    intro i target yaml snapshot ht hs
    obtain ⟨⟨g,hg⟩,hhash⟩ := h.loaded t i target yaml ht
    rw [adopted_hash hg hs]
    exact hhash
  | _ => trivial

variable [DecidableEq I]

theorem inUse_publishGeneration {s : PeerState P} {i : I} {snapshot : Snapshot P} {r : InstanceGeneration I Hash}
    (h : (s.publishGeneration i snapshot).InUse r) : s.InUse r ∨ r = snapshot.record i := by
  rcases h with ⟨k,hk⟩ | ht
  · rw [PeerState.publishGeneration_instances] at hk
    by_cases hki : k = i
    · rw [hki,Function.update_self] at hk
      exact .inr (Option.some.inj hk).symm
    · rw [Function.update_of_ne hki] at hk
      exact .inl (.inl ⟨k,hk⟩)
  · exact .inl (.inr ht)

theorem Kept.publishGeneration {s : PeerState P} (h : Kept s) (i : I) {snapshot : Snapshot P}
    (hkeep : ∀ r, s.InUse r → r.generation = snapshot.generation → r.configHash = snapshot.contentHash) :
    Kept (s.publishGeneration i snapshot) := by
  refine ⟨fun n y hy => ?_,fun r y hr hy => ?_,h.loaded⟩
  · rw [PeerState.publishGeneration_configs] at hy
    by_cases hn : n = snapshot.generation
    · rw [hn,Function.update_self] at hy
      exact ⟨snapshot.gateway,hy ▸ snapshot.normalized⟩
    · rw [Function.update_of_ne hn] at hy
      exact h.normal n y hy
  · rw [PeerState.publishGeneration_configs] at hy
    by_cases hn : r.generation = snapshot.generation
    · rw [hn,Function.update_self] at hy
      obtain rfl := Option.some.inj hy
      rcases inUse_publishGeneration hr with hr | rfl
      · exact (hkeep r hr hn).symm
      · rfl
    · rw [Function.update_of_ne hn] at hy
      rcases inUse_publishGeneration hr with hr | rfl
      · exact h.inUse r y hr hy
      · exact absurd rfl hn

variable [DecidableEq Hash]

theorem Kept.step {s s' : PeerState P} {a : PeerLabel I Gateway} (h : Kept s) (hk : KeepsBodies s a)
    (hm : PeerState.Move s a s') : Kept s' := by
  cases hm with
  | rejected => exact h
  | reload hs => exact ⟨h.normal,h.inUse,h.loaded⟩
  | @goto a t next hnext =>
    cases hnext with
    | converging => exact h.goto _ (fun r hr => .inl (PeerState.mem_watchGenerations hr)) (fun _ _ _ he => by cases he)
    | @loading i instances target ht htarget =>
      refine h.goto _ (fun r hr => .inr ⟨t,?_⟩) (fun _ _ _ he => by cases he)
      obtain rfl : r = target := hr
      rw [ht]
      exact (convergeTarget_mem htarget).1
    | @loaded i target yaml ht hyaml =>
      refine h.goto _ (fun r hr => hr.elim) (fun i r y he => ?_)
      obtain ⟨rfl,rfl,rfl⟩ := PeerTask.loaded.inj he
      refine ⟨h.normal _ _ hyaml,h.inUse _ _ (.inr ⟨t,?_⟩) hyaml⟩
      rw [ht]
      rfl
    | _ => exact h.goto _ (fun r hr => hr.elim) (fun _ _ _ he => by cases he)
  | @write t order i snapshot polling ht =>
    rw [KeepsBodies,ht] at hk
    cases polling with
    | false => exact (h.publishGeneration i hk).goto t (fun r hr => hr.elim) (fun _ _ _ he => by cases he)
    | true => exact (h.publishGeneration i hk).goto t (fun r hr => hr.elim) (fun _ _ _ he => by cases he)
  | converge ht hs =>
    refine Kept.goto ?_ _ (fun r hr => hr.elim) (fun _ _ _ he => by cases he)
    exact ⟨h.normal,h.inUse,h.loaded⟩
  | expireInstances =>
    refine ⟨h.normal,fun r y hr hy => h.inUse r y ?_ hy,h.loaded⟩
    rcases hr with ⟨k,hk⟩ | ht
    · cases hk
    · exact .inr ht
  | expireConfig =>
    exact ⟨fun m y hy => h.normal m y (PeerState.configs_of_expireConfig hy),
      fun r y hr hy => h.inUse r y hr (PeerState.configs_of_expireConfig hy),h.loaded⟩

variable [Fintype I]

/-- While publishes keep the bodies of the records in use, every instance adopts the
configuration of the record it goes for. -/
theorem adopts_run {startup : I → Snapshot P} {run : List (PeerLabel I Gateway)} (hk : (peers P startup).Along KeepsBodies run) :
    (peers P startup).Along AdoptsTarget run := by
  intro pre a post s he hr
  rw [he] at hk
  have hkept : Kept s := by
    refine System.guarded_inv (fun s => Kept s) Kept.init ?_ hk.init hr
    exact fun s a s' h hg hstep => h.step hg (PeerState.step_move hstep)
  exact hkept.adopts a

end Kept
end Dwara.Dataplane
