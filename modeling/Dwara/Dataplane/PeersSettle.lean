import Dwara.Dataplane.PeersAdopt
import Mathlib.Data.Finset.Max
import Mathlib.Data.Fintype.EquivFin

/-! Where the polls of the instances come to rest. -/

namespace Dwara.Dataplane
open Dwara.Lib

variable {I Gateway Yaml Hash : Type*} {P : Pipeline I Gateway Yaml Hash}

namespace PeerState

/-- No task of any instance is under way. -/
def Idle (s : PeerState P) : Prop := ∀ t, s.tasks t = .idle

theorem Idle.goto {s : PeerState P} (h : s.Idle) (t : ℕ) {s' : PeerState P} (hs' : s'.tasks = s.tasks) :
    (s'.goto t .idle).Idle := by
  intro t'
  rw [PeerState.goto_tasks,hs']
  by_cases htt : t' = t
  · rw [htt,Function.update_self]
  · rw [Function.update_of_ne htt]
    exact h t'

end PeerState

section Behind

/-- No record and no publish in progress is ahead of its instance. -/
structure Behind (s : PeerState P) : Prop where
  records : ∀ k r, s.instances k = some r → r.instanceId = k ∧ r.generation ≤ (s.live k).generation
  publishing : ∀ t i snapshot polling, s.tasks t = .publishing i snapshot polling → snapshot.generation ≤ (s.live i).generation

theorem Behind.init {startup : I → Snapshot P} : Behind (PeerState.init startup) where
  records _ _ h := by cases h
  publishing _ _ _ _ h := by cases h

theorem Behind.goto {s : PeerState P} (h : Behind s) (t : ℕ) {next : PeerTask P}
    (hnext : ∀ i snapshot polling, next = .publishing i snapshot polling → snapshot.generation ≤ (s.live i).generation) :
    Behind (s.goto t next) := by
  refine ⟨h.records,fun t' i snapshot polling ht' => ?_⟩
  rw [PeerState.goto_tasks] at ht'
  by_cases htt : t' = t
  · rw [htt,Function.update_self] at ht'
    exact hnext i snapshot polling ht'
  · rw [Function.update_of_ne htt] at ht'
    exact h.publishing t' i snapshot polling ht'

theorem Behind.goto_idle {s : PeerState P} (h : Behind s) (t : ℕ) : Behind (s.goto t .idle) :=
  h.goto t fun _ _ _ he => by cases he

variable [DecidableEq I]

theorem generation_le_serve {s : PeerState P} {i : I} {snapshot : Snapshot P} (hle : (s.live i).generation ≤ snapshot.generation)
    (k : I) : (s.live k).generation ≤ ((s.serve i snapshot).live k).generation := by
  rw [PeerState.serve_live]
  by_cases hk : k = i
  · rw [hk,Function.update_self]
    exact hle
  · rw [Function.update_of_ne hk]

theorem Behind.serve {s : PeerState P} (h : Behind s) {i : I} {snapshot : Snapshot P}
    (hle : (s.live i).generation ≤ snapshot.generation) : Behind (s.serve i snapshot) where
  records k r hr := ⟨(h.records k r hr).1,(h.records k r hr).2.trans (generation_le_serve hle k)⟩
  publishing t k published polling ht := (h.publishing t k published polling ht).trans (generation_le_serve hle k)

theorem Behind.publishGeneration {s : PeerState P} (h : Behind s) {i : I} {snapshot : Snapshot P}
    (hle : snapshot.generation ≤ (s.live i).generation) : Behind (s.publishGeneration i snapshot) := by
  refine ⟨fun k r hr => ?_,h.publishing⟩
  rw [PeerState.publishGeneration_instances] at hr
  by_cases hk : k = i
  · rw [hk,Function.update_self] at hr
    obtain rfl := Option.some.inj hr
    exact ⟨hk.symm,by rw [hk]; exact hle⟩
  · rw [Function.update_of_ne hk] at hr
    exact h.records k r hr

variable [DecidableEq Hash]

theorem Behind.step {s s' : PeerState P} {a : PeerLabel I Gateway} (h : Behind s) (hm : PeerState.Move s a s') : Behind s' := by
  cases hm with
  | rejected => exact h
  | reload hs => exact h.serve (by rw [(compileAndPublish_generation hs).1]; exact Nat.le_succ _)
  | goto hnext =>
    refine h.goto _ fun i snapshot polling he => ?_
    cases hnext with
    | publishing =>
      obtain ⟨rfl,rfl,rfl⟩ := PeerTask.publishing.inj he
      exact le_refl _
    | _ => cases he
  | @write t order i snapshot polling ht =>
    refine (h.publishGeneration (h.publishing _ _ _ _ ht)).goto t fun k published p he => ?_
    cases polling with
    | false => cases he
    | true => cases he
  | converge ht hs =>
    refine (h.serve ?_).goto _ fun _ _ _ he => by cases he
    rw [adopted_generation hs]
    exact Nat.le_succ _
  | expireInstances => exact ⟨fun _ _ hr => (by cases hr),h.publishing⟩
  | expireConfig => exact ⟨h.records,h.publishing⟩

/-- An instance at the highest number finds nothing to go for. -/
private theorem convergeTarget_top {s : PeerState P} (h : Behind s) {j : I} (hmax : ∀ k, (s.live k).generation ≤ (s.live j).generation)
    (order : List I) : convergeTarget (s.live j) j (s.watchGenerations order) = none := by
  rw [Option.eq_none_iff_forall_ne_some]
  intro r hr
  obtain ⟨hmem,hlt,-⟩ := convergeTarget_mem hr
  obtain ⟨k,hk⟩ := PeerState.mem_watchGenerations hmem
  exact absurd ((h.records k r hk).2.trans (hmax k)) (Nat.not_le_of_lt hlt)

/-- An instance below the highest number goes for the record that is listed last. -/
private theorem convergeTarget_last {s : PeerState P} (h : Behind s) {i j : I} (hmax : ∀ k, (s.live k).generation ≤ (s.live j).generation)
    (hlt : (s.live i).generation < (s.live j).generation) (hhash : (s.live j).contentHash ≠ (s.live i).contentHash)
    (hj : s.instances j = some ((s.live j).record j)) (pre : List I) :
    convergeTarget (s.live i) i (s.watchGenerations (pre ++ [j])) = some ((s.live j).record j) := by
  have hne : j ≠ i := by
    rintro rfl
    exact hhash rfl
  have hwatch : s.watchGenerations (pre ++ [j]) = s.watchGenerations pre ++ [(s.live j).record j] := by
    rw [PeerState.watchGenerations,List.filterMap_append,List.filterMap_cons_some hj,List.filterMap_nil]
    rfl
  have hkeep : [(s.live j).record j].filter (·.instanceId ≠ i) = [(s.live j).record j] := by
    refine List.filter_eq_self.mpr fun r hr => ?_
    rw [List.mem_singleton.mp hr]
    exact decide_eq_true hne
  rw [convergeTarget,hwatch,List.filter_append,hkeep,maxByKey_concat,Option.filter_some,if_pos]
  · exact decide_eq_true ⟨hlt,hhash⟩
  · intro r hr
    obtain ⟨k,hk⟩ := PeerState.mem_watchGenerations (List.mem_of_mem_filter hr)
    exact (h.records k r hk).2.trans (hmax k)

variable [Fintype I]

theorem behind_run {startup : I → Snapshot P} {run : List (PeerLabel I Gateway)} {s : PeerState P}
    (hr : (peers P startup).run run = some s) : Behind s := by
  refine System.run_inv (fun s => Behind s) Behind.init ?_ hr
  exact fun s a s' h hstep => h.step (PeerState.step_move hstep)

end Behind

section Rests

/-- A task that finds nothing it could adopt, when the instances serve `live`. -/
def PeerTask.Rests (live : I → Snapshot P) : PeerTask P → Prop
  | .publishing i snapshot _ => snapshot = live i
  | .converging _ instances => ∀ r ∈ instances, ∃ k, r = (live k).record k
  | .loading i target => ∀ l, (live l).generation = target.generation → P.Rejects i (live l).yaml
  | .loaded i _ yaml => P.Rejects i yaml
  | .idle | .watching _ | .converged _ => True

/-- The backend holds nothing but what the instances serve, and every text an instance
could go for is one it refuses. -/
structure PeerState.Rests (live : I → Snapshot P) (s : PeerState P) : Prop where
  unchanged : s.live = live
  records : ∀ k r, s.instances k = some r → r = (live k).record k
  configs : ∀ n y, s.configs n = some y → ∃ l, (live l).generation = n ∧ (live l).yaml = y
  tasks : ∀ t, (s.tasks t).Rests live

/-- No instance could adopt what another one serves. -/
def Apart (live : I → Snapshot P) : Prop :=
  ∀ i k, (live i).generation < (live k).generation →
    (live k).contentHash = (live i).contentHash ∨ ∀ l, (live l).generation = (live k).generation → P.Rejects i (live l).yaml

private theorem rests_goto {live : I → Snapshot P} {s : PeerState P} (h : s.Rests live) (t : ℕ) {next : PeerTask P}
    (hnext : next.Rests live) : (s.goto t next).Rests live := by
  refine ⟨h.unchanged,h.records,h.configs,fun t' => ?_⟩
  rw [PeerState.goto_tasks]
  by_cases htt : t' = t
  · rw [htt,Function.update_self]
    exact hnext
  · rw [Function.update_of_ne htt]
    exact h.tasks t'

variable [DecidableEq I]

private theorem rests_publish {live : I → Snapshot P} {s : PeerState P} (h : s.Rests live) (i : I) :
    (s.publishGeneration i (live i)).Rests live := by
  refine ⟨h.unchanged,fun k r hr => ?_,fun n y hy => ?_,h.tasks⟩
  · rw [PeerState.publishGeneration_instances] at hr
    by_cases hk : k = i
    · rw [hk,Function.update_self] at hr
      rw [hk]
      exact (Option.some.inj hr).symm
    · rw [Function.update_of_ne hk] at hr
      exact h.records k r hr
  · rw [PeerState.publishGeneration_configs] at hy
    by_cases hn : n = (live i).generation
    · rw [hn,Function.update_self] at hy
      exact ⟨i,hn.symm,Option.some.inj hy⟩
    · rw [Function.update_of_ne hn] at hy
      exact h.configs n y hy

variable [DecidableEq Hash]

private theorem rests_next {live : I → Snapshot P} (hl : Apart live) {s : PeerState P} (h : s.Rests live) {t : ℕ} {next : PeerTask P}
    (hnext : PeerState.Next s t next) : next.Rests live := by
  have htask := h.tasks t
  cases hnext with
  | idle => trivial
  | watching => trivial
  | publishing => exact congrFun h.unchanged _
  | converging =>
    intro r hr
    obtain ⟨k,hk⟩ := PeerState.mem_watchGenerations hr
    exact ⟨k,h.records k r hk⟩
  | @loading i instances target ht htarget =>
    rw [ht] at htask
    rw [h.unchanged] at htarget
    obtain ⟨hmem,hlt,hhash⟩ := convergeTarget_mem htarget
    obtain ⟨k,rfl⟩ := htask target hmem
    rcases hl i k hlt with he | hrejects
    · exact absurd he hhash
    · exact hrejects
  | @loaded i target yaml ht hyaml =>
    rw [ht] at htask
    obtain ⟨l,hl,rfl⟩ := h.configs _ _ hyaml
    exact htask l hl

private theorem rests_step {live : I → Snapshot P} (hl : Apart live) {s s' : PeerState P} {a : PeerLabel I Gateway} (h : s.Rests live)
    (ha : ∀ i g, a ≠ .reload i g) (hm : PeerState.Move s a s') : s'.Rests live := by
  cases hm with
  | rejected => exact absurd rfl (ha _ _)
  | reload => exact absurd rfl (ha _ _)
  | goto hnext => exact rests_goto h _ (rests_next hl h hnext)
  | @write t order i snapshot polling ht =>
    have htask := h.tasks t
    rw [ht] at htask
    rw [show snapshot = live i from htask]
    cases polling with
    | false => exact rests_goto (rests_publish h i) t trivial
    | true => exact rests_goto (rests_publish h i) t trivial
  | @converge t order i target yaml snapshot ht hs =>
    have htask := h.tasks t
    rw [ht] at htask
    obtain ⟨g,hparse,hg⟩ := Option.bind_eq_some_iff.mp hs
    rw [Snapshot.compileAndPublish,htask g hparse] at hg
    cases hg
  | expireInstances => exact ⟨h.unchanged,fun _ _ hr => (by cases hr),h.configs,h.tasks⟩
  | expireConfig => exact ⟨h.unchanged,h.records,fun n y hy => h.configs n y (PeerState.configs_of_expireConfig hy),h.tasks⟩

end Rests

section Polls
variable [Fintype I] [DecidableEq I] [DecidableEq Hash]

/-- Polls, however interleaved, lead from `s` to `s'`. -/
def PollsTo (s s' : PeerState P) : Prop := ∃ as, (∀ a ∈ as, PeerLabel.Polls a) ∧ (peersFrom s).run as = some s'

theorem PollsTo.refl (s : PeerState P) : PollsTo s s := ⟨[],fun _ h => absurd h List.not_mem_nil,rfl⟩

theorem PollsTo.step {s s' s'' : PeerState P} (h : PollsTo s s') {a : PeerLabel I Gateway} (ha : a.Polls)
    (hs : s'.step a = some s'') : PollsTo s s'' := by
  obtain ⟨as,has,hr⟩ := h
  refine ⟨as ++ [a],fun b hb => ?_,(System.run_concat_eq_some _).mpr ⟨s',hr,hs⟩⟩
  rcases List.mem_append.mp hb with hb | hb
  · exact has b hb
  · rw [List.mem_singleton.mp hb]
    exact ha

/-- What polls preserve step by step holds wherever they lead. -/
theorem PollsTo.inv {s s' : PeerState P} (h : PollsTo s s') (Q : PeerState P → Prop) (hs : Q s)
    (hstep : ∀ r a r', Q r → PeerLabel.Polls a → PeerState.Move r a r' → Q r') : Q s' := by
  obtain ⟨as,has,hr⟩ := h
  refine System.guarded_inv Q hs ?_ (System.along_of_forall_mem has) hr
  exact fun r a r' hq ha hr => hstep r a r' hq ha (PeerState.step_move hr)

namespace PeerState

/-- No polls, once over, change what any instance serves. -/
def Quiescent (s : PeerState P) : Prop :=
  s.Idle ∧ ∀ s', PollsTo s s' → s'.Idle → ∀ k, (s'.live k).contentHash = (s.live k).contentHash

def Uniform (s : PeerState P) : Prop := ∀ i k, (s.live i).contentHash = (s.live k).contentHash

/-- All instances are at one generation number. -/
def Level (s : PeerState P) : Prop := ∀ i k, (s.live i).generation = (s.live k).generation

end PeerState

theorem PollsTo.call {s s' s'' : PeerState P} (h : PollsTo s s') (t : ℕ) (order : List I) (hs : s'.callStep t order = some s'') :
    PollsTo s s'' :=
  h.step (show PeerLabel.Polls (.call t order) from trivial) hs

private theorem call_publishing (s : PeerState P) (t : ℕ) (order : List I) (i : I) (snapshot : Snapshot P) (polling : Bool) :
    (s.goto t (.publishing i snapshot polling)).callStep t order =
      some ((s.publishGeneration i snapshot).goto t (if polling then .watching i else .idle)) := by
  simp only [PeerState.callStep,PeerState.goto_tasks_self]
  exact congrArg some (PeerState.goto_goto (s.publishGeneration i snapshot) t _ _)

private theorem call_watching (s : PeerState P) (t : ℕ) {order : List I} (i : I) (horder : order.Nodup ∧ ∀ k, k ∈ order) :
    (s.goto t (.watching i)).callStep t order = some (s.goto t (.converging i (s.watchGenerations order))) := by
  simp only [PeerState.callStep,PeerState.goto_tasks_self,PeerState.goto_goto,if_pos horder]
  rfl

/-- An idle instance that polls publishes what it serves and reads the backend. -/
private theorem poll_watches {s : PeerState P} (h : s.Idle) (i : I) {order : List I} (horder : order.Nodup ∧ ∀ k, k ∈ order) :
    PollsTo s ((s.publishGeneration i (s.live i)).goto 0
      (.converging i ((s.publishGeneration i (s.live i)).watchGenerations order))) := by
  have hpoll : s.step (.poll 0 i) = some (s.goto 0 (.publishing i (s.live i) true)) := by
    simp only [PeerState.step,h 0]
  have hread := (PollsTo.refl s).step (show PeerLabel.Polls (.poll 0 i) from trivial) hpoll
  have hwrite := hread.call 0 order (call_publishing s 0 order i (s.live i) true)
  exact hwrite.call 0 order (call_watching _ 0 i horder)

/-- A poll that finds no record to go for is over. -/
private theorem poll_keeps {s : PeerState P} (h : s.Idle) (i : I) {order : List I} (horder : order.Nodup ∧ ∀ k, k ∈ order)
    (hnone : convergeTarget (s.live i) i ((s.publishGeneration i (s.live i)).watchGenerations order) = none) :
    PollsTo s ((s.publishGeneration i (s.live i)).goto 0 .idle) := by
  refine (poll_watches h i horder).call 0 order ?_
  simp only [PeerState.callStep,PeerState.goto_tasks_self,PeerState.goto_live,PeerState.publishGeneration_live,hnone,
    PeerState.goto_goto]

/-- A poll that finds a record and adopts the body of its number publishes that one. -/
private theorem poll_adopts {s : PeerState P} (h : s.Idle) (i : I) {order : List I} (horder : order.Nodup ∧ ∀ k, k ∈ order)
    {target : InstanceGeneration I Hash} {yaml : Yaml} {snapshot : Snapshot P}
    (htarget : convergeTarget (s.live i) i ((s.publishGeneration i (s.live i)).watchGenerations order) = some target)
    (hyaml : (s.publishGeneration i (s.live i)).configs target.generation = some yaml)
    (hs : (P.parseGateway yaml).bind ((s.live i).compileAndPublish i) = some snapshot) :
    PollsTo s ((((s.publishGeneration i (s.live i)).serve i snapshot).publishGeneration i snapshot).goto 0 .idle) := by
  have hload : PollsTo s ((s.publishGeneration i (s.live i)).goto 0 (.loading i target)) := by
    refine (poll_watches h i horder).call 0 order ?_
    simp only [PeerState.callStep,PeerState.goto_tasks_self,PeerState.goto_live,PeerState.publishGeneration_live,htarget,
      PeerState.goto_goto]
  have hloaded : PollsTo s ((s.publishGeneration i (s.live i)).goto 0 (.loaded i target yaml)) := by
    refine hload.call 0 order ?_
    simp only [PeerState.callStep,PeerState.goto_tasks_self,PeerState.goto_configs,hyaml,PeerState.goto_goto]
  have hserved : PollsTo s (((s.publishGeneration i (s.live i)).serve i snapshot).goto 0 (.converged i)) := by
    refine hloaded.call 0 order ?_
    simp only [PeerState.callStep,PeerState.goto_tasks_self,PeerState.goto_live,PeerState.publishGeneration_live,hs]
    exact congrArg some (PeerState.goto_goto ((s.publishGeneration i (s.live i)).serve i snapshot) 0 _ _)
  have hread : PollsTo s (((s.publishGeneration i (s.live i)).serve i snapshot).goto 0 (.publishing i snapshot false)) := by
    refine hserved.call 0 order ?_
    simp only [PeerState.callStep,PeerState.goto_tasks_self,PeerState.goto_live,PeerState.serve_live,Function.update_self,
      PeerState.goto_goto]
  exact hread.call 0 order (call_publishing _ 0 order i snapshot false)

theorem PollsTo.trans {s s' s'' : PeerState P} (h : PollsTo s s') (h' : PollsTo s' s'') : PollsTo s s'' := by
  obtain ⟨as,has,hr⟩ := h
  obtain ⟨bs,hbs,hr'⟩ := h'
  refine ⟨as ++ bs,fun a ha => ?_,?_⟩
  · rcases List.mem_append.mp ha with ha | ha
    · exact has a ha
    · exact hbs a ha
  · rw [System.run_append,hr]
    exact hr'

private theorem exists_order_last (j : I) : ∃ order : List I, (order.Nodup ∧ ∀ k, k ∈ order) ∧ ∃ pre, order = pre ++ [j] := by
  refine ⟨(Finset.univ.erase j).toList ++ [j],⟨?_,fun k => ?_⟩,_,rfl⟩
  · rw [List.nodup_append]
    refine ⟨Finset.nodup_toList _,List.nodup_singleton j,fun a ha b hb => ?_⟩
    rw [List.mem_singleton.mp hb]
    exact (Finset.mem_erase.mp (Finset.mem_toList.mp ha)).1
  · by_cases hk : k = j
    · exact List.mem_append_right _ (List.mem_singleton.mpr hk)
    · exact List.mem_append_left _ (Finset.mem_toList.mpr (Finset.mem_erase.mpr ⟨hk,Finset.mem_univ k⟩))

/-- Where the polls rest, an instance below the highest number serves the hash of every
instance at that number, unless it rejects its text. -/
theorem quiescent_agrees {s : PeerState P} (hb : Behind s) (hq : s.Quiescent) {i j : I}
    (hmax : ∀ k, (s.live k).generation ≤ (s.live j).generation) (hlt : (s.live i).generation < (s.live j).generation)
    (hr : ¬ P.Rejects i (s.live j).yaml) : (s.live i).contentHash = (s.live j).contentHash := by
  by_contra hhash
  obtain ⟨order,horder,pre,rfl⟩ := exists_order_last j
  have hb₁ : Behind (s.publishGeneration j (s.live j)) := hb.publishGeneration (le_refl _)
  have hpolled := poll_keeps hq.1 j horder (convergeTarget_top hb₁ hmax _)
  have hidle := hq.1.goto 0 (PeerState.publishGeneration_tasks s j (s.live j))
  have hb₂ : Behind (((s.publishGeneration j (s.live j)).goto 0 .idle).publishGeneration i (s.live i)) :=
    (hb₁.goto_idle 0).publishGeneration (le_refl _)
  have hji : j ≠ i := by
    rintro rfl
    exact hhash rfl
  have hrecord : ((s.publishGeneration j (s.live j)).publishGeneration i (s.live i)).instances j = some ((s.live j).record j) := by
    rw [PeerState.publishGeneration_instances,Function.update_of_ne hji,PeerState.publishGeneration_instances,
      Function.update_self]
  have hbody : ((s.publishGeneration j (s.live j)).publishGeneration i (s.live i)).configs (s.live j).generation =
      some (s.live j).yaml := by
    rw [PeerState.publishGeneration_configs,Function.update_of_ne (Nat.ne_of_gt hlt),PeerState.publishGeneration_configs,
      Function.update_self]
  obtain ⟨snapshot,hs,hadopted⟩ := adopt_of_not_rejects (s.live j).normalized hr
  have htarget := convergeTarget_last hb₂ hmax hlt (fun he => hhash he.symm) hrecord pre
  have hadopts := hpolled.trans (poll_adopts hidle i horder htarget hbody hs)
  have hsame := hq.2 _ hadopts (hidle.goto 0 rfl) i
  rw [PeerState.goto_live,PeerState.publishGeneration_live,PeerState.serve_live,Function.update_self,hadopted] at hsame
  exact hhash hsame.symm

/-- An instance refuses the text of an instance ahead of it. -/
def PeerState.Refuses (s : PeerState P) : Prop :=
  ∃ i j, (s.live i).generation < (s.live j).generation ∧ P.Rejects i (s.live j).yaml

theorem quiescent_settled {s : PeerState P} (hb : Behind s) (hq : s.Quiescent) : s.Uniform ∨ s.Level ∨ s.Refuses := by
  by_cases hrefuses : s.Refuses
  · exact .inr (.inr hrefuses)
  by_cases hlevel : s.Level
  · exact .inr (.inl hlevel)
  left
  have hagrees : ∀ i j, (∀ k, (s.live k).generation ≤ (s.live j).generation) → (s.live i).generation < (s.live j).generation →
      (s.live i).contentHash = (s.live j).contentHash :=
    fun i j hmax hlt => quiescent_agrees hb hq hmax hlt fun hr => hrefuses ⟨i,j,hlt,hr⟩
  rw [PeerState.Level] at hlevel
  push Not at hlevel
  obtain ⟨a,b,hab⟩ := hlevel
  obtain ⟨top,-,htop⟩ := Finset.exists_max_image Finset.univ (fun k => (s.live k).generation) ⟨a,Finset.mem_univ a⟩
  have hmax : ∀ k, (s.live k).generation ≤ (s.live top).generation := fun k => htop k (Finset.mem_univ k)
  -- one of the two is below the highest number; it serves what every instance at that number serves
  obtain ⟨low,hlow⟩ : ∃ low, (s.live low).generation < (s.live top).generation := by
    rcases Nat.lt_or_ge (s.live a).generation (s.live top).generation with ha | ha
    · exact ⟨a,ha⟩
    · exact ⟨b,Nat.lt_of_le_of_ne (hmax b) fun hb => hab (by rw [hb]; exact Nat.le_antisymm (hmax a) ha)⟩
  have hall : ∀ k, (s.live k).contentHash = (s.live top).contentHash := by
    intro k
    rcases Nat.lt_or_ge (s.live k).generation (s.live top).generation with hk | hk
    · exact hagrees k top hmax hk
    · rw [← hagrees low top hmax hlow,hagrees low k (fun l => (hmax l).trans hk) (Nat.lt_of_lt_of_le hlow hk)]
  exact fun i k => (hall i).trans (hall k).symm

/-- Instances that start on an empty backend and cannot adopt from one another rest
wherever publishes and polls lead. -/
theorem quiescent_of_apart {live : I → Snapshot P} (hl : Apart live) {as : List (PeerLabel I Gateway)} {s : PeerState P}
    (has : ∀ a ∈ as, ∀ i g, a ≠ .reload i g) (hr : (peersFrom ⟨live,fun _ => none,fun _ => none,fun _ => .idle⟩).run as = some s)
    (hi : s.Idle) : s.Quiescent := by
  have hstep : ∀ r a r', r.Rests live → (∀ i g, a ≠ .reload i g) → PeerState.step r a = some r' → r'.Rests live :=
    fun r a r' h ha hs => rests_step hl h ha (PeerState.step_move hs)
  have hrests : s.Rests live := by
    refine System.guarded_inv (fun r => r.Rests live) ⟨rfl,?_,?_,fun _ => trivial⟩ hstep (System.along_of_forall_mem has) hr
    · intro _ _ h
      cases h
    · intro _ _ h
      cases h
  refine ⟨hi,fun s' hs' _ k => ?_⟩
  have hend : s'.Rests live := by
    refine hs'.inv (fun r => r.Rests live) hrests fun r a r' h ha hm => rests_step hl h ?_ hm
    rintro i g rfl
    exact ha
  rw [hend.unchanged,hrests.unchanged]

end Polls

/-- Instance 2 refuses configuration 9; a configuration is its own text and hash. -/
def plain : Pipeline (Fin 3) ℕ ℕ ℕ := ⟨fun i g => ¬ (i = 2 ∧ g = 9),some,some,id,fun _ y _ => ⟨y,rfl,rfl⟩⟩

/-- Instance `i` starts with configuration `i`. -/
def plainStartup (i : Fin 3) : Snapshot plain := ⟨1,i,i,rfl⟩

/-- All instances publish what they serve. -/
def publishAll : List (PeerLabel (Fin 3) ℕ) := [.publish 0 0,.call 0 [],.publish 0 1,.call 0 [],.publish 0 2,.call 0 []]

private theorem publishAll_no_reload : ∀ a ∈ publishAll, ∀ i g, a ≠ .reload i g := by
  simp [publishAll]

/-- Three instances at number 1 with three configurations, for good. -/
theorem tied_quiescent : ∃ s, (peers plain plainStartup).run publishAll = some s ∧ s.Quiescent ∧ ¬ s.Uniform := by
  have hapart : Apart plainStartup := by
    intro i k h
    exact absurd h (by revert i k; decide)
  refine ⟨_,rfl,quiescent_of_apart hapart publishAll_no_reload rfl ?_,?_⟩
  · rintro (_ | t) <;> rfl
  · intro h
    exact absurd (h 0 1) (by decide)

/-- Instances 0 and 1 serve configuration 9 under number 2. -/
def ahead : Fin 3 → Snapshot plain := Function.update (Function.update plainStartup 0 ⟨2,9,9,rfl⟩) 1 ⟨2,9,9,rfl⟩

/-- Instance 2 keeps refusing the configuration the others moved on to. -/
theorem refused_quiescent : ∃ s, (peers plain plainStartup).run (.reload 0 9 :: .reload 1 9 :: publishAll) = some s ∧
    s.Quiescent ∧ ¬ s.Uniform ∧ ¬ s.Level := by
  have hapart : Apart ahead := by
    intro i k h
    have hi : i = 2 := by
      revert i k
      decide
    refine .inr fun l hl g hg => ?_
    obtain rfl := hi
    obtain rfl := Option.some.inj hg
    revert k l
    decide
  refine ⟨_,rfl,quiescent_of_apart hapart publishAll_no_reload rfl ?_,?_,?_⟩
  · rintro (_ | t) <;> rfl
  · intro h
    exact absurd (h 0 2) (by decide)
  · intro h
    exact absurd (h 0 2) (by decide)

/-- Instances 0 and 1 reach number 2; instance 2 goes for the record of 0 and loads the
text of 1. -/
def overwritten : List (PeerLabel (Fin 3) ℕ) :=
  [.reload 0 10,.reload 1 11,.publish 0 0,.call 0 [],.publish 0 1,.call 0 [],
    .poll 0 2,.call 0 [],.call 0 [2,1,0],.call 0 [],.call 0 []]

theorem overwritten_adopted : ¬ (peers plain plainStartup).Along AdoptsTarget (overwritten ++ [.call 0 []]) := by
  intro h
  have hhash := h.last rfl 2 ⟨0,2,10⟩ 11 ⟨2,11,11,rfl⟩ rfl rfl
  exact absurd hhash (by decide)

/-- Instance 0 moves on to configuration 10 and instance 2 adopts it. -/
def adopting : List (PeerLabel (Fin 3) ℕ) :=
  [.reload 0 10,.publish 0 0,.call 0 [],.poll 0 2,.call 0 [],.call 0 [2,1,0],.call 0 [],.call 0 [],.call 0 []]

private theorem adopting_keeps : (peers plain plainStartup).Along KeepsBodies adopting := by
  apply System.along_of_alongFrom
  refine ⟨trivial,trivial,?_,trivial,?_,trivial,trivial,trivial,trivial,trivial⟩
  · rintro r (⟨k,hk⟩ | ⟨t,ht⟩) hgen
    · cases hk
    · rcases t with _ | t <;> exact ht.elim
  · rintro r (⟨k,hk⟩ | ⟨t,ht⟩) hgen
    · have hk₀ : k = 0 := by
        by_contra hne
        cases (Function.update_of_ne hne _ _).symm.trans hk
      obtain rfl := hk₀
      obtain rfl := Option.some.inj hk
      cases hgen
    · rcases t with _ | t <;> exact ht.elim

end Dwara.Dataplane
