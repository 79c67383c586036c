import Dwara.Dataplane.CacheGenerations

/-! What an epoch of a route stands for, as long as the gateway runs, and so what is replayed from
the cache. -/

namespace Dwara.Dataplane.CacheGenerations
open Dwara.Lib Dwara.Snapshot Dwara.Dataplane.ResponseCache

section Keys
variable {sha256Hex : List UInt8 → String}

theorem bytes_injective : Function.Injective bytes := by
  intro a b h
  rw [bytes,bytes] at h
  exact String.toByteArray_inj.mp (ByteArray.ext (Array.toList_inj.mp h))

/-- A list without zeros is what stands before the first zero. -/
theorem takeWhile_zero {xs : List UInt8} (hxs : 0 ∉ xs) (ys : List UInt8) : (xs ++ 0 :: ys).takeWhile (· != 0) = xs := by
  rw [List.takeWhile_append_of_pos]
  · rw [List.takeWhile_cons_of_neg (by simp),List.append_nil]
  · intro b hb
    exact bne_iff_ne.mpr fun h => hxs (h ▸ hb)

/-- The key tells the route. -/
theorem route_of_deriveKey (hsha : Function.Injective sha256Hex) {route route' : String} {k k' : KeyParts} (h : 0 ∉ bytes route)
    (h' : 0 ∉ bytes route') (hkey : deriveKey sha256Hex route k = deriveKey sha256Hex route' k') : route = route' := by
  have hlist := congrArg String.toList hkey
  rw [deriveKey,deriveKey,String.toList_append,String.toList_append] at hlist
  have hinput := hsha (String.toList_inj.mp (List.append_cancel_left hlist))
  simp only [List.append_assoc,List.cons_append,List.nil_append] at hinput
  have hnames := congrArg (List.takeWhile (· != 0)) (List.append_cancel_left hinput)
  rw [takeWhile_zero h,takeWhile_zero h'] at hnames
  exact bytes_injective hnames

end Keys

variable {δ : Type}

/-- How far a list of bumps gets. -/
theorem foldl_bump (names : List String) (epochs : String → ℕ) (name : String) :
    names.foldl bump epochs name = epochs name + names.count name := by
  induction names generalizing epochs with
  | nil => rfl
  | cons n names ih =>
    rw [List.foldl_cons,ih,bump,List.count_cons]
    by_cases h : n = name
    · subst h
      rw [Function.update_self,if_pos (beq_self_eq_true _)]
      omega
    · rw [Function.update_of_ne (Ne.symm h),if_neg (by simpa using h)]
      omega

theorem Snapshot.mem_of_route {c : Snapshot δ} {name : String} {route : Route δ} (h : c.route name = some route) :
    route ∈ c.routes ∧ route.name = name := by
  rw [Snapshot.route] at h
  have hname := List.find?_some h
  exact ⟨List.mem_of_find?_eq_some h,of_decide_eq_true hname⟩

theorem le_noteGeneration [DecidableEq δ] (epochs : String → ℕ) (old fresh : Snapshot δ) (name : String) :
    epochs name ≤ noteGeneration epochs old fresh name := by
  rw [noteGeneration,foldl_bump]
  exact Nat.le_add_right _ _

/-- The routes whose definition is another advance. -/
theorem lt_noteGeneration [DecidableEq δ] {epochs : String → ℕ} {old fresh : Snapshot δ} {name : String}
    (h : old.route name ≠ fresh.route name) : epochs name < noteGeneration epochs old fresh name := by
  rw [noteGeneration,foldl_bump]
  refine Nat.lt_add_of_pos_right (List.count_pos_iff.mpr (List.mem_map.mpr ?_))
  cases hfresh : fresh.route name with
  | some route =>
    obtain ⟨hmem,rfl⟩ := Snapshot.mem_of_route hfresh
    exact ⟨route,List.mem_append_left _ (List.mem_filter.mpr ⟨hmem,decide_eq_true (hfresh ▸ h)⟩),rfl⟩
  | none =>
    obtain ⟨route,hold⟩ := Option.ne_none_iff_exists'.mp (hfresh ▸ h)
    obtain ⟨hmem,rfl⟩ := Snapshot.mem_of_route hold
    exact ⟨route,List.mem_append_right _ (List.mem_filter.mpr ⟨hmem,by rw [hfresh]; rfl⟩),rfl⟩

/-- What an epoch of a route stands for: its definition, and how often it had been purged. -/
structure Annal (δ : Type) where
  route : Option (Route δ)
  purges : ℕ

section Kept
variable (sha256Hex : List UInt8 → String) (strict : Prop) (annals : String → ℕ → Annal δ) (epochs : String → ℕ)

/-- An entry of an epoch: stored within it, and, where it matters, shaped as the epoch stands for. -/
structure Kept (name : String) (epoch : ℕ) (entry : Entry δ) : Prop where
  within : entry.envelope.epoch = epoch
  purges : (annals name epoch).purges ≤ entry.purges
  shape : strict → (annals name epoch).route = some entry.shape

/-- A request under the definition that the epoch it has read stands for. -/
structure Traced (flow : Flow δ) : Prop where
  plain : 0 ∉ bytes flow.route.name
  key : ∃ parts, flow.key = deriveKey sha256Hex flow.route.name parts
  getKey : ∃ parts, flow.getKey = deriveKey sha256Hex flow.route.name parts
  epoch : flow.epoch ≤ epochs flow.route.name
  purges : (annals flow.route.name flow.epoch).purges = flow.purges
  shape : strict → (annals flow.route.name flow.epoch).route = some flow.route
  stored : ∀ entry, flow.stored = some entry → Kept strict annals flow.route.name flow.epoch entry

/-- What a phase carries belongs to the epoch that was read. -/
def Phase.Ok : Phase δ → Prop
  | .matched _ _ _ => True
  | .done => True
  | .refreshing flow via => Traced sha256Hex strict annals epochs flow ∧ (strict → (annals flow.route.name flow.epoch).route = some via)
  | .fetched flow entry => Traced sha256Hex strict annals epochs flow ∧ Kept strict annals flow.route.name flow.epoch entry
  | .storing flow entry => Traced sha256Hex strict annals epochs flow ∧ Kept strict annals flow.route.name flow.epoch entry
  | .loaded flow _ => Traced sha256Hex strict annals epochs flow
  | .keyed flow => Traced sha256Hex strict annals epochs flow
  | .headKeyed flow => Traced sha256Hex strict annals epochs flow
  | .missed flow => Traced sha256Hex strict annals epochs flow
  | .parked flow => Traced sha256Hex strict annals epochs flow
  | .woken flow => Traced sha256Hex strict annals epochs flow
  | .fetching flow => Traced sha256Hex strict annals epochs flow
  | .spawned flow => Traced sha256Hex strict annals epochs flow

/-- The annals tell what is, and what is stored and under way belongs to the epochs they tell of. -/
structure Told (s : Cache δ) : Prop where
  purges : ∀ name, (annals name (s.epochs name)).purges = s.purges name
  route : strict → ∀ name, (annals name (s.epochs name)).route = s.noted.route name
  past : ∀ name n, n ≤ s.epochs name → (annals name n).purges ≤ s.purges name
  store : ∀ key entry, s.store key = some entry → ∃ name parts, key = deriveKey sha256Hex name parts ∧ 0 ∉ bytes name ∧
    entry.envelope.epoch ≤ s.epochs name ∧ Kept strict annals name entry.envelope.epoch entry
  phases : ∀ p ∈ s.phases, p.Ok sha256Hex strict annals s.epochs

end Kept

/-- Some annals tell how it came to be. -/
def Cache.Chronicled (sha256Hex : List UInt8 → String) (strict : Prop) (s : Cache δ) : Prop := ∃ annals, Told sha256Hex strict annals s

section Runs
variable {sha256Hex : List UInt8 → String} {strict : Prop} {annals annals' : String → ℕ → Annal δ} {epochs epochs' : String → ℕ}
  {s s' : Cache δ} {flow : Flow δ} {entry : Entry δ}

theorem Kept.extend {name : String} {epoch : ℕ} (h : Kept strict annals name epoch entry) (heq : annals' name epoch = annals name epoch) :
    Kept strict annals' name epoch entry :=
  ⟨h.within,heq ▸ h.purges,heq ▸ h.shape⟩

theorem Traced.extend (h : Traced sha256Hex strict annals epochs flow) (hle : ∀ name, epochs name ≤ epochs' name)
    (heq : ∀ name n, n ≤ epochs name → annals' name n = annals name n) : Traced sha256Hex strict annals' epochs' flow := by
  have hnow := heq _ _ h.epoch
  exact ⟨h.plain,h.key,h.getKey,h.epoch.trans (hle _),hnow ▸ h.purges,hnow ▸ h.shape,fun entry he => (h.stored entry he).extend hnow⟩

theorem Phase.Ok.extend {p : Phase δ} (h : p.Ok sha256Hex strict annals epochs) (hle : ∀ name, epochs name ≤ epochs' name)
    (heq : ∀ name n, n ≤ epochs name → annals' name n = annals name n) : p.Ok sha256Hex strict annals' epochs' := by
  cases p with
  | matched => trivial
  | done => trivial
  | refreshing flow via => exact ⟨h.1.extend hle heq,heq _ _ h.1.epoch ▸ h.2⟩
  | fetched flow entry => exact ⟨h.1.extend hle heq,h.2.extend (heq _ _ h.1.epoch)⟩
  | storing flow entry => exact ⟨h.1.extend hle heq,h.2.extend (heq _ _ h.1.epoch)⟩
  | loaded flow via => exact Traced.extend h hle heq
  | keyed flow => exact Traced.extend h hle heq
  | headKeyed flow => exact Traced.extend h hle heq
  | missed flow => exact Traced.extend h hle heq
  | parked flow => exact Traced.extend h hle heq
  | woken flow => exact Traced.extend h hle heq
  | fetching flow => exact Traced.extend h hle heq
  | spawned flow => exact Traced.extend h hle heq

namespace Told

theorem init (start : Snapshot δ) :
    Told sha256Hex strict (fun name _ => ⟨start.route name,0⟩) { published := start, current := start, noted := start } where
  purges _ := rfl
  route _ _ := rfl
  past _ _ _ := le_rfl
  store _ _ h := nomatch h
  phases _ h := absurd h List.not_mem_nil

/-- Where a route advances a new chapter is begun, and the rest stays as it is told. -/
theorem advance (h : Told sha256Hex strict annals s) {noted : Snapshot δ} {purges : String → ℕ} {refreshes : List (Refresh δ)}
    (hstep : ∀ name, s.epochs name < epochs' name ∧ s.purges name ≤ purges name ∨
      epochs' name = s.epochs name ∧ purges name = s.purges name ∧ (strict → noted.route name = s.noted.route name)) :
    Cache.Chronicled sha256Hex strict { s with noted, epochs := epochs', purges, refreshes } := by
  have hle : ∀ name, s.epochs name ≤ epochs' name := fun name => (hstep name).elim (·.1.le) (·.1.ge)
  have hmono : ∀ name, s.purges name ≤ purges name := fun name => (hstep name).elim (·.2) (·.2.1.ge)
  let annals' : String → ℕ → Annal δ := fun name n => if n ≤ s.epochs name then annals name n else ⟨noted.route name,purges name⟩
  have heq : ∀ name n, n ≤ s.epochs name → annals' name n = annals name n := fun name n hn => if_pos hn
  refine ⟨annals',fun name => ?_,fun hs name => ?_,fun name n hn => ?_,fun key entry he => ?_,fun p hp => (h.phases p hp).extend hle heq⟩
  · obtain ⟨hlt,-⟩ | ⟨hsame,hpurges,-⟩ := hstep name
    · exact congrArg Annal.purges (if_neg hlt.not_ge)
    · dsimp only
      rw [hsame,heq name _ le_rfl,h.purges,hpurges]
  · obtain ⟨hlt,-⟩ | ⟨hsame,-,hnoted⟩ := hstep name
    · exact congrArg Annal.route (if_neg hlt.not_ge)
    · dsimp only
      rw [hsame,heq name _ le_rfl,h.route hs,hnoted hs]
  · by_cases hold : n ≤ s.epochs name
    · rw [heq name n hold]
      exact (h.past name n hold).trans (hmono name)
    · exact (congrArg Annal.purges (if_neg hold)).le
  · obtain ⟨name,parts,hkey,hplain,hepoch,hkept⟩ := h.store key entry he
    exact ⟨name,parts,hkey,hplain,hepoch.trans (hle name),hkept.extend (heq name _ hepoch)⟩

theorem goto (h : Told sha256Hex strict annals s) (i : ℕ) (p : Phase δ) (hp : p.Ok sha256Hex strict annals s.epochs) :
    Told sha256Hex strict annals (s.goto i p) where
  purges := h.purges
  route := h.route
  past := h.past
  store := h.store
  phases q hq := by
    obtain hq | rfl := List.mem_or_eq_of_mem_set hq
    · exact h.phases q hq
    · exact hp

theorem push (h : Told sha256Hex strict annals s) (p : Phase δ) (hp : p.Ok sha256Hex strict annals s.epochs) :
    Told sha256Hex strict annals { s with phases := s.phases ++ [p] } where
  purges := h.purges
  route := h.route
  past := h.past
  store := h.store
  phases q hq := by
    obtain hq | hq := List.mem_append.mp hq
    · exact h.phases q hq
    · exact List.mem_singleton.mp hq ▸ hp

theorem drop (h : Told sha256Hex strict annals s) (key : String) : Told sha256Hex strict annals (s.drop key) where
  purges := h.purges
  route := h.route
  past := h.past
  store key' entry he := by
    dsimp only [Cache.drop] at he
    by_cases hk : key' = key
    · subst hk
      rw [Function.update_self] at he
      exact nomatch he
    · rw [Function.update_of_ne hk] at he
      exact h.store key' entry he
  phases := h.phases

/-- An entry of the epoch of its flow is stored under the key of the flow. -/
theorem keep (h : Told sha256Hex strict annals s) (hflow : Traced sha256Hex strict annals s.epochs flow)
    (hentry : Kept strict annals flow.route.name flow.epoch entry) :
    Told sha256Hex strict annals { s with store := Function.update s.store flow.key (some entry) } where
  purges := h.purges
  route := h.route
  past := h.past
  store key e he := by
    dsimp only at he
    by_cases hk : key = flow.key
    · subst hk
      rw [Function.update_self] at he
      obtain rfl := Option.some.inj he
      obtain ⟨parts,hkey⟩ := hflow.key
      rw [hentry.within]
      exact ⟨flow.route.name,parts,hkey,hflow.plain,hflow.epoch,hentry⟩
    · rw [Function.update_of_ne hk] at he
      exact h.store key e he
  phases := h.phases

/-- What is found under a key of the flow, of its epoch, belongs to that epoch. -/
theorem found (h : Told sha256Hex strict annals s) (hsha : Function.Injective sha256Hex)
    (hflow : Traced sha256Hex strict annals s.epochs flow) {key : String} {parts : KeyParts}
    (hkey : key = deriveKey sha256Hex flow.route.name parts) (hentry : s.store key = some entry) (hepoch : entry.envelope.epoch = flow.epoch) :
    Kept strict annals flow.route.name flow.epoch entry := by
  obtain ⟨name,parts',hkey',hplain,-,hkept⟩ := h.store key entry hentry
  obtain rfl := route_of_deriveKey hsha hflow.plain hplain (hkey.symm.trans hkey')
  exact hepoch ▸ hkept

end Told

/-- What a replay has to be: of an entry that no purge has overtaken, and, where it matters, of the
shape its reader has. -/
def Replay.Right (strict : Prop) (r : Replay δ) : Prop := r.Unpurged ∧ (strict → r.Matches)

theorem Traced.right (hflow : Traced sha256Hex strict annals epochs flow) (hentry : Kept strict annals flow.route.name flow.epoch entry) :
    (flow.replay entry).Right strict :=
  ⟨hflow.purges.ge.trans hentry.purges,fun hs => Option.some.inj ((hentry.shape hs).symm.trans (hflow.shape hs))⟩

/-- It goes on as it is told, and what is replayed is right. -/
def Faithful (sha256Hex : List UInt8 → String) (strict : Prop) (annals : String → ℕ → Annal δ) (o : Cache δ × Option (Replay δ)) : Prop :=
  Told sha256Hex strict annals o.1 ∧ ∀ r, o.2 = some r → r.Right strict

theorem Told.silent (h : Told sha256Hex strict annals s) : Faithful sha256Hex strict annals (s,none) := ⟨h,nofun⟩

theorem Told.replays (h : Told sha256Hex strict annals s) (hflow : Traced sha256Hex strict annals epochs flow)
    (hentry : Kept strict annals flow.route.name flow.epoch entry) : Faithful sha256Hex strict annals (s,some (flow.replay entry)) :=
  ⟨h,fun _ hr => Option.some.inj hr ▸ hflow.right hentry⟩

theorem Traced.carry (hflow : Traced sha256Hex strict annals epochs flow) (hentry : Kept strict annals flow.route.name flow.epoch entry)
    (injectedInm : Bool) : Traced sha256Hex strict annals epochs { flow with stored := some entry, injectedInm } where
  plain := hflow.plain
  key := hflow.key
  getKey := hflow.getKey
  epoch := hflow.epoch
  purges := hflow.purges
  shape := hflow.shape
  stored _ he := Option.some.inj he ▸ hentry

variable {i now : ℕ} {via : Route δ} {resp : Fetched}

theorem faithful_answer (h : Told sha256Hex strict annals s) (hflow : Traced sha256Hex strict annals s.epochs flow)
    (hentry : Kept strict annals flow.route.name flow.epoch entry) : Faithful sha256Hex strict annals (s.answer i flow entry now) := by
  rw [Cache.answer]
  split_ifs
  · exact (h.goto i .done trivial).replays hflow hentry
  · have hended : Told sha256Hex strict annals (s.goto i .done) := h.goto i .done trivial
    exact (hended.push (.spawned { flow with stored := some entry, injectedInm := true }) (hflow.carry hentry true)).replays hflow hentry
  · exact (h.goto i (.missed _) (hflow.carry hentry _)).silent

theorem told_unanswered (h : Told sha256Hex strict annals s) (hflow : Traced sha256Hex strict annals s.epochs flow) :
    Told sha256Hex strict annals (s.unanswered i flow) := by
  rw [Cache.unanswered]
  split
  · exact h.goto i (.headKeyed flow) hflow
  · exact h.goto i (.missed flow) hflow

theorem faithful_get (h : Told sha256Hex strict annals s) (hsha : Function.Injective sha256Hex)
    (hflow : Traced sha256Hex strict annals s.epochs flow) : Faithful sha256Hex strict annals (s.get i flow now) := by
  obtain ⟨parts,hkey⟩ := hflow.key
  rw [Cache.get]
  cases hentry : s.store flow.key with
  | none => exact (told_unanswered h hflow).silent
  | some entry =>
    dsimp only
    split
    · rename_i hepoch
      exact faithful_answer h hflow (h.found hsha hflow hkey hentry hepoch)
    · exact (told_unanswered (h.drop flow.key) hflow).silent

theorem faithful_getHead (h : Told sha256Hex strict annals s) (hsha : Function.Injective sha256Hex)
    (hflow : Traced sha256Hex strict annals s.epochs flow) : Faithful sha256Hex strict annals (s.getHead i flow now) := by
  obtain ⟨parts,hkey⟩ := hflow.getKey
  rw [Cache.getHead]
  cases hentry : s.store flow.getKey with
  | none => exact (h.goto i (.missed flow) hflow).silent
  | some entry =>
    dsimp only
    split
    · rename_i hfresh
      exact (h.goto i .done trivial).replays hflow (h.found hsha hflow hkey hentry hfresh.1)
    · exact (h.goto i (.missed flow) hflow).silent

theorem faithful_reread (h : Told sha256Hex strict annals s) (hsha : Function.Injective sha256Hex)
    (hflow : Traced sha256Hex strict annals s.epochs flow) : Faithful sha256Hex strict annals (s.reread i flow) := by
  obtain ⟨parts,hkey⟩ := hflow.key
  rw [Cache.reread]
  cases hentry : s.store flow.key with
  | none => exact (h.goto i (.fetching flow) hflow).silent
  | some entry =>
    dsimp only
    split
    · rename_i hepoch
      exact (h.goto i .done trivial).replays hflow (h.found hsha hflow hkey hentry hepoch)
    · exact (h.goto i (.fetching flow) hflow).silent

/-- What a fetch leaves to be stored, or answers with, belongs to the epoch of its flow. -/
theorem told_finishMiss (h : Told sha256Hex strict annals s) (hflow : Traced sha256Hex strict annals s.epochs flow)
    (hvia : strict → (annals flow.route.name flow.epoch).route = some via) :
    Told sha256Hex strict annals (s.finishMiss i flow via resp now).1 ∧
      ∀ entry, (s.finishMiss i flow via resp now).2 = some entry → Kept strict annals flow.route.name flow.epoch entry := by
  have hdone : Told sha256Hex strict annals (s.goto i .done) := h.goto i .done trivial
  rw [Cache.finishMiss]
  split
  · cases hstored : flow.stored with
    | none => exact ⟨hdone,nofun⟩
    | some entry =>
      have hentry := hflow.stored entry hstored
      have hrefreshed : Kept strict annals flow.route.name flow.epoch { entry with envelope := { entry.envelope with storedAtMs := now } } :=
        ⟨hentry.within,hentry.purges,hentry.shape⟩
      dsimp only
      split
      · refine ⟨h.goto i (.fetched flow _) ⟨hflow,hrefreshed⟩,fun e he => ?_⟩
        split at he
        · exact Option.some.inj he ▸ hrefreshed
        · exact nomatch he
      · exact ⟨(h.drop flow.key).goto i .done trivial,nofun⟩
  split
  · exact ⟨hdone,fun e he => hflow.stored e (Option.filter_eq_some_iff.mp he).1⟩
  split
  · exact ⟨hdone,nofun⟩
  split
  · exact ⟨hdone,nofun⟩
  · split
    · exact ⟨h.goto i (.fetched flow _) ⟨hflow,rfl,h.past _ _ hflow.epoch,hvia⟩,nofun⟩
    · exact ⟨hdone,nofun⟩

theorem told_load (h : Told sha256Hex strict annals s) (hflow : Traced sha256Hex strict annals s.epochs flow) :
    Told sha256Hex strict annals (s.load i flow) := by
  rw [Cache.load]
  split
  · split
    · exact h.goto i (.loaded flow _) hflow
    · exact h.goto i .done trivial
  · exact h.goto i .done trivial

/-- What the request reads of the epoch is what the annals tell. -/
theorem traced_ofRequest (h : Told sha256Hex strict annals s) {route : Route δ} (policy : CompiledRouteCache) (req : CacheRequest)
    (hplain : 0 ∉ bytes route.name) (hcurrent : strict → s.noted.route route.name = some route) :
    Traced sha256Hex strict annals s.epochs
      (.ofRequest sha256Hex route policy req (s.epochs route.name) (s.purges route.name)) where
  plain := hplain
  key := ⟨_,rfl⟩
  getKey := ⟨_,rfl⟩
  epoch := le_rfl
  purges := h.purges route.name
  shape hs := (h.route hs route.name).trans (hcurrent hs)
  stored _ he := nomatch he

variable [DecidableEq δ] {event : CacheEvent δ} {r : Option (Replay δ)}

/-- A publish advances every route it changes, since it sees them all. -/
theorem chronicled_refreshStep (h : Told sha256Hex strict annals s) (hcurrent : strict → Current s event)
    (hs : s.refreshStep event = some s') : s'.Chronicled sha256Hex strict := by
  rw [Cache.refreshStep.eq_def] at hs
  split at hs
  · obtain rfl := Option.some.inj hs
    exact ⟨annals,h.purges,h.route,h.past,h.store,h.phases⟩
  · obtain rfl := Option.some.inj hs
    exact ⟨annals,h.purges,h.route,h.past,h.store,h.phases⟩
  · split at hs
    · obtain rfl := Option.some.inj hs
      exact ⟨annals,h.purges,h.route,h.past,h.store,h.phases⟩
    · exact nomatch hs
  · rename_i i
    split at hs
    · rename_i fresh previous hi
      obtain rfl := Option.some.inj hs
      refine h.advance fun name => ?_
      by_cases hsame : previous.route name = fresh.route name
      · obtain hkept | hlt := (le_noteGeneration s.epochs previous fresh name).eq_or_lt
        · exact .inr ⟨hkept.symm,rfl,fun hstrict => (hcurrent hstrict fresh previous hi name hsame).symm⟩
        · exact .inl ⟨hlt,le_rfl⟩
      · exact .inl ⟨lt_noteGeneration hsame,le_rfl⟩
    · exact nomatch hs
  · split at hs
    · obtain rfl := Option.some.inj hs
      exact ⟨annals,h.purges,h.route,h.past,h.store,h.phases⟩
    · exact nomatch hs
  · exact nomatch hs

/-- Every step leaves a cache whose annals can be told, and replays what is right. -/
theorem Cache.Chronicled.outcome (hsha : Function.Injective sha256Hex) (h : s.Chronicled sha256Hex strict) (hplain : Plain s event)
    (hcurrent : strict → Current s event) (hs : s.outcome sha256Hex event = some (s',r)) :
    s'.Chronicled sha256Hex strict ∧ ∀ replay, r = some replay → replay.Right strict := by
  obtain ⟨annals,h⟩ := h
  have hphase : ∀ {i : ℕ} {p : Phase δ}, s.phases[i]? = some p → p.Ok sha256Hex strict annals s.epochs :=
    fun hp => h.phases _ (List.mem_of_getElem? hp)
  have hfaithful : ∀ {o : Cache δ × Option (Replay δ)}, some o = some (s',r) → Faithful sha256Hex strict annals o →
      s'.Chronicled sha256Hex strict ∧ ∀ replay, r = some replay → replay.Right strict := by
    intro o ho hall
    obtain rfl := Option.some.inj ho
    exact ⟨⟨annals,hall.1⟩,hall.2⟩
  rw [Cache.outcome.eq_def] at hs
  split at hs
  · rename_i routes
    obtain ⟨rfl,rfl⟩ := Prod.mk.inj (Option.some.inj hs)
    refine ⟨h.advance fun name => ?_,nofun⟩
    rw [foldl_bump,foldl_bump]
    obtain hzero | hpos := Nat.eq_zero_or_pos (routes.count name)
    · exact .inr ⟨by omega,by omega,fun _ => rfl⟩
    · exact .inl ⟨by omega,by omega⟩
  · split at hs
    · split at hs
      · split at hs
        · exact nomatch hs
        · exact hfaithful hs (h.push (.matched _ _ _) trivial).silent
      · exact nomatch hs
    · exact nomatch hs
  · split at hs
    · rename_i route policy req hp
      have hflow := traced_ofRequest h policy req (hplain route policy req hp) fun hstrict => hcurrent hstrict route policy req hp
      exact hfaithful hs (h.goto _ (.keyed _) hflow).silent
    · exact nomatch hs
  · split at hs
    · rename_i flow hp
      exact hfaithful hs (faithful_get h hsha (hphase hp))
    · exact nomatch hs
  · split at hs
    · rename_i flow hp
      exact hfaithful hs (faithful_getHead h hsha (hphase hp))
    · exact nomatch hs
  · split at hs
    · rename_i flow hp
      have hflow : Traced sha256Hex strict annals s.epochs flow := hphase hp
      exact hfaithful hs (h.goto _ (.fetching flow) hflow).silent
    · exact nomatch hs
  · split at hs
    · rename_i flow hp
      have hflow : Traced sha256Hex strict annals s.epochs flow := hphase hp
      split at hs
      · exact hfaithful hs (h.goto _ (.parked flow) hflow).silent
      · exact nomatch hs
    · exact nomatch hs
  · split at hs
    · rename_i flow hp
      exact hfaithful hs (told_load h (hphase hp)).silent
    · exact nomatch hs
  · rename_i i
    split at hs
    · rename_i flow hp
      have hflow : Traced sha256Hex strict annals s.epochs flow := hphase hp
      split at hs
      · exact hfaithful hs (h.goto _ (.woken flow) hflow).silent
      · exact hfaithful hs (h.goto _ (.fetching flow) hflow).silent
    · rename_i flow via hp
      split at hs
      · rename_i hepoch
        have hflow : Traced sha256Hex strict annals s.epochs flow := hphase hp
        -- the epoch is still the one of the flow, so it stands for what is noted now
        have hvia : strict → (annals flow.route.name flow.epoch).route = some via := fun hstrict => by
          rw [← hepoch,h.route hstrict,hcurrent hstrict flow via hp hepoch]
        exact hfaithful hs (h.goto _ (.refreshing flow via) ⟨hflow,hvia⟩).silent
      · exact hfaithful hs (h.goto _ .done trivial).silent
    · exact nomatch hs
  · split at hs
    · rename_i flow hp
      exact hfaithful hs (faithful_reread h hsha (hphase hp))
    · exact nomatch hs
  · split at hs
    · rename_i flow hp
      have hflow : Traced sha256Hex strict annals s.epochs flow := hphase hp
      obtain ⟨htold,hkept⟩ := told_finishMiss h hflow hflow.shape
      refine hfaithful hs ⟨htold,fun replay hr => ?_⟩
      obtain ⟨entry,hentry,rfl⟩ := Option.map_eq_some_iff.mp hr
      exact hflow.right (hkept entry hentry)
    · rename_i flow via hp
      have hflow := hphase hp
      exact hfaithful hs (told_finishMiss h hflow.1 hflow.2).1.silent
    · exact nomatch hs
  · split at hs
    · rename_i flow entry hp
      have hkept := hphase hp
      split at hs
      · exact hfaithful hs (h.goto _ (.storing flow entry) hkept).silent
      · exact hfaithful hs (h.goto _ .done trivial).silent
    · exact nomatch hs
  · split at hs
    · rename_i flow entry hp
      have hkept := hphase hp
      exact hfaithful hs ((h.keep hkept.1 hkept.2).goto _ .done trivial).silent
    · exact nomatch hs
  · exact hfaithful hs (h.drop _).silent
  · obtain ⟨t,ht,ho⟩ := Option.map_eq_some_iff.mp hs
    obtain ⟨rfl,rfl⟩ := Prod.mk.inj ho
    exact ⟨chronicled_refreshStep h hcurrent ht,nofun⟩

variable {start : Snapshot δ}

/-- In every run whatever is replayed is right, as long as the epochs are read by those they are for. -/
theorem along_right (strict : Prop) (hsha : Function.Injective sha256Hex) {events : List (CacheEvent δ)}
    (hplain : (system sha256Hex start).Along Plain events) (hcurrent : strict → (system sha256Hex start).Along Current events) :
    (system sha256Hex start).Along (Replays sha256Hex (Replay.Right strict)) events := by
  rintro pre event post s rfl hs s' replay hout
  have hguard : (system sha256Hex start).Along (fun s event => Plain s event ∧ (strict → Current s event)) pre := by
    refine fun before a after t he ht => ⟨hplain before a (after ++ event :: post) t ?_ ht,fun hstrict => ?_⟩
    · rw [he,List.append_assoc,List.cons_append]
    · exact hcurrent hstrict before a (after ++ event :: post) t (by rw [he,List.append_assoc,List.cons_append]) ht
  have hchronicled : s.Chronicled sha256Hex strict := by
    refine System.guarded_inv (Cache.Chronicled sha256Hex strict) ⟨_,Told.init start⟩ (fun t a t' ht hg hstep => ?_) hguard hs
    obtain ⟨⟨t₁,o⟩,ho,rfl⟩ := Option.map_eq_some_iff.mp hstep
    exact (ht.outcome hsha hg.1 hg.2 ho).1
  exact (hchronicled.outcome hsha (hplain pre event post s rfl hs) (fun hstrict => hcurrent hstrict pre event post s rfl hs) hout).2 replay rfl

/-- No purge is overtaken, and, as long as the epochs are read by those they are for, whatever is
replayed is shaped by the definition its reader has. -/
theorem along_replays (hsha : Function.Injective sha256Hex) {events : List (CacheEvent δ)}
    (hplain : (system sha256Hex start).Along Plain events) :
    (system sha256Hex start).Along (Replays sha256Hex Replay.Unpurged) events ∧
      ((system sha256Hex start).Along Current events → (system sha256Hex start).Along (Replays sha256Hex Replay.Matches) events) := by
  constructor
  · exact fun pre event post s he hs s' r hr => (along_right False hsha hplain nofun pre event post s he hs s' r hr).1
  · exact fun hcurrent pre event post s he hs s' r hr =>
      (along_right True hsha hplain (fun _ => hcurrent) pre event post s he hs s' r hr).2 trivial

end Runs

section Home

/-- A hash that is nothing but its input. -/
def latin (input : List UInt8) : String := String.ofList (input.map fun b => Char.ofNat b.toNat)

theorem latin_injective : Function.Injective latin := by
  intro xs ys h
  have hchars := String.ofList_injective h
  refine List.map_injective_iff.mpr (fun a b hab => ?_) hchars
  have hval : ∀ c : UInt8, (Char.ofNat c.toNat).toNat = c.toNat := fun c => by
    have hlt := c.toNat_lt
    rw [Char.ofNat,dif_pos (.inl (by omega))]
    rfl
  have hnat := congrArg Char.toNat hab
  rw [hval,hval] at hnat
  exact UInt8.toNat_inj.mp hnat

/-- One route, with a mask or without. -/
def home (masked : Bool) : Snapshot Bool where
  routes := [⟨"home",some ⟨[],1000,0,1024⟩,false,masked⟩]
  nodup := List.nodup_singleton _
  find _ := some 0

def visit : CacheRequest := { head := ⟨"GET","/",none,[]⟩ }

def okay : Fetched := { status := 200, body := some [97] }

private theorem not_along {events : List (CacheEvent Bool)} {event : CacheEvent Bool}
    (h : ((system latin (home false)).run events).any
      (fun s => (s.outcome latin event).any fun o => o.2.any fun r => r.entry.shape ≠ r.route) = true) :
    ¬ (system latin (home false)).Along (Replays latin Replay.Matches) (events ++ [event]) := by
  intro hall
  obtain ⟨s,hs,hany⟩ := (Option.any_eq_true _ _).mp h
  obtain ⟨⟨s',r⟩,ho,hserved⟩ := (Option.any_eq_true _ _).mp hany
  obtain ⟨replay,hr,hne⟩ := (Option.any_eq_true _ _).mp hserved
  obtain rfl : r = some replay := hr
  exact of_decide_eq_true hne (hall.last hs s' replay ho)

/-- Who has the old snapshot stores without the mask under the new epoch; and a publish that has not
seen the last one leaves the epoch to what that one stored. -/
theorem replays_unmasked :
    ¬ (system latin (home false)).Along (Replays latin Replay.Matches)
      ([.arrive visit 0,.publish (home true),.refresh,.loadPrevious 0,.noteGeneration 0,.readEpoch 0,.get 0 0,.fetch 0,.fetched 0 okay 0,
        .recheck 0,.store 0,.swap 0,.arrive visit 0,.readEpoch 1] ++ [.get 1 1]) ∧
    ¬ (system latin (home false)).Along (Replays latin Replay.Matches)
      ([.publish (home true),.refresh,.loadPrevious 0,.noteGeneration 0,.publish (home false),.refresh,.loadPrevious 1,.swap 0,.arrive visit 0,
        .readEpoch 0,.get 0 0,.fetch 0,.fetched 0 okay 0,.recheck 0,.store 0,.noteGeneration 1,.swap 1,.arrive visit 0,.readEpoch 1] ++
        [.get 1 1]) :=
  ⟨not_along (by decide +kernel),not_along (by decide +kernel)⟩

/-- A page is stored and replayed, and a mask is put on its route. -/
def masking : List (CacheEvent Bool) :=
  [.arrive visit 0,.readEpoch 0,.get 0 0,.fetch 0,.fetched 0 okay 0,.recheck 0,.store 0,.arrive visit 0,.readEpoch 1,.get 1 1,
    .publish (home true),.refresh,.loadPrevious 0,.noteGeneration 0,.swap 0]

theorem replays_masking :
    (system latin (home false)).Along (Replays latin Replay.Unpurged) masking ∧
      (system latin (home false)).Along (Replays latin Replay.Matches) masking := by
  have hname : 0 ∉ bytes "home" := by decide +kernel
  have hplain : (system latin (home false)).Along Plain masking := by
    refine System.along_of_alongFrom ⟨trivial,?_,trivial,trivial,trivial,trivial,trivial,trivial,?_,trivial,trivial,trivial,trivial,trivial,
      trivial,trivial⟩
    · intro route policy req hp
      cases hp
      exact hname
    · intro route policy req hp
      cases hp
      exact hname
  have hcurrent : (system latin (home false)).Along Current masking := by
    refine System.along_of_alongFrom ⟨trivial,?_,trivial,trivial,trivial,trivial,trivial,trivial,?_,trivial,trivial,trivial,trivial,?_,
      trivial,trivial⟩
    · intro route policy req hp
      cases hp
      rfl
    · intro route policy req hp
      cases hp
      rfl
    · intro fresh previous hi name hsame
      cases hi
      exact hsame
  obtain ⟨hunpurged,hmatches⟩ := along_replays latin_injective hplain
  exact ⟨hunpurged,hmatches hcurrent⟩

end Home

end Dwara.Dataplane.CacheGenerations
