import Dwara.Dataplane.RouteMatch
import Dwara.Lib.System

/-! The response cache: lookups, misses and background refreshes, and the route whose
response every entry holds. -/

namespace Dwara.Dataplane.ResponseCache
open Dwara.Config Dwara.Lib Dwara.Snapshot

/-- The cache policy of a route, in milliseconds and bytes. -/
structure CompiledRouteCache where
  vary : List String
  ttl : ℕ
  staleWhileRevalidate : ℕ
  maxBodyBytes : ℕ

/-- The routes, their cache blocks by index, and what stands outside: the path matchers
and the hash of the keys. -/
structure CacheConfig where
  routes : List Route
  cache : ℕ → Option CompiledRouteCache
  matchers : Matchers
  sha256Hex : List UInt8 → String

def CacheConfig.routeTable (c : CacheConfig) : RouteTable := compile c.routes

/-- At most this many refreshes are under way. -/
def maxInflightRevalidations : ℕ := 32

def leBytes (n : ℕ) : List UInt8 := (List.range 8).map fun i => (n / 256 ^ i % 256).toUInt8

/-- The request's part of a key. -/
structure KeyParts where
  epoch : ℕ
  consumer : Option String
  method : String
  path : String
  query : Option String
  varyValues : List (String × String)

def deriveKey (sha256Hex : List UInt8 → String) (route : String) (k : KeyParts) : String :=
  "rc-" ++ sha256Hex (bytes "dwara-rc-v1\x00" ++ bytes route ++ [0] ++ leBytes k.epoch ++ bytes k.method ++ [0] ++
    (k.consumer.elim [] bytes) ++ [0] ++ bytes k.path ++ [0] ++ bytes (k.query.getD "") ++ [0] ++
    k.varyValues.flatMap fun (name,value) => bytes name ++ [1] ++ bytes value ++ [0])

/-- A response as the store stage reads it, after masking and transforms; no `body` where
it fails on the way. -/
structure Fetched where
  status : ℕ
  etag : Option String := none
  vetoed : Bool := false
  freshnessTtlMs : ℕ := 0
  staleIfErrorMs : ℕ := 0
  body : Option (List UInt8)

/-- A stored response. Beside it stand the route whose key it was stored under and the
route it came through. -/
structure EntryEnvelope where
  epoch : ℕ
  storedAtMs : ℕ
  freshnessTtlMs : ℕ
  staleIfErrorMs : ℕ
  etag : Option String
  body : List UInt8
  owner : String
  via : String

/-- What the store stage and the refresh need of one request. -/
structure MissFlow where
  key : String
  routeName : String
  epoch : ℕ
  policy : CompiledRouteCache
  path : String
  stored : Option EntryEnvelope

/-- A fetch under way: a request's own, through the route it was matched to, or a
refresh. -/
inductive Fetch where
  | foreground (route : Route) (flow : MissFlow)
  | background (flow : MissFlow)
  | done

structure Cache where
  epochs : String → ℕ := fun _ => 0
  store : String → Option EntryEnvelope := fun _ => none
  inflight : List String := []
  fetches : List Fetch := []

/-- A request with its identity. -/
structure CacheRequest where
  head : RequestHead
  consumer : Option String := none
  bodyBytes : ℕ := 0

inductive CacheEvent where
  | lookup (req : CacheRequest) (now : ℕ)
  | fetched (i : ℕ) (resp : Fetched) (now : ℕ)
  | purge (route : String)
  | evict (key : String)

def captureVaryValues (vary : List String) (head : RequestHead) : List (String × String) :=
  vary.map fun name => (name,", ".intercalate ((head.headerAll name).filterMap toStr))

def effectiveFreshnessTtlMs (entry : EntryEnvelope) (policy : CompiledRouteCache) : ℕ :=
  if 0 < entry.freshnessTtlMs then entry.freshnessTtlMs else policy.ttl

def stripWeak (v : String) : String := (Text.afterStart "W/" (Text.trim v)).getD (Text.trim v)

def validatorsMatch (upstream stored : Option String) : Bool :=
  match upstream, stored with
  | none, none => true
  | some u, some s => stripWeak u = stripWeak s
  | _, _ => false

namespace CacheConfig
variable (c : CacheConfig)

/-- The route a request is matched to, and its index. -/
def matched (head : RequestHead) : Option (ℕ × Route) :=
  (c.routeTable.findCandidates c.matchers head.path).findSome? fun (idx,_) =>
    (c.routes[idx]?).bind fun route =>
      if routeApplies route.routeMatch (c.routeTable.acceptMediaType idx) head then some (idx,route) else none

/-- The route of a path alone. -/
def resolved (path : String) : Option (ℕ × Route) :=
  (c.routeTable.findFull c.matchers path).bind fun (idx,_) => (c.routes[idx]?).map (idx,·)

end CacheConfig

namespace Cache

/-- The requests the cache does not answer. -/
def bypasses (req : CacheRequest) : Bool :=
  !(req.head.method = "HEAD" || req.head.method = "GET") ||
    ["authorization","cookie","upgrade"].any (fun name => (req.head.header name).isSome) || 0 < req.bodyBytes

/-- The entry under the key of this epoch; any other is dropped. -/
def read (s : Cache) (key : String) (epoch : ℕ) : Cache × Option EntryEnvelope :=
  match s.store key with
  | some entry => if entry.epoch = epoch then (s,some entry) else ({ s with store := Function.update s.store key none },none)
  | none => (s,none)

/-- A fresh entry for `GET` answers a `HEAD` that has none of its own. -/
def headFallback (s : Cache) (key : String) (epoch : ℕ) (policy : CompiledRouteCache) (now : ℕ) : Bool :=
  (s.store key).any fun entry => entry.epoch = epoch && now - entry.storedAtMs < effectiveFreshnessTtlMs entry policy

/-- One refresh for a key, and so many in all. -/
def spawnRevalidate (s : Cache) (flow : MissFlow) : Cache :=
  if maxInflightRevalidations ≤ s.inflight.length ∨ flow.key ∈ s.inflight then s
  else { s with inflight := flow.key :: s.inflight, fetches := s.fetches ++ [.background flow] }

/-- The lookup of a request matched to a route with a cache block: it is answered, or it
fetches; a stale answer leaves a refresh behind. -/
def lookup (c : CacheConfig) (s : Cache) (route : Route) (policy : CompiledRouteCache) (req : CacheRequest) (now : ℕ) : Cache :=
  let epoch := s.epochs route.name
  let parts : KeyParts := ⟨epoch,req.consumer,req.head.method,req.head.path,req.head.query,captureVaryValues policy.vary req.head⟩
  let key := deriveKey c.sha256Hex route.name parts
  let (s,stored) := s.read key epoch
  let flow : MissFlow := ⟨key,route.name,epoch,policy,req.head.path,stored⟩
  let isHead := req.head.method = "HEAD"
  if isHead && stored.isNone && s.headFallback (deriveKey c.sha256Hex route.name { parts with method := "GET" }) epoch policy now then s
  else
    match stored with
    | none => { s with fetches := s.fetches ++ [.foreground route flow] }
    | some entry =>
      let ageMs := now - entry.storedAtMs
      let ttlMs := effectiveFreshnessTtlMs entry policy
      if ageMs < ttlMs then s
      else if 0 < policy.staleWhileRevalidate && ageMs < ttlMs + policy.staleWhileRevalidate && !isHead then s.spawnRevalidate flow
      else { s with fetches := s.fetches ++ [.foreground route flow] }

/-- The store half: a 304 renews the entry the flow has found, a fresh 200 is stored. `via`
is the route the response came through. -/
def finishMiss (s : Cache) (flow : MissFlow) (resp : Fetched) (via : String) (now : ℕ) : Cache :=
  if resp.status = 304 then
    match flow.stored with
    | some entry =>
      if validatorsMatch resp.etag entry.etag then
        if s.epochs flow.routeName = flow.epoch then
          { s with store := Function.update s.store flow.key (some { entry with storedAtMs := now }) }
        else s
      else { s with store := Function.update s.store flow.key none }
    | none => s
  else if resp.status ≠ 200 ∨ resp.vetoed then s
  else
    match resp.body with
    | none => s
    | some body =>
      if body.length ≤ flow.policy.maxBodyBytes ∧ s.epochs flow.routeName = flow.epoch then
        { s with store := Function.update s.store flow.key (some
            ⟨flow.epoch,now,resp.freshnessTtlMs,resp.staleIfErrorMs,resp.etag,body,flow.routeName,via⟩) }
      else s

/-- The refresh: the path alone names the route the request goes through. -/
def runRevalidation (c : CacheConfig) (s : Cache) (flow : MissFlow) (resp : Fetched) (now : ℕ) : Cache :=
  match c.resolved flow.path with
  | none => s
  | some (idx,route) =>
    if s.epochs flow.routeName ≠ flow.epoch ∨ (c.cache idx).isNone then s else s.finishMiss flow resp route.name now

def step (c : CacheConfig) (s : Cache) : CacheEvent → Option Cache
  | .lookup req now =>
    match c.matched req.head with
    | none => some s
    | some (idx,route) =>
      match route.action, c.cache idx with
      | .proxy _, some policy => some (if bypasses req then s else s.lookup c route policy req now)
      | _, _ => some s
  | .fetched i resp now =>
    match s.fetches[i]? with
    | some (.foreground route flow) => some ({ s with fetches := s.fetches.set i .done }.finishMiss flow resp route.name now)
    | some (.background flow) =>
      some ({ s with fetches := s.fetches.set i .done, inflight := s.inflight.erase flow.key }.runRevalidation c flow resp now)
    | _ => none
  | .purge route => some { s with epochs := Function.update s.epochs route (s.epochs route + 1) }
  | .evict key => some { s with store := Function.update s.store key none }

def system (c : CacheConfig) : System Cache CacheEvent where
  init := {}
  step := step c

/-- Every entry is under a key of its owner's, and came through its owner. -/
def Owned (c : CacheConfig) (s : Cache) : Prop :=
  ∀ key entry, s.store key = some entry → entry.via = entry.owner ∧ ∃ parts, key = deriveKey c.sha256Hex entry.owner parts

/-- A response the store stage stores. -/
def Storable (flow : MissFlow) (resp : Fetched) : Prop :=
  resp.status = 200 ∧ resp.vetoed = false ∧ ∃ body ∈ resp.body, body.length ≤ flow.policy.maxBodyBytes

/-- A refresh whose response is stored goes through the owner of the entry: the owner is
the route its path resolves to by itself. -/
def HomedFetch (c : CacheConfig) (s : Cache) (resp : Fetched) : Option Fetch → Prop
  | some (.background flow) => Storable flow resp → s.epochs flow.routeName = flow.epoch →
      ∀ found ∈ c.resolved flow.path, (c.cache found.1).isSome → found.2.name = flow.routeName
  | _ => True

def Homed (c : CacheConfig) (s : Cache) : CacheEvent → Prop
  | .fetched i resp _ => HomedFetch c s resp s.fetches[i]?
  | _ => True

instance (flow : MissFlow) (resp : Fetched) : Decidable (Storable flow resp) :=
  inferInstanceAs (Decidable (_ ∧ _ ∧ ∃ body ∈ resp.body, body.length ≤ flow.policy.maxBodyBytes))

instance (c : CacheConfig) (s : Cache) (resp : Fetched) : (fetch : Option Fetch) → Decidable (HomedFetch c s resp fetch)
  | some (.background flow) => inferInstanceAs (Decidable (Storable flow resp → s.epochs flow.routeName = flow.epoch →
      ∀ found ∈ c.resolved flow.path, (c.cache found.1).isSome → found.2.name = flow.routeName))
  | some (.foreground _ _) => isTrue trivial
  | some .done => isTrue trivial
  | none => isTrue trivial

instance (c : CacheConfig) (s : Cache) : (event : CacheEvent) → Decidable (Homed c s event)
  | .fetched i resp _ => inferInstanceAs (Decidable (HomedFetch c s resp s.fetches[i]?))
  | .lookup _ _ => isTrue trivial
  | .purge _ => isTrue trivial
  | .evict _ => isTrue trivial

variable {c : CacheConfig} {s s' : Cache} {event : CacheEvent} {flow : MissFlow}

/-- An entry that belongs under a key: the key is its owner's, and it came through the owner. -/
def EntryOwned (c : CacheConfig) (key : String) (entry : EntryEnvelope) : Prop :=
  entry.via = entry.owner ∧ ∃ parts, key = deriveKey c.sha256Hex entry.owner parts

/-- The key of a flow is its route's, and the entry it has found belongs there. -/
def FlowOwned (c : CacheConfig) (flow : MissFlow) : Prop :=
  (∃ parts, flow.key = deriveKey c.sha256Hex flow.routeName parts) ∧ ∀ entry, flow.stored = some entry → EntryOwned c flow.key entry

/-- Every fetch under way belongs to its route; a request's own goes through that route. -/
def Flows (c : CacheConfig) (s : Cache) : Prop :=
  (∀ route flow, .foreground route flow ∈ s.fetches → route.name = flow.routeName ∧ FlowOwned c flow) ∧
    ∀ flow, .background flow ∈ s.fetches → FlowOwned c flow

theorem owned_update {key : String} {entry : EntryEnvelope} (hs : s.Owned c) {fetches : List Fetch} {inflight : List String}
    {epochs : String → ℕ} :
    Owned c { epochs, store := Function.update s.store key (some entry), inflight, fetches } ↔ EntryOwned c key entry := by
  constructor
  · exact fun h => h key entry (Function.update_self _ _ _)
  · intro h key' entry' he
    dsimp only at he
    by_cases hk : key' = key
    · subst hk
      rw [Function.update_self] at he
      exact Option.some.inj he ▸ h
    · rw [Function.update_of_ne hk] at he
      exact hs key' entry' he

theorem owned_remove {key : String} (hs : s.Owned c) {fetches : List Fetch} {inflight : List String} {epochs : String → ℕ} :
    Owned c { epochs, store := Function.update s.store key none, inflight, fetches } := by
  intro key' entry' he
  dsimp only at he
  by_cases hk : key' = key
  · subst hk
    rw [Function.update_self] at he
    cases he
  · rw [Function.update_of_ne hk] at he
    exact hs key' entry' he

/-- The store stage keeps what is owned just when what it stores came through the flow's
own route. -/
theorem owned_finishMiss_iff (hs : s.Owned c) (hflow : FlowOwned c flow) (resp : Fetched) (via : String) (now : ℕ) :
    (s.finishMiss flow resp via now).Owned c ↔
      (Storable flow resp → s.epochs flow.routeName = flow.epoch → via = flow.routeName) := by
  rw [finishMiss]
  by_cases h304 : resp.status = 304
  · rw [if_pos h304]
    have hnot : ¬ Storable flow resp := fun h => by
      have := h.1
      omega
    refine iff_of_true ?_ (fun h => absurd h hnot)
    cases hstored : flow.stored with
    | none => exact hs
    | some entry =>
      dsimp only
      split_ifs
      · obtain ⟨hvia,parts,hkey⟩ := hflow.2 entry hstored
        exact (owned_update hs).mpr ⟨hvia,parts,hkey⟩
      · exact hs
      · exact owned_remove hs
  · rw [if_neg h304]
    by_cases hveto : resp.status ≠ 200 ∨ resp.vetoed
    · rw [if_pos hveto]
      have hnot : ¬ Storable flow resp := by
        rintro ⟨hstatus,hvetoed,_⟩
        rcases hveto with h | h
        · exact h hstatus
        · rw [hvetoed] at h
          cases h
      exact iff_of_true hs (fun h => absurd h hnot)
    · rw [if_neg hveto]
      obtain ⟨hstatus,hvetoed⟩ := not_or.mp hveto
      cases hbody : resp.body with
      | none => exact iff_of_true hs (fun ⟨_,_,_,hb,_⟩ => by simp [hbody] at hb)
      | some body =>
        dsimp only
        by_cases hstore : body.length ≤ flow.policy.maxBodyBytes ∧ s.epochs flow.routeName = flow.epoch
        · rw [if_pos hstore,owned_update hs]
          constructor
          · exact fun h _ _ => h.1
          · intro h
            refine ⟨h ⟨not_not.mp hstatus,Bool.not_eq_true _ ▸ hvetoed,body,hbody,hstore.1⟩ hstore.2,hflow.1⟩
        · rw [if_neg hstore]
          refine iff_of_true hs ?_
          rintro ⟨_,_,body',hbody',hlen⟩ hepoch
          obtain rfl : body = body' := Option.some.inj (hbody.symm.trans hbody')
          exact absurd ⟨hlen,hepoch⟩ hstore

@[simp] theorem fetches_finishMiss (resp : Fetched) (via : String) (now : ℕ) : (s.finishMiss flow resp via now).fetches = s.fetches := by
  rw [finishMiss]
  repeat' split
  all_goals rfl

@[simp] theorem fetches_runRevalidation (resp : Fetched) (now : ℕ) : (s.runRevalidation c flow resp now).fetches = s.fetches := by
  rw [runRevalidation]
  split
  · rfl
  · split_ifs
    · rfl
    · exact fetches_finishMiss _ _ _

@[simp] theorem fetches_read (key : String) (epoch : ℕ) : (s.read key epoch).1.fetches = s.fetches := by
  rw [read]
  repeat' split
  all_goals rfl

/-- What a lookup leaves behind: the store as it was read, and at most one fetch, for the
route it is about. -/
inductive Looked (c : CacheConfig) (s : Cache) (route : Route) : Cache → Prop
  | answered {t : Cache} (hstore : ∀ key entry, t.store key = some entry → s.store key = some entry) (hfetches : t.fetches = s.fetches) :
      Looked c s route t
  | fetching {t : Cache} {fetch : Fetch} {flow : MissFlow}
      (hstore : ∀ key entry, t.store key = some entry → s.store key = some entry)
      (hfetches : t.fetches = s.fetches ++ [fetch]) (hfetch : fetch = .foreground route flow ∨ fetch = .background flow)
      (hname : flow.routeName = route.name) (hkey : ∃ parts, flow.key = deriveKey c.sha256Hex flow.routeName parts)
      (hfound : ∀ entry, flow.stored = some entry → s.store flow.key = some entry) : Looked c s route t

theorem store_read {key key' : String} {epoch : ℕ} {entry : EntryEnvelope} (h : (s.read key epoch).1.store key' = some entry) :
    s.store key' = some entry := by
  rw [read] at h
  split at h
  · split_ifs at h
    · exact h
    · dsimp only at h
      by_cases hk : key' = key
      · subst hk
        rw [Function.update_self] at h
        cases h
      · rwa [Function.update_of_ne hk] at h
  · exact h

theorem found_read {key : String} {epoch : ℕ} {entry : EntryEnvelope} (h : (s.read key epoch).2 = some entry) :
    s.store key = some entry := by
  rw [read] at h
  split at h
  · rename_i entry' hstore
    split_ifs at h
    obtain rfl := Option.some.inj h
    exact hstore
  · cases h

theorem Looked.of_lookup (route : Route) (policy : CompiledRouteCache) (req : CacheRequest) (now : ℕ) :
    Looked c s route (s.lookup c route policy req now) := by
  unfold lookup
  dsimp only
  have hread : ∀ key epoch, (∀ key' entry, (s.read key epoch).1.store key' = some entry → s.store key' = some entry) ∧
      (s.read key epoch).1.fetches = s.fetches ∧ ∀ entry, (s.read key epoch).2 = some entry → s.store key = some entry :=
    fun key epoch => ⟨fun _ _ => store_read,fetches_read key epoch,fun _ => found_read⟩
  obtain ⟨hstore,hfetches,hfound⟩ := hread (deriveKey c.sha256Hex route.name ⟨s.epochs route.name,req.consumer,req.head.method,
    req.head.path,req.head.query,captureVaryValues policy.vary req.head⟩) (s.epochs route.name)
  split_ifs
  · exact .answered hstore hfetches
  split
  · rename_i hnone
    refine .fetching hstore (by rw [hfetches]) (.inl rfl) rfl ⟨_,rfl⟩ hfound
  · rename_i entry hsome
    split_ifs
    · exact .answered hstore hfetches
    · rw [spawnRevalidate]
      split_ifs
      · exact .answered hstore hfetches
      · exact .fetching hstore (by rw [hfetches]) (.inr rfl) rfl ⟨_,rfl⟩ hfound
    · exact .fetching hstore (by rw [hfetches]) (.inl rfl) rfl ⟨_,rfl⟩ hfound

theorem flows_of_looked {route : Route} (hs : s.Owned c) (hf : s.Flows c) (h : Looked c s route s') : s'.Flows c ∧ s'.Owned c := by
  cases h with
  | answered hstore hfetches =>
    refine ⟨?_,fun key entry he => hs key entry (hstore key entry he)⟩
    rw [Flows,hfetches]
    exact hf
  | @fetching fetch flow hstore hfetches hfetch hname hkey hfound =>
    have hflow : FlowOwned c flow := ⟨hkey,fun entry he => hs flow.key entry (hfound entry he)⟩
    refine ⟨⟨?_,?_⟩,fun key entry he => hs key entry (hstore key entry he)⟩
    · intro route' flow' hmem
      rw [hfetches,List.mem_append,List.mem_singleton] at hmem
      rcases hmem with hmem | rfl
      · exact hf.1 route' flow' hmem
      · rcases hfetch with he | he
        · cases he
          exact ⟨hname.symm,hflow⟩
        · cases he
    · intro flow' hmem
      rw [hfetches,List.mem_append,List.mem_singleton] at hmem
      rcases hmem with hmem | rfl
      · exact hf.2 flow' hmem
      · rcases hfetch with he | he
        · cases he
        · cases he
          exact hflow

theorem flows_set_done (hf : s.Flows c) (i : ℕ) {fetches : List Fetch} (he : fetches = s.fetches.set i .done) {t : Cache}
    (ht : t.fetches = fetches) : t.Flows c := by
  have hmem : ∀ fetch ∈ t.fetches, fetch ∈ s.fetches ∨ fetch = .done := by
    intro fetch hmem
    rw [ht,he] at hmem
    exact List.mem_or_eq_of_mem_set hmem
  constructor
  · intro route flow hfl
    rcases hmem _ hfl with h | h
    · exact hf.1 route flow h
    · cases h
  · intro flow hfl
    rcases hmem _ hfl with h | h
    · exact hf.2 flow h
    · cases h

/-- The fetches stay with their routes as long as the store does. -/
theorem flows_step (hs : s.Owned c) (hf : s.Flows c) (h : step c s event = some s') : s'.Flows c := by
  cases event with
  | lookup req now =>
    rw [step] at h
    split at h
    · obtain rfl := Option.some.inj h
      exact hf
    · split at h
      · obtain rfl := Option.some.inj h
        split_ifs
        · exact hf
        · exact (flows_of_looked hs hf (Looked.of_lookup _ _ _ _)).1
      · obtain rfl := Option.some.inj h
        exact hf
  | fetched i resp now =>
    rw [step] at h
    split at h
    · obtain rfl := Option.some.inj h
      exact flows_set_done hf i rfl (fetches_finishMiss _ _ _)
    · obtain rfl := Option.some.inj h
      exact flows_set_done hf i rfl (fetches_runRevalidation _ _)
    · cases h
  | purge route =>
    obtain rfl := Option.some.inj h
    exact hf
  | evict key =>
    obtain rfl := Option.some.inj h
    exact hf

/-- One step keeps every entry with its owner just when no refresh of it is diverted. -/
theorem owned_step_iff (hs : s.Owned c) (hf : s.Flows c) (h : step c s event = some s') : s'.Owned c ↔ s.Homed c event := by
  cases event with
  | lookup req now =>
    refine iff_of_true ?_ trivial
    rw [step] at h
    split at h
    · obtain rfl := Option.some.inj h
      exact hs
    · split at h
      · obtain rfl := Option.some.inj h
        split_ifs
        · exact hs
        · exact (flows_of_looked hs hf (Looked.of_lookup _ _ _ _)).2
      · obtain rfl := Option.some.inj h
        exact hs
  | fetched i resp now =>
    rw [step] at h
    split at h
    · rename_i route flow hi
      obtain rfl := Option.some.inj h
      obtain ⟨hname,hflow⟩ := hf.1 route flow (List.mem_of_getElem? hi)
      refine iff_of_true ((owned_finishMiss_iff ?_ hflow resp route.name now).mpr fun _ _ => hname) ?_
      · exact hs
      · rw [Homed,hi]
        trivial
    · rename_i flow hi
      obtain rfl := Option.some.inj h
      have hflow := hf.2 flow (List.mem_of_getElem? hi)
      have hs' : Owned c { s with fetches := s.fetches.set i .done, inflight := s.inflight.erase flow.key } := hs
      rw [Homed,hi,HomedFetch,runRevalidation]
      cases hresolved : c.resolved flow.path with
      | none => exact iff_of_true hs (fun _ _ _ hr => by cases hr)
      | some found =>
        obtain ⟨idx,route⟩ := found
        dsimp only
        split_ifs with hskip
        · refine iff_of_true hs ?_
          rintro _ hepoch _ hr hcache
          cases hr
          rcases hskip with hmoved | hnone
          · exact absurd hepoch hmoved
          · rw [Option.isNone_iff_eq_none.mp hnone] at hcache
            cases hcache
        · obtain ⟨_,hcache⟩ := not_or.mp hskip
          rw [owned_finishMiss_iff hs' hflow]
          constructor
          · intro hvia hstorable hepoch _ hr _
            cases hr
            exact hvia hstorable hepoch
          · intro hhome hstorable hepoch
            exact hhome hstorable hepoch (idx,route) rfl (Option.isSome_iff_ne_none.mpr (by simpa using hcache))
    · cases h
  | purge route =>
    obtain rfl := Option.some.inj h
    exact iff_of_true hs trivial
  | evict key =>
    obtain rfl := Option.some.inj h
    exact iff_of_true (owned_remove hs) trivial

theorem flows_init (c : CacheConfig) : (system c).init.Flows c :=
  ⟨fun _ _ h => absurd h List.not_mem_nil,fun _ h => absurd h List.not_mem_nil⟩

theorem owned_init (c : CacheConfig) : (system c).init.Owned c := fun _ _ h => by cases h

/-- Over any routes and any order of lookups, misses, refreshes and purges, every entry came
through the route it is stored for in exactly the runs where each refresh that is stored
went through the owner. -/
theorem owned_iff_homed (c : CacheConfig) (events : List CacheEvent) (s : Cache) (hr : (system c).run events = some s) :
    (∀ pre post r, events = pre ++ post → (system c).run pre = some r → r.Owned c) ↔ (system c).Along (Homed c) events := by
  have hboth := System.forall_prefix_iff_along (fun r => r.Owned c ∧ r.Flows c) ⟨owned_init c,flows_init c⟩
    (fun t event t' ht h => by
      rw [and_iff_left (flows_step ht.1 ht.2 h)]
      exact owned_step_iff ht.1 ht.2 h) hr
  rw [← hboth]
  constructor
  · intro hall pre post r he hpre
    have halong : (system c).Along (fun t _ => t.Owned c) pre := by
      rintro pre' a post' t rfl ht
      exact hall pre' (a :: post' ++ post) t (by rw [he,List.append_assoc]) ht
    have hflows : r.Flows c := System.guarded_inv (Flows c) (flows_init c) (fun _ _ _ hf ht h => flows_step ht hf h) halong hpre
    exact ⟨hall pre post r he hpre,hflows⟩
  · intro hall pre post r he hpre
    exact (hall pre post r he hpre).1

section Hosts

private def apiRoute (name host : String) : Route where
  name
  routeMatch := ⟨⟨.prefixed,"/api"⟩,some host,[],[],[],[],none⟩
  service := name
  policies := []
  authorization := none
  transforms := none
  action := .proxy none

/-- Two routes of one path, told apart by their hosts. -/
private def hosts : CacheConfig where
  routes := [apiRoute "a" "a.example",apiRoute "b" "b.example"]
  cache _ := some ⟨[],1000,1000,1024⟩
  matchers := ⟨fun _ _ => none,fun _ _ => false⟩
  sha256Hex input := String.ofList (input.map fun b => Char.ofNat b.toNat)

private def ofHost (host : String) : CacheRequest := { head := ⟨"GET","/api/x",none,[("host",host)]⟩ }

private def okay (body : List UInt8) : Fetched := { status := 200, body := some body }

private def ownerAndVia (host route : String) (events : List CacheEvent) : Option (String × String) :=
  ((system hosts).run events).bind fun s =>
    (s.store (deriveKey hosts.sha256Hex route ⟨0,none,(ofHost host).head.method,(ofHost host).head.path,none,[]⟩)).map fun e => (e.owner,e.via)

/-- The refresh of the second host's entry goes through the first host's route. -/
theorem refresh_stores_other_route :
    ownerAndVia "b.example" "b"
      [.lookup (ofHost "b.example") 0,.fetched 0 (okay [98]) 0,.lookup (ofHost "b.example") 1500,.fetched 1 (okay [97]) 1500] =
        some ("b","a") := by
  decide +kernel

private def refreshed : List CacheEvent :=
  [.lookup (ofHost "a.example") 0,.fetched 0 (okay [97]) 0,.lookup (ofHost "a.example") 1500,.fetched 1 (okay [98]) 1500]

/-- The first host's entry is refreshed through its own route. -/
theorem owned_first_host : ∃ s, (system hosts).run refreshed = some s ∧ s.Owned hosts := by
  have hhomed : (system hosts).Along (Homed hosts) refreshed := System.along_of_alongFrom (by decide +kernel)
  have hrun : ((system hosts).run refreshed).isSome := by decide +kernel
  obtain ⟨s,hs⟩ := Option.isSome_iff_exists.mp hrun
  exact ⟨s,hs,(owned_iff_homed hosts refreshed s hs).mpr hhomed refreshed [] s (List.append_nil _).symm hs⟩

end Hosts

end Cache
end Dwara.Dataplane.ResponseCache
