import Dwara.Dataplane.ResponseCache

/-! The response cache while the configuration changes: every read of an epoch, of a snapshot or of
the store is a step of its own, and so is every bump and every swap. -/

namespace Dwara.Dataplane.CacheGenerations
open Dwara.Lib Dwara.Snapshot Dwara.Dataplane.ResponseCache

deriving instance DecidableEq for CompiledRouteCache

variable {δ : Type}

/-- A route: its name, its cache block, and the rest of its definition, the masking and the
transforms among it. -/
structure Route (δ : Type) where
  name : String
  cache : Option CompiledRouteCache
  coalesces : Bool
  rest : δ
  deriving DecidableEq

/-- A compiled configuration, with the index of the route a path leads to by itself. -/
structure Snapshot (δ : Type) where
  routes : List (Route δ)
  nodup : (routes.map Route.name).Nodup
  find : String → Option ℕ

def Snapshot.route (c : Snapshot δ) (name : String) : Option (Route δ) := c.routes.find? fun r => r.name = name

/-- A stored response, the definition it was shaped by, and how often its route had been purged when
it came. -/
structure Entry (δ : Type) where
  envelope : EntryEnvelope
  shape : Route δ
  purges : ℕ

/-- A request under the definition of its snapshot, from the read of the epoch on. It knows how
often its route had been purged by then. -/
structure Flow (δ : Type) where
  key : String
  getKey : String
  epoch : ℕ
  route : Route δ
  policy : CompiledRouteCache
  req : CacheRequest
  purges : ℕ
  stored : Option (Entry δ) := none
  injectedInm : Bool := false

/-- How far a request is, or a background refresh. `via` is the route it goes through. -/
inductive Phase (δ : Type) where
  | matched (route : Route δ) (policy : CompiledRouteCache) (req : CacheRequest)
  | keyed (flow : Flow δ)
  | headKeyed (flow : Flow δ)
  | missed (flow : Flow δ)
  | parked (flow : Flow δ)
  | woken (flow : Flow δ)
  | fetching (flow : Flow δ)
  | spawned (flow : Flow δ)
  | loaded (flow : Flow δ) (via : Route δ)
  | refreshing (flow : Flow δ) (via : Route δ)
  | fetched (flow : Flow δ) (entry : Entry δ)
  | storing (flow : Flow δ) (entry : Entry δ)
  | done

/-- How far a publish is. -/
inductive Refresh (δ : Type) where
  | compiled (fresh : Snapshot δ)
  | diffing (fresh previous : Snapshot δ)
  | noted (fresh : Snapshot δ)
  | done

/-- What is served, what the epochs were last advanced for, and the cache. -/
structure Cache (δ : Type) where
  published : Snapshot δ
  current : Snapshot δ
  noted : Snapshot δ
  refreshes : List (Refresh δ) := []
  epochs : String → ℕ := fun _ => 0
  purges : String → ℕ := fun _ => 0
  store : String → Option (Entry δ) := fun _ => none
  phases : List (Phase δ) := []

/-- Which misses lead and how many refreshes are under way is not told: any miss of a route that
coalesces may follow another. -/
inductive CacheEvent (δ : Type) where
  | publish (fresh : Snapshot δ)
  | refresh
  | loadPrevious (i : ℕ)
  | noteGeneration (i : ℕ)
  | swap (i : ℕ)
  | purge (routes : List String)
  | arrive (req : CacheRequest) (idx : ℕ)
  | readEpoch (i : ℕ)
  | get (i now : ℕ)
  | getHead (i now : ℕ)
  | fetch (i : ℕ)
  | park (i : ℕ)
  | load (i : ℕ)
  | checkEpoch (i : ℕ)
  | reread (i : ℕ)
  | fetched (i : ℕ) (resp : Fetched) (now : ℕ)
  | recheck (i : ℕ)
  | store (i : ℕ)
  | evict (key : String)

/-- An entry that answers a request. -/
structure Replay (δ : Type) where
  route : Route δ
  purges : ℕ
  entry : Entry δ

def bump (epochs : String → ℕ) (name : String) : String → ℕ := Function.update epochs name (epochs name + 1)

/-- The epochs of the routes whose definition has changed, or that are gone, advance. -/
def noteGeneration [DecidableEq δ] (epochs : String → ℕ) (old fresh : Snapshot δ) : String → ℕ :=
  let changed := fresh.routes.filter fun r => old.route r.name ≠ some r
  let removed := old.routes.filter fun r => (fresh.route r.name).isNone
  ((changed ++ removed).map Route.name).foldl bump epochs

namespace Flow

def isHead (flow : Flow δ) : Bool := flow.req.head.method = "HEAD"

def replay (flow : Flow δ) (entry : Entry δ) : Replay δ := ⟨flow.route,flow.purges,entry⟩

def keyOf (sha256Hex : List UInt8 → String) (route : Route δ) (policy : CompiledRouteCache) (req : CacheRequest) (epoch : ℕ)
    (method : String) : String :=
  deriveKey sha256Hex route.name ⟨epoch,req.consumer,method,req.head.path,req.head.query,captureVaryValues policy.vary req.head⟩

def ofRequest (sha256Hex : List UInt8 → String) (route : Route δ) (policy : CompiledRouteCache) (req : CacheRequest)
    (epoch purges : ℕ) : Flow δ where
  key := keyOf sha256Hex route policy req epoch req.head.method
  getKey := keyOf sha256Hex route policy req epoch "GET"
  epoch
  route
  policy
  req
  purges

end Flow

namespace Cache
variable (s : Cache δ) (i : ℕ) (flow : Flow δ)

def goto (p : Phase δ) : Cache δ := { s with phases := s.phases.set i p }

def drop (key : String) : Cache δ := { s with store := Function.update s.store key none }

/-- A fresh entry is a hit and a stale one leaves a refresh behind; any other goes along with the
miss. -/
def answer (entry : Entry δ) (now : ℕ) : Cache δ × Option (Replay δ) :=
  let ageMs := now - entry.envelope.storedAtMs
  let ttlMs := effectiveFreshnessTtlMs entry.envelope flow.policy
  if ageMs < ttlMs then (s.goto i .done,some (flow.replay entry))
  else if 0 < flow.policy.staleWhileRevalidate ∧ ageMs < (ttlMs + flow.policy.staleWhileRevalidate) % 2^64 ∧ flow.isHead = false then
    ({ s with phases := s.phases.set i .done ++ [.spawned { flow with stored := some entry, injectedInm := true }] },some (flow.replay entry))
  else
    (s.goto i (.missed { flow with
        stored := some entry
        injectedInm := (flow.req.head.header "if-none-match").isNone && entry.envelope.etag.isSome }),none)

/-- A `HEAD` without an entry of its own looks for the one of the `GET`. -/
def unanswered : Cache δ := s.goto i (if flow.isHead then .headKeyed flow else .missed flow)

def get (now : ℕ) : Cache δ × Option (Replay δ) :=
  match s.store flow.key with
  | some entry => if entry.envelope.epoch = flow.epoch then s.answer i flow entry now else ((s.drop flow.key).unanswered i flow,none)
  | none => (s.unanswered i flow,none)

def getHead (now : ℕ) : Cache δ × Option (Replay δ) :=
  match s.store flow.getKey with
  | some entry =>
    if entry.envelope.epoch = flow.epoch ∧ now - entry.envelope.storedAtMs < effectiveFreshnessTtlMs entry.envelope flow.policy then
      (s.goto i .done,some (flow.replay entry))
    else (s.goto i (.missed flow),none)
  | none => (s.goto i (.missed flow),none)

/-- What a follower finds answers it; without it, it fetches. -/
def reread : Cache δ × Option (Replay δ) :=
  match s.store flow.key with
  | some entry => if entry.envelope.epoch = flow.epoch then (s.goto i .done,some (flow.replay entry)) else (s.goto i (.fetching flow),none)
  | none => (s.goto i (.fetching flow),none)

/-- The store half up to the check of the epoch, and the entry it answers with. -/
def finishMiss (via : Route δ) (resp : Fetched) (now : ℕ) : Cache δ × Option (Entry δ) :=
  if resp.status = 304 then
    match flow.stored with
    | some entry =>
      if validatorsMatch resp.etag entry.envelope.etag then
        let refreshed := { entry with envelope := { entry.envelope with storedAtMs := now } }
        (s.goto i (.fetched flow refreshed),if flow.injectedInm then some refreshed else none)
      else ((s.drop flow.key).goto i .done,none)
    | none => (s.goto i .done,none)
  else if 500 ≤ resp.status ∧ resp.status < 600 then
    (s.goto i .done,flow.stored.filter fun entry => 0 < entry.envelope.staleIfErrorMs ∧
      now - entry.envelope.storedAtMs < (effectiveFreshnessTtlMs entry.envelope flow.policy + entry.envelope.staleIfErrorMs) % 2^64)
  else if resp.status ≠ 200 ∨ resp.vetoed then (s.goto i .done,none)
  else
    match resp.body with
    | none => (s.goto i .done,none)
    | some body =>
      if body.length ≤ flow.policy.maxBodyBytes then
        (s.goto i (.fetched flow {
            envelope := ⟨flow.epoch,now,resp.freshnessTtlMs,resp.staleIfErrorMs,resp.etag,body,flow.route.name,via.name⟩
            shape := via
            purges := s.purges flow.route.name }),none)
      else (s.goto i .done,none)

/-- A refresh goes through the route its path leads to in what is served now. -/
def load : Cache δ :=
  match (s.current.find flow.req.head.path).bind fun idx => s.current.routes[idx]? with
  | some via => s.goto i (if via.cache.isSome then .loaded flow via else .done)
  | none => s.goto i .done

/-- A refresh on its way to the swap. -/
def refreshStep [DecidableEq δ] : CacheEvent δ → Option (Cache δ)
  | .publish fresh => some { s with published := fresh }
  | .refresh => some { s with refreshes := s.refreshes ++ [.compiled s.published] }
  | .loadPrevious i =>
    match s.refreshes[i]? with
    | some (.compiled fresh) => some { s with refreshes := s.refreshes.set i (.diffing fresh s.current) }
    | _ => none
  | .noteGeneration i =>
    match s.refreshes[i]? with
    | some (.diffing fresh previous) =>
      some { s with
        noted := fresh
        epochs := CacheGenerations.noteGeneration s.epochs previous fresh
        refreshes := s.refreshes.set i (.noted fresh) }
    | _ => none
  | .swap i =>
    match s.refreshes[i]? with
    | some (.noted fresh) => some { s with current := fresh, refreshes := s.refreshes.set i .done }
    | _ => none
  | _ => none

/-- What a step leaves behind, and what it replays. -/
def outcome [DecidableEq δ] (sha256Hex : List UInt8 → String) : CacheEvent δ → Option (Cache δ × Option (Replay δ))
  | .purge routes => some ({ s with epochs := routes.foldl bump s.epochs, purges := routes.foldl bump s.purges },none)
  | .arrive req idx =>
    match s.current.routes[idx]? with
    | some route =>
      match route.cache with
      | some policy => if ResponseCache.Cache.bypasses req then none else some ({ s with phases := s.phases ++ [.matched route policy req] },none)
      | none => none
    | none => none
  | .readEpoch i =>
    match s.phases[i]? with
    | some (.matched route policy req) =>
      some (s.goto i (.keyed (.ofRequest sha256Hex route policy req (s.epochs route.name) (s.purges route.name))),none)
    | _ => none
  | .get i now =>
    match s.phases[i]? with
    | some (.keyed flow) => some (s.get i flow now)
    | _ => none
  | .getHead i now =>
    match s.phases[i]? with
    | some (.headKeyed flow) => some (s.getHead i flow now)
    | _ => none
  | .fetch i =>
    match s.phases[i]? with
    | some (.missed flow) => some (s.goto i (.fetching flow),none)
    | _ => none
  | .park i =>
    match s.phases[i]? with
    | some (.missed flow) => if flow.route.coalesces then some (s.goto i (.parked flow),none) else none
    | _ => none
  | .load i =>
    match s.phases[i]? with
    | some (.spawned flow) => some (s.load i flow,none)
    | _ => none
  | .checkEpoch i =>
    match s.phases[i]? with
    | some (.parked flow) => some (s.goto i (if s.epochs flow.route.name = flow.epoch then .woken flow else .fetching flow),none)
    | some (.loaded flow via) => some (s.goto i (if s.epochs flow.route.name = flow.epoch then .refreshing flow via else .done),none)
    | _ => none
  | .reread i =>
    match s.phases[i]? with
    | some (.woken flow) => some (s.reread i flow)
    | _ => none
  | .fetched i resp now =>
    match s.phases[i]? with
    | some (.fetching flow) =>
      some ((s.finishMiss i flow flow.route resp now).1,(s.finishMiss i flow flow.route resp now).2.map flow.replay)
    | some (.refreshing flow via) => some ((s.finishMiss i flow via resp now).1,none)
    | _ => none
  | .recheck i =>
    match s.phases[i]? with
    | some (.fetched flow entry) => some (s.goto i (if s.epochs flow.route.name = flow.epoch then .storing flow entry else .done),none)
    | _ => none
  | .store i =>
    match s.phases[i]? with
    | some (.storing flow entry) => some ({ s with store := Function.update s.store flow.key (some entry) }.goto i .done,none)
    | _ => none
  | .evict key => some (s.drop key,none)
  | event => (s.refreshStep event).map fun s => (s,none)

end Cache

/-- The gateway from its start on. -/
def system [DecidableEq δ] (sha256Hex : List UInt8 → String) (start : Snapshot δ) : System (Cache δ) (CacheEvent δ) where
  init := { published := start, current := start, noted := start }
  step s event := (s.outcome sha256Hex event).map Prod.fst

/-- An entry is no older than the latest purge its reader comes after. -/
def Replay.Unpurged (r : Replay δ) : Prop := r.purges ≤ r.entry.purges

/-- An entry is shaped by the definition its reader has. -/
def Replay.Matches (r : Replay δ) : Prop := r.entry.shape = r.route

/-- Whatever the step replays is so. -/
def Replays [DecidableEq δ] (sha256Hex : List UInt8 → String) (P : Replay δ → Prop) (s : Cache δ) (event : CacheEvent δ) : Prop :=
  ∀ s' r, s.outcome sha256Hex event = some (s',some r) → P r

/-- A name is read from the key again. -/
def Plain (s : Cache δ) : CacheEvent δ → Prop
  | .readEpoch i => ∀ route policy req, s.phases[i]? = some (.matched route policy req) → 0 ∉ bytes route.name
  | _ => True

/-- Who reads an epoch has the definition the epoch stands for: a request, and a refresh of its own
route. A publish sees every change since the last one. -/
def Current (s : Cache δ) : CacheEvent δ → Prop
  | .readEpoch i => ∀ route policy req, s.phases[i]? = some (.matched route policy req) → s.noted.route route.name = some route
  | .checkEpoch i => ∀ flow via, s.phases[i]? = some (.loaded flow via) → s.epochs flow.route.name = flow.epoch →
      s.noted.route flow.route.name = some via
  | .noteGeneration i => ∀ fresh previous, s.refreshes[i]? = some (.diffing fresh previous) → ∀ name,
      previous.route name = fresh.route name → s.noted.route name = fresh.route name
  | _ => True

end Dwara.Dataplane.CacheGenerations
