import Dwara.Dataplane.ResponseCache

/-! How fresh the responses are that the cache serves: on a lookup, to those who wait for another's
fetch, and on errors. -/

namespace Dwara.Dataplane.CacheFreshness
open Dwara.Lib Dwara.Dataplane.ResponseCache

/-- The policy of a route, in milliseconds and bytes. -/
structure Policy where
  ttl : ℕ
  staleWhileRevalidate : ℕ
  coalesceWait : Option ℕ
  maxBodyBytes : ℕ

/-- A stored response. `readable` says whether its status and headers still parse, and beside it
stands whether the response it was stored from carried `must-revalidate`. -/
structure Entry where
  epoch : ℕ
  storedAtMs : ℕ
  freshnessTtlMs : ℕ
  staleIfErrorMs : ℕ
  etag : Option String
  readable : Bool
  mustRevalidate : Bool

def effectiveFreshnessTtlMs (entry : Entry) (policy : Policy) : ℕ :=
  if 0 < entry.freshnessTtlMs then entry.freshnessTtlMs else policy.ttl

/-- The directives of a response the cache acts on, in seconds. -/
structure CacheControl where
  mustRevalidate : Bool := false
  sMaxage : Option ℕ := none
  maxAge : Option ℕ := none
  staleIfError : Option ℕ := none

def CacheControl.effectiveMaxAge (cc : CacheControl) : Option ℕ := cc.sMaxage.or cc.maxAge

/-- Seconds in milliseconds, as a 64-bit word. -/
def millis (secs : Option ℕ) : ℕ := secs.elim 0 fun n => n * 1000 % 2^64

/-- A response as the store stage reads it; without `bodyBytes` it fails while it is buffered. -/
structure Fetched where
  status : ℕ
  etag : Option String := none
  vetoed : Bool := false
  cacheControl : CacheControl := {}
  bodyBytes : Option ℕ := some 0

structure MissFlow where
  key : String
  routeName : String
  epoch : ℕ
  policy : Policy
  stored : Option Entry
  injectedInm : Bool

/-- A request that is not answered from the cache, before and after it is coalesced, or a refresh. -/
inductive Pending where
  | missed (flow : MissFlow)
  | fetching (flow : MissFlow)
  | leading (flow : MissFlow)
  | parked (flow : MissFlow)
  | background (flow : MissFlow)
  | done

def Pending.flow : Pending → Option MissFlow
  | missed flow => some flow
  | fetching flow => some flow
  | leading flow => some flow
  | parked flow => some flow
  | background flow => some flow
  | done => none

/-- The `x-cache` stamp. -/
inductive XCache where
  | hit | stale | miss | revalidated
  deriving DecidableEq, Repr

/-- Where a response comes from: the upstream, or an entry of some age, by itself or on what the
upstream has answered. -/
inductive Source where
  | upstream (status : ℕ)
  | entry (entry : Entry) (ageMs : ℕ) (answered : Option ℕ)

structure Served where
  xCache : Option XCache
  source : Source
  policy : Policy

/-- A request as the lookup sees it, with its key and the one of a `GET`. -/
structure CacheRequest where
  key : String
  getKey : String
  routeName : String
  policy : Policy
  isHead : Bool := false
  hasIfNoneMatch : Bool := false

structure Cache where
  clock : ℕ := 0
  epochs : String → ℕ := fun _ => 0
  store : String → Option Entry := fun _ => none
  inflight : List String := []
  coalescing : List String := []
  pending : List Pending := []

inductive CacheEvent where
  | lookup (req : CacheRequest) (now : ℕ)
  | attach (i : ℕ)
  | wake (i : ℕ) (now : ℕ)
  | fetched (i : ℕ) (resp : Fetched) (now : ℕ)
  | died (i : ℕ)
  | purge (route : String)
  | evict (key : String)

def maxCoalescingKeys : ℕ := 256

namespace Cache

/-- The entry under the key of this epoch; any other is dropped. -/
def read (s : Cache) (key : String) (epoch : ℕ) : Cache × Option Entry :=
  match s.store key with
  | some entry => if entry.epoch = epoch then (s,some entry) else ({ s with store := Function.update s.store key none },none)
  | none => (s,none)

/-- One refresh for a key, and so many in all. -/
def spawnRevalidate (s : Cache) (flow : MissFlow) : Cache :=
  if maxInflightRevalidations ≤ s.inflight.length ∨ flow.key ∈ s.inflight then s
  else { s with inflight := flow.key :: s.inflight, pending := s.pending ++ [.background { flow with injectedInm := true }] }

def serve (policy : Policy) (entry : Entry) (ageMs : ℕ) (xCache : XCache) : Served :=
  { xCache := some xCache, source := .entry entry ageMs none, policy }

/-- A fresh `GET` entry answers a `HEAD` that has none of its own. -/
def headFallback (s : Cache) (req : CacheRequest) (epoch now : ℕ) : Option Served :=
  (s.store req.getKey).bind fun entry =>
    let ageMs := now - entry.storedAtMs
    if entry.epoch = epoch ∧ ageMs < effectiveFreshnessTtlMs entry req.policy ∧ entry.readable then some (serve req.policy entry ageMs .hit)
    else none

/-- What a lookup answers from an entry, and what it leaves behind. -/
def answer (s : Cache) (req : CacheRequest) (epoch : ℕ) (entry : Entry) (now : ℕ) : Cache × Option Served :=
  let ageMs := now - entry.storedAtMs
  let ttlMs := effectiveFreshnessTtlMs entry req.policy
  let flow : MissFlow := ⟨req.key,req.routeName,epoch,req.policy,some entry,false⟩
  if ageMs < ttlMs then
    if entry.readable then (s,some (serve req.policy entry ageMs .hit))
    else ({ s with store := Function.update s.store req.key none, pending := s.pending ++ [.missed flow] },none)
  else if 0 < req.policy.staleWhileRevalidate ∧ ageMs < (ttlMs + req.policy.staleWhileRevalidate) % 2^64 ∧ req.isHead = false then
    if entry.readable then (s.spawnRevalidate flow,some (serve req.policy entry ageMs .stale))
    else ({ s with store := Function.update s.store req.key none, pending := s.pending ++ [.missed flow] },none)
  else ({ s with pending := s.pending ++ [.missed { flow with injectedInm := !req.hasIfNoneMatch && entry.etag.isSome }] },none)

def lookup (s : Cache) (req : CacheRequest) (now : ℕ) : Cache × Option Served :=
  let epoch := s.epochs req.routeName
  match s.read req.key epoch with
  | (s,some entry) => s.answer req epoch entry now
  | (s,none) =>
    match if req.isHead then s.headFallback req epoch now else none with
    | some served => (s,some served)
    | none => ({ s with pending := s.pending ++ [.missed ⟨req.key,req.routeName,epoch,req.policy,none,false⟩] },none)

/-- A miss leads, follows or fetches by itself. -/
def attach (s : Cache) (i : ℕ) (flow : MissFlow) : Cache :=
  if flow.policy.coalesceWait.isNone then { s with pending := s.pending.set i (.fetching flow) }
  else if flow.key ∈ s.coalescing then { s with pending := s.pending.set i (.parked flow) }
  else if maxCoalescingKeys ≤ s.coalescing.length then { s with pending := s.pending.set i (.fetching flow) }
  else { s with coalescing := flow.key :: s.coalescing, pending := s.pending.set i (.leading flow) }

/-- A follower wakes, or has waited long enough: what the store has now is its answer. -/
def wake (s : Cache) (i : ℕ) (flow : MissFlow) (now : ℕ) : Cache × Option Served :=
  let solo := { s with pending := s.pending.set i (.fetching flow) }
  if s.epochs flow.routeName ≠ flow.epoch then (solo,none)
  else
    match s.store flow.key with
    | some entry =>
      if entry.epoch = flow.epoch ∧ entry.readable then
        ({ s with pending := s.pending.set i .done },some (serve flow.policy entry (now - entry.storedAtMs) .hit))
      else (solo,none)
    | none => (solo,none)

def isServerError (status : ℕ) : Bool := 500 ≤ status && status < 600

/-- What is stored of a response. `must-revalidate` leaves no window for errors. -/
def entryOf (flow : MissFlow) (resp : Fetched) (now : ℕ) : Entry :=
  let cc := resp.cacheControl
  { epoch := flow.epoch
    storedAtMs := now
    freshnessTtlMs := millis cc.effectiveMaxAge
    staleIfErrorMs := if cc.mustRevalidate then 0 else millis cc.staleIfError
    etag := resp.etag
    readable := true
    mustRevalidate := cc.mustRevalidate }

/-- The response of the upstream, with a stamp. -/
def live (flow : MissFlow) (resp : Fetched) (xCache : Option XCache) : Served := ⟨xCache,.upstream resp.status,flow.policy⟩

/-- A 304 confirms the entry the flow has found, or tells that it is another. -/
def renew (s : Cache) (flow : MissFlow) (entry : Entry) (resp : Fetched) (now : ℕ) : Cache × Served :=
  if validatorsMatch resp.etag entry.etag then
    let refreshed := { entry with storedAtMs := now }
    (if s.epochs flow.routeName = flow.epoch then { s with store := Function.update s.store flow.key (some refreshed) } else s,
      if flow.injectedInm then
        if refreshed.readable then ⟨some .revalidated,.entry refreshed 0 (some resp.status),flow.policy⟩ else live flow resp none
      else live flow resp (some .revalidated))
  else ({ s with store := Function.update s.store flow.key none },live flow resp (some .miss))

/-- An error is answered with the entry the flow has found, within its window. -/
def onServerError (flow : MissFlow) (resp : Fetched) (now : ℕ) : Served :=
  match flow.stored with
  | some entry =>
    let ageMs := now - entry.storedAtMs
    if 0 < entry.staleIfErrorMs ∧ ageMs < (effectiveFreshnessTtlMs entry flow.policy + entry.staleIfErrorMs) % 2^64 ∧ entry.readable then
      ⟨some .stale,.entry entry ageMs (some resp.status),flow.policy⟩
    else live flow resp (some .miss)
  | none => live flow resp (some .miss)

/-- A fresh response within the cap is stored under the epoch it was fetched for. -/
def storeFresh (s : Cache) (flow : MissFlow) (resp : Fetched) (now : ℕ) : Cache × Served :=
  match resp.bodyBytes with
  | some n =>
    (if n ≤ flow.policy.maxBodyBytes ∧ s.epochs flow.routeName = flow.epoch then
      { s with store := Function.update s.store flow.key (some (entryOf flow resp now)) } else s,live flow resp (some .miss))
  | none => (s,⟨some .miss,.upstream 502,flow.policy⟩)

/-- The store half. -/
def finishMiss (s : Cache) (flow : MissFlow) (resp : Fetched) (now : ℕ) : Cache × Served :=
  if resp.status = 304 then
    match flow.stored with
    | some entry => s.renew flow entry resp now
    | none => (s,live flow resp (some .miss))
  else if isServerError resp.status then (s,onServerError flow resp now)
  else if resp.status ≠ 200 ∨ resp.vetoed then (s,live flow resp (some .miss))
  else s.storeFresh flow resp now

/-- What a step leaves behind and what it serves. A clock that runs back is no step. -/
def outcome (s : Cache) : CacheEvent → Option (Cache × Option Served)
  | .lookup req now => if s.clock ≤ now then some ({ s with clock := now }.lookup req now) else none
  | .attach i =>
    match s.pending[i]? with
    | some (.missed flow) => some (s.attach i flow,none)
    | _ => none
  | .wake i now =>
    if s.clock ≤ now then
      match s.pending[i]? with
      | some (.parked flow) => some ({ s with clock := now }.wake i flow now)
      | _ => none
    else none
  | .fetched i resp now =>
    if s.clock ≤ now then
      let ended := { s with clock := now, pending := s.pending.set i .done }
      match s.pending[i]? with
      | some (.fetching flow) => some ((ended.finishMiss flow resp now).1,some (ended.finishMiss flow resp now).2)
      | some (.leading flow) =>
        -- the slot is given back behind the store stage
        some ({ (ended.finishMiss flow resp now).1 with coalescing := s.coalescing.erase flow.key },some (ended.finishMiss flow resp now).2)
      | some (.background flow) => some ({ (ended.finishMiss flow resp now).1 with inflight := s.inflight.erase flow.key },none)
      | _ => none
    else none
  | .died i =>
    let ended := { s with pending := s.pending.set i .done }
    match s.pending[i]? with
    | some (.leading flow) => some ({ ended with coalescing := s.coalescing.erase flow.key },none)
    | some (.background flow) => some ({ ended with inflight := s.inflight.erase flow.key },none)
    | some _ => some (ended,none)
    | none => none
  | .purge route => some ({ s with epochs := Function.update s.epochs route (s.epochs route + 1) },none)
  | .evict key => some ({ s with store := Function.update s.store key none },none)

/-- A lookup finds no expired response with `must-revalidate` within the window for stale ones, and
who wakes to an entry wakes to a fresh one. -/
def Timely (s : Cache) : CacheEvent → Prop
  | .lookup req now => ∀ entry, s.store req.key = some entry → entry.epoch = s.epochs req.routeName → entry.readable = true →
      entry.mustRevalidate = true → req.isHead = false → 0 < req.policy.staleWhileRevalidate →
      now - entry.storedAtMs < (effectiveFreshnessTtlMs entry req.policy + req.policy.staleWhileRevalidate) % 2^64 →
      now - entry.storedAtMs < effectiveFreshnessTtlMs entry req.policy
  | .wake i now => ∀ flow, s.pending[i]? = some (.parked flow) → s.epochs flow.routeName = flow.epoch → ∀ entry,
      s.store flow.key = some entry → entry.epoch = flow.epoch → entry.readable = true →
      now - entry.storedAtMs < effectiveFreshnessTtlMs entry flow.policy
  | _ => True

end Cache

/-- A hit is of a fresh entry, a stale response within one of the two windows, and a response with
`must-revalidate` fresh or confirmed by the upstream. -/
def Served.Right (r : Served) : Prop :=
  match r.source with
  | .upstream _ => r.xCache ≠ some .hit ∧ r.xCache ≠ some .stale
  | .entry entry ageMs answered =>
    (r.xCache = some .hit → ageMs < effectiveFreshnessTtlMs entry r.policy) ∧
    (r.xCache = some .stale →
      0 < r.policy.staleWhileRevalidate ∧ ageMs < effectiveFreshnessTtlMs entry r.policy + r.policy.staleWhileRevalidate ∨
      0 < entry.staleIfErrorMs ∧ ageMs < effectiveFreshnessTtlMs entry r.policy + entry.staleIfErrorMs ∧
        ∃ status, answered = some status ∧ Cache.isServerError status = true) ∧
    (entry.mustRevalidate = true → ageMs < effectiveFreshnessTtlMs entry r.policy ∨ answered = some 304)

/-- Whatever the step serves is right. -/
def ServesRight (s : Cache) (event : CacheEvent) : Prop := ∀ s' r, s.outcome event = some (s',some r) → r.Right

def system : System Cache CacheEvent where
  init := {}
  step s event := (s.outcome event).map Prod.fst

/-- No window for errors is left where `must-revalidate` forbids it. -/
def Entry.Strict (entry : Entry) : Prop := entry.mustRevalidate = true → entry.staleIfErrorMs = 0

def MissFlow.Strict (flow : MissFlow) : Prop := ∀ entry, flow.stored = some entry → entry.Strict

def Pending.Strict (p : Pending) : Prop := ∀ flow, p.flow = some flow → flow.Strict

namespace Cache
variable {s s' : Cache} {event : CacheEvent} {flow : MissFlow}

/-- All entries are strict: in the store, and with those under way. -/
structure Strict (s : Cache) : Prop where
  store : ∀ key entry, s.store key = some entry → entry.Strict
  pending : ∀ p ∈ s.pending, p.Strict

theorem strict_init : Strict {} where
  store _ _ h := nomatch h
  pending _ h := absurd h List.not_mem_nil

theorem Strict.update (h : s.Strict) (key : String) {entry : Option Entry} (hentry : ∀ e, entry = some e → e.Strict) :
    Strict { s with store := Function.update s.store key entry } := by
  refine ⟨fun key' e he => ?_,h.pending⟩
  dsimp only at he
  by_cases hk : key' = key
  · subst hk
    rw [Function.update_self] at he
    exact hentry e he
  · rw [Function.update_of_ne hk] at he
    exact h.store key' e he

theorem Strict.evict (h : s.Strict) (key : String) : Strict { s with store := Function.update s.store key none } :=
  h.update key fun _ he => nomatch he

theorem Strict.add (h : s.Strict) {p : Pending} (hp : p.Strict) :
    Strict { s with pending := s.pending ++ [p] } := by
  refine ⟨h.store,fun q hq => ?_⟩
  obtain hq | hq := List.mem_append.mp hq
  · exact h.pending q hq
  · obtain rfl := List.mem_singleton.mp hq
    exact hp

theorem Strict.set (h : s.Strict) (i : ℕ) {p : Pending} (hp : p.Strict) :
    Strict { s with pending := s.pending.set i p } := by
  refine ⟨h.store,fun q hq => ?_⟩
  obtain hq | rfl := List.mem_or_eq_of_mem_set hq
  · exact h.pending q hq
  · exact hp

theorem Strict.done (h : s.Strict) (i : ℕ) : Strict { s with pending := s.pending.set i .done } := h.set i fun _ hf => nomatch hf

theorem entryOf_strict (flow : MissFlow) (resp : Fetched) (now : ℕ) : (entryOf flow resp now).Strict := fun h => if_pos h

theorem Strict.read (h : s.Strict) (key : String) (epoch : ℕ) : (s.read key epoch).1.Strict ∧
    ∀ entry, (s.read key epoch).2 = some entry → entry.Strict := by
  rw [Cache.read]
  split
  · rename_i entry hentry
    split
    · refine ⟨h,fun e he => ?_⟩
      obtain rfl := Option.some.inj he
      exact h.store key _ hentry
    · exact ⟨h.evict key,fun e he => nomatch he⟩
  · exact ⟨h,fun e he => nomatch he⟩

theorem Strict.answer (h : s.Strict) {req : CacheRequest} {epoch now : ℕ} {entry : Entry} (hentry : entry.Strict) :
    (s.answer req epoch entry now).1.Strict := by
  have hflow : ∀ (injectedInm : Bool) (flow : MissFlow), flow = ⟨req.key,req.routeName,epoch,req.policy,some entry,injectedInm⟩ →
      ∀ e, flow.stored = some e → e.Strict := by
    rintro injectedInm flow rfl e he
    obtain rfl := Option.some.inj he
    exact hentry
  rw [Cache.answer]
  split_ifs
  · exact h
  · exact (h.evict req.key).add fun flow hf => hflow false flow (Option.some.inj hf).symm
  · rw [spawnRevalidate]
    dsimp only
    split_ifs
    · exact h
    · exact ⟨h.store,(h.add (p := .background ⟨req.key,req.routeName,epoch,req.policy,some entry,true⟩)
        fun flow hf => hflow true flow (Option.some.inj hf).symm).pending⟩
  · exact (h.evict req.key).add fun flow hf => hflow false flow (Option.some.inj hf).symm
  · exact h.add fun flow hf => hflow _ flow (Option.some.inj hf).symm

theorem Strict.lookup (h : s.Strict) (req : CacheRequest) (now : ℕ) : (s.lookup req now).1.Strict := by
  rw [Cache.lookup]
  obtain ⟨hread,hfound⟩ := h.read req.key (s.epochs req.routeName)
  split
  · rename_i s₁ entry heq
    rw [heq] at hread hfound
    exact hread.answer (hfound entry rfl)
  · rename_i s₁ heq
    rw [heq] at hread
    split
    · exact hread
    · refine hread.add fun flow hf e he => ?_
      obtain rfl := Option.some.inj hf
      exact nomatch he

theorem Strict.finishMiss (h : s.Strict) (hflow : flow.Strict) (resp : Fetched) (now : ℕ) :
    (s.finishMiss flow resp now).1.Strict := by
  rw [Cache.finishMiss]
  split
  · split
    · rename_i entry hentry
      rw [renew]
      split
      · dsimp only
        split
        · refine h.update flow.key fun e he => ?_
          obtain rfl := Option.some.inj he
          exact hflow entry hentry
        · exact h
      · exact h.evict flow.key
    · exact h
  split
  · exact h
  split
  · exact h
  rw [storeFresh]
  split
  · dsimp only
    split
    · refine h.update flow.key fun e he => ?_
      obtain rfl := Option.some.inj he
      exact entryOf_strict flow resp now
    · exact h
  · exact h

theorem Strict.outcome (h : s.Strict) {r : Option Served} (hs : s.outcome event = some (s',r)) : s'.Strict := by
  have hclock : ∀ now, Strict { s with clock := now } := fun now => ⟨h.store,h.pending⟩
  have hfound : ∀ {i : ℕ} {p : Pending}, s.pending[i]? = some p → p.Strict :=
    fun hp => h.pending _ (List.mem_of_getElem? hp)
  cases event with
  | lookup req now =>
    rw [Cache.outcome] at hs
    split at hs
    · obtain rfl : _ = s' := congrArg Prod.fst (Option.some.inj hs)
      exact (hclock now).lookup req now
    · exact nomatch hs
  | attach i =>
    rw [Cache.outcome] at hs
    split at hs
    · rename_i flow hp
      obtain ⟨rfl,-⟩ := Prod.mk.inj (Option.some.inj hs)
      have hflow := hfound hp flow rfl
      rw [attach]
      split_ifs
      · exact h.set i fun f hf => Option.some.inj hf ▸ hflow
      · exact h.set i fun f hf => Option.some.inj hf ▸ hflow
      · exact h.set i fun f hf => Option.some.inj hf ▸ hflow
      · exact ⟨h.store,(h.set i (p := .leading flow) fun f hf => Option.some.inj hf ▸ hflow).pending⟩
    · exact nomatch hs
  | wake i now =>
    rw [Cache.outcome] at hs
    split at hs
    · split at hs
      · rename_i flow hp
        obtain rfl : _ = s' := congrArg Prod.fst (Option.some.inj hs)
        have hsolo := (hclock now).set i (p := .fetching flow) fun f hf => Option.some.inj hf ▸ hfound hp flow rfl
        rw [wake]
        dsimp only
        split
        · exact hsolo
        split
        · split
          · exact (hclock now).done i
          · exact hsolo
        · exact hsolo
      · exact nomatch hs
    · exact nomatch hs
  | fetched i resp now =>
    rw [Cache.outcome] at hs
    split at hs
    · have hended := (hclock now).done i
      split at hs
      · rename_i flow hp
        obtain ⟨rfl,-⟩ := Prod.mk.inj (Option.some.inj hs)
        exact hended.finishMiss (hfound hp flow rfl) resp now
      · rename_i flow hp
        obtain ⟨rfl,-⟩ := Prod.mk.inj (Option.some.inj hs)
        have hfinished := hended.finishMiss (hfound hp flow rfl) resp now
        exact ⟨hfinished.store,hfinished.pending⟩
      · rename_i flow hp
        obtain ⟨rfl,-⟩ := Prod.mk.inj (Option.some.inj hs)
        have hfinished := hended.finishMiss (hfound hp flow rfl) resp now
        exact ⟨hfinished.store,hfinished.pending⟩
      · exact nomatch hs
    · exact nomatch hs
  | died i =>
    have hended := h.done i
    rw [Cache.outcome] at hs
    dsimp only at hs
    split at hs
    · obtain ⟨rfl,-⟩ := Prod.mk.inj (Option.some.inj hs)
      exact ⟨hended.store,hended.pending⟩
    · obtain ⟨rfl,-⟩ := Prod.mk.inj (Option.some.inj hs)
      exact ⟨hended.store,hended.pending⟩
    · obtain ⟨rfl,-⟩ := Prod.mk.inj (Option.some.inj hs)
      exact hended
    · exact nomatch hs
  | purge route =>
    obtain ⟨rfl,-⟩ := Prod.mk.inj (Option.some.inj hs)
    exact ⟨h.store,h.pending⟩
  | evict key =>
    obtain ⟨rfl,-⟩ := Prod.mk.inj (Option.some.inj hs)
    exact h.evict key

section Right
variable {policy : Policy} {entry : Entry} {ageMs now : ℕ}

theorem right_hit_iff : (serve policy entry ageMs .hit).Right ↔ ageMs < effectiveFreshnessTtlMs entry policy := by
  constructor
  · exact fun h => h.1 rfl
  · exact fun h => ⟨fun _ => h,fun hstale => (nomatch hstale),fun _ => .inl h⟩

/-- Within the window a stale response is right unless it has to be revalidated. -/
theorem right_stale_iff (hpos : 0 < policy.staleWhileRevalidate)
    (hwindow : ageMs < (effectiveFreshnessTtlMs entry policy + policy.staleWhileRevalidate) % 2^64) :
    (serve policy entry ageMs .stale).Right ↔ (entry.mustRevalidate = true → ageMs < effectiveFreshnessTtlMs entry policy) := by
  constructor
  · exact fun h hmust => (h.2.2 hmust).resolve_right nofun
  · intro h
    exact ⟨fun hhit => (nomatch hhit),fun _ => .inl ⟨hpos,hwindow.trans_le (Nat.mod_le _ _)⟩,fun hmust => .inl (h hmust)⟩

theorem headFallback_right {req : CacheRequest} {epoch : ℕ} {r : Served} (h : s.headFallback req epoch now = some r) : r.Right := by
  obtain ⟨entry,-,h⟩ := Option.bind_eq_some_iff.mp h
  dsimp only at h
  split_ifs at h with hfresh
  obtain rfl := Option.some.inj h
  exact right_hit_iff.mpr hfresh.2.1

theorem answer_right_iff {req : CacheRequest} {epoch : ℕ} :
    (∀ r, (s.answer req epoch entry now).2 = some r → r.Right) ↔
      (entry.readable = true → entry.mustRevalidate = true → req.isHead = false → 0 < req.policy.staleWhileRevalidate →
        now - entry.storedAtMs < (effectiveFreshnessTtlMs entry req.policy + req.policy.staleWhileRevalidate) % 2^64 →
        now - entry.storedAtMs < effectiveFreshnessTtlMs entry req.policy) := by
  rw [answer]
  dsimp only
  split
  · rename_i hfresh
    refine iff_of_true (fun r hr => ?_) (fun _ _ _ _ _ => hfresh)
    split at hr
    · obtain rfl := Option.some.inj hr
      exact right_hit_iff.mpr hfresh
    · exact nomatch hr
  split
  · rename_i hstale
    split
    · rename_i hreadable
      constructor
      · intro h _ hmust _ _ _
        exact (right_stale_iff hstale.1 hstale.2.1).mp (h _ rfl) hmust
      · intro h r hr
        obtain rfl := Option.some.inj hr
        exact (right_stale_iff hstale.1 hstale.2.1).mpr fun hmust => h hreadable hmust hstale.2.2 hstale.1 hstale.2.1
    · rename_i hreadable
      exact iff_of_true (fun r hr => nomatch hr) (fun h => absurd h hreadable)
  · rename_i hstale
    refine iff_of_true (fun r hr => nomatch hr) (fun _ _ hhead hpos hwindow => absurd ⟨hpos,hwindow,hhead⟩ hstale)

/-- A lookup serves what is right just when it is timely. -/
theorem lookup_right_iff (s : Cache) (req : CacheRequest) (now : ℕ) :
    (∀ r, (s.lookup req now).2 = some r → r.Right) ↔ s.Timely (.lookup req now) := by
  have hmiss : ∀ s₁ : Cache, ∀ r, (match if req.isHead then s₁.headFallback req (s.epochs req.routeName) now else none with
      | some served => (s₁,some served)
      | none =>
        ({ s₁ with pending := s₁.pending ++ [Pending.missed ⟨req.key,req.routeName,s.epochs req.routeName,req.policy,none,false⟩] },none)).2 =
          some r → r.Right := by
    intro s₁ r hr
    split at hr
    · rename_i served hserved
      obtain rfl := Option.some.inj hr
      split at hserved
      · exact headFallback_right hserved
      · exact nomatch hserved
    · exact nomatch hr
  rw [Cache.lookup,Cache.read]
  cases hentry : s.store req.key with
  | none => exact iff_of_true (hmiss s) (fun e he => nomatch hentry.symm.trans he)
  | some entry =>
    dsimp only
    by_cases hepoch : entry.epoch = s.epochs req.routeName
    · rw [if_pos hepoch]
      dsimp only
      rw [answer_right_iff]
      constructor
      · intro h e he _ hreadable hmust hhead hpos hwindow
        obtain rfl := Option.some.inj (hentry.symm.trans he)
        exact h hreadable hmust hhead hpos hwindow
      · exact fun h => h entry hentry hepoch
    · rw [if_neg hepoch]
      refine iff_of_true (hmiss _) (fun e he heq => ?_)
      obtain rfl := Option.some.inj (hentry.symm.trans he)
      exact absurd heq hepoch

/-- Who wakes is served what is right just when the entry is fresh by then. -/
theorem wake_right_iff (s : Cache) (now : ℕ) {i : ℕ} (hp : s.pending[i]? = some (.parked flow)) :
    (∀ r, (s.wake i flow now).2 = some r → r.Right) ↔ s.Timely (.wake i now) := by
  have htimely : s.Timely (.wake i now) ↔ (s.epochs flow.routeName = flow.epoch → ∀ entry, s.store flow.key = some entry →
      entry.epoch = flow.epoch → entry.readable = true → now - entry.storedAtMs < effectiveFreshnessTtlMs entry flow.policy) := by
    constructor
    · exact fun h => h flow hp
    · intro h flow' hp'
      cases hp.symm.trans hp'
      exact h
  rw [htimely,wake]
  split
  · rename_i hepoch
    exact iff_of_true (fun r hr => nomatch hr) (fun heq => absurd heq hepoch)
  · rename_i hepoch
    cases hentry : s.store flow.key with
    | none => exact iff_of_true (fun r hr => nomatch hr) (fun _ e he => nomatch he)
    | some entry =>
      dsimp only
      split
      · rename_i hlive
        constructor
        · intro h _ e he _ _
          obtain rfl := Option.some.inj he
          exact right_hit_iff.mp (h _ rfl)
        · intro h r hr
          obtain rfl := Option.some.inj hr
          exact right_hit_iff.mpr (h (not_not.mp hepoch) entry rfl hlive.1 hlive.2)
      · rename_i hdead
        refine iff_of_true (fun r hr => nomatch hr) (fun _ e he heq hreadable => ?_)
        obtain rfl := Option.some.inj he
        exact absurd ⟨heq,hreadable⟩ hdead

/-- What a fetch ends with is right: an error is answered only within the window for errors. -/
theorem finishMiss_right (hflow : flow.Strict) (resp : Fetched) :
    (s.finishMiss flow resp now).2.Right := by
  have hlive : ∀ xCache : Option XCache, xCache ≠ some .hit → xCache ≠ some .stale → (live flow resp xCache).Right :=
    fun _ hhit hstale => ⟨hhit,hstale⟩
  rw [Cache.finishMiss]
  split
  · rename_i h304
    split
    · rw [renew]
      split
      · dsimp only
        split
        · split
          · exact ⟨fun hhit => (nomatch hhit),fun hstale => (nomatch hstale),fun _ => .inr (congrArg some h304)⟩
          · exact hlive none nofun nofun
        · exact hlive _ nofun nofun
      · exact hlive _ nofun nofun
    · exact hlive _ nofun nofun
  split
  · rename_i herror
    rw [onServerError]
    split
    · rename_i entry hentry
      dsimp only
      split
      · rename_i hwindow
        refine ⟨fun hhit => (nomatch hhit),fun _ => .inr ⟨hwindow.1,hwindow.2.1.trans_le (Nat.mod_le _ _),_,rfl,herror⟩,fun hmust => ?_⟩
        -- such an entry has no window
        have hzero := hflow entry hentry hmust
        omega
      · exact hlive _ nofun nofun
    · exact hlive _ nofun nofun
  split
  · exact hlive _ nofun nofun
  rw [storeFresh]
  split
  · exact hlive _ nofun nofun
  · exact ⟨nofun,nofun⟩

end Right

/-- A step serves what is right just when it is timely. -/
theorem servesRight_iff (hs : s.Strict) (hstep : (s.outcome event).isSome = true) : ServesRight s event ↔ s.Timely event := by
  have hfound : ∀ {i : ℕ} {p : Pending}, s.pending[i]? = some p → p.Strict :=
    fun hp => hs.pending _ (List.mem_of_getElem? hp)
  have hsilent : ∀ {event : CacheEvent}, (∀ s' r, s.outcome event ≠ some (s',some r)) → ServesRight s event :=
    fun hnone s' r h => absurd h (hnone s' r)
  have hquiet : ∀ {event : CacheEvent}, (∃ s₁, s.outcome event = some (s₁,none)) → ∀ s' r, s.outcome event ≠ some (s',some r) := by
    rintro event ⟨s₁,h₁⟩ s' r h
    exact nomatch (Prod.mk.inj (Option.some.inj (h₁.symm.trans h))).2
  cases event with
  | lookup req now =>
    rw [outcome] at hstep
    split at hstep
    · rename_i hclock
      have hlookup := lookup_right_iff { s with clock := now } req now
      change ServesRight s (.lookup req now) ↔ Timely { s with clock := now } (.lookup req now)
      rw [← hlookup]
      constructor
      · intro h r hr
        exact h _ r (by rw [outcome,if_pos hclock,← hr])
      · intro h s' r hr
        rw [outcome,if_pos hclock] at hr
        exact h r (congrArg Prod.snd (Option.some.inj hr))
    · exact nomatch hstep
  | wake i now =>
    rw [outcome] at hstep
    split at hstep
    · rename_i hclock
      split at hstep
      · rename_i flow hp
        have hwake := wake_right_iff { s with clock := now } now hp
        change ServesRight s (.wake i now) ↔ Timely { s with clock := now } (.wake i now)
        rw [← hwake]
        constructor
        · intro h r hr
          exact h _ r (by rw [outcome,if_pos hclock,hp,← hr])
        · intro h s' r hr
          rw [outcome,if_pos hclock,hp] at hr
          exact h r (congrArg Prod.snd (Option.some.inj hr))
      · exact nomatch hstep
    · exact nomatch hstep
  | fetched i resp now =>
    refine iff_of_true (fun s' r hr => ?_) trivial
    rw [outcome] at hr
    split at hr
    · split at hr
      · rename_i flow hp
        obtain ⟨-,hserved⟩ := Prod.mk.inj (Option.some.inj hr)
        exact Option.some.inj hserved ▸ finishMiss_right (hfound hp flow rfl) resp
      · rename_i flow hp
        obtain ⟨-,hserved⟩ := Prod.mk.inj (Option.some.inj hr)
        exact Option.some.inj hserved ▸ finishMiss_right (hfound hp flow rfl) resp
      · exact nomatch (Prod.mk.inj (Option.some.inj hr)).2
      · exact nomatch hr
    · exact nomatch hr
  | attach i =>
    refine iff_of_true (fun s' r hr => ?_) trivial
    rw [outcome] at hr
    split at hr
    · exact nomatch (Prod.mk.inj (Option.some.inj hr)).2
    · exact nomatch hr
  | died i =>
    refine iff_of_true (fun s' r hr => ?_) trivial
    rw [outcome] at hr
    dsimp only at hr
    split at hr
    · exact nomatch (Prod.mk.inj (Option.some.inj hr)).2
    · exact nomatch (Prod.mk.inj (Option.some.inj hr)).2
    · exact nomatch (Prod.mk.inj (Option.some.inj hr)).2
    · exact nomatch hr
  | purge route => exact iff_of_true (hsilent (hquiet ⟨_,rfl⟩)) trivial
  | evict key => exact iff_of_true (hsilent (hquiet ⟨_,rfl⟩)) trivial

/-- In every run whatever is served is right just when every step is timely. -/
theorem along_servesRight_iff {events : List CacheEvent} {s : Cache} (hs : system.run events = some s) :
    system.Along ServesRight events ↔ system.Along Timely events := by
  have hstrict : ∀ pre post r, events = pre ++ post → system.run pre = some r → r.Strict := by
    rintro pre post r - hr
    refine System.run_inv Strict strict_init (fun t a t' ht hstep => ?_) hr
    obtain ⟨o,ho,rfl⟩ := Option.map_eq_some_iff.mp hstep
    exact ht.outcome ho
  have hboth := System.forall_prefix_and_along_iff (S := system) (G := Timely) (L := ServesRight) Strict strict_init
    (fun t a t' ht hstep => by
      obtain ⟨o,ho,rfl⟩ := Option.map_eq_some_iff.mp hstep
      rw [servesRight_iff ht (by rw [ho]; rfl),and_iff_right (ht.outcome ho)]) hs
  rw [← hboth,and_iff_right hstrict]

/-- What is stamped as a hit past its lifetime, or is past it and has to be revalidated. -/
def tooOld (r : Served) : Bool :=
  match r.source with
  | .upstream _ => false
  | .entry entry ageMs answered =>
    effectiveFreshnessTtlMs entry r.policy ≤ ageMs && (r.xCache == some .hit || entry.mustRevalidate && answered.isNone)

theorem not_right_of_tooOld {r : Served} (h : tooOld r = true) : ¬ r.Right := by
  obtain ⟨xCache,source,policy⟩ := r
  cases source with
  | upstream status => exact nomatch h
  | entry entry ageMs answered =>
    obtain ⟨hage,hwrong⟩ := (Bool.and_eq_true _ _).mp h
    rw [decide_eq_true_iff] at hage
    rintro ⟨hhit,-,hmust⟩
    obtain hstamp | hentry := (Bool.or_eq_true _ _).mp hwrong
    · exact (hhit (eq_of_beq hstamp)).not_ge hage
    · obtain ⟨hentry,hnone⟩ := (Bool.and_eq_true _ _).mp hentry
      obtain hfresh | hanswered := hmust hentry
      · exact hfresh.not_ge hage
      · rw [hanswered] at hnone
        exact nomatch hnone

private theorem not_along {events : List CacheEvent} {event : CacheEvent}
    (h : (system.run events).any (fun s => (s.outcome event).any fun o => o.2.any tooOld) = true) :
    ¬ system.Along ServesRight (events ++ [event]) := by
  intro hall
  obtain ⟨s,hs,hany⟩ := (Option.any_eq_true _ _).mp h
  obtain ⟨⟨s',r⟩,ho,hserved⟩ := (Option.any_eq_true _ _).mp hany
  cases r with
  | none => exact nomatch hserved
  | some r => exact not_right_of_tooOld hserved (hall.last hs s' r ho)

/-- A page on a route with a window for stale responses. -/
def page (staleWhileRevalidate : ℕ) (coalesceWait : Option ℕ) : CacheRequest where
  key := "GET /"
  getKey := "GET /"
  routeName := "home"
  policy := ⟨10,staleWhileRevalidate,coalesceWait,100⟩

/-- Who follows a fetch that fails is served the expired entry as a hit, and a response with
`must-revalidate` is served stale by a lookup. -/
theorem serves_expired :
    ¬ system.Along ServesRight
      ([.lookup (page 0 (some 5)) 0,.attach 0,.fetched 0 { status := 200 } 0,.lookup (page 0 (some 5)) 20,.attach 1,
        .lookup (page 0 (some 5)) 20,.attach 2,.fetched 1 { status := 500 } 21] ++ [.wake 2 21]) ∧
    ¬ system.Along ServesRight
      ([.lookup (page 10 none) 0,.attach 0,.fetched 0 { status := 200, cacheControl := { mustRevalidate := true } } 0] ++
        [.lookup (page 10 none) 15]) :=
  ⟨not_along (by decide +kernel),not_along (by decide +kernel)⟩

def visit : List CacheEvent :=
  [.lookup (page 1000 none) 0,.attach 0,.fetched 0 { status := 200, cacheControl := { maxAge := some 1 } } 5,.lookup (page 1000 none) 500,
    .lookup (page 1000 none) 1200]

theorem servesRight_visit : ∃ s, system.run visit = some s ∧ system.Along ServesRight visit := by
  have hsome : (system.run visit).isSome = true := by decide +kernel
  obtain ⟨s,hs⟩ := Option.isSome_iff_exists.mp hsome
  refine ⟨s,hs,(along_servesRight_iff hs).mpr (System.along_of_alongFrom ?_)⟩
  refine ⟨fun _ he => (nomatch he),trivial,trivial,?_,?_,trivial⟩
  · intro entry hentry
    cases hentry
    exact fun _ _ hmust => nomatch hmust
  · intro entry hentry
    cases hentry
    exact fun _ _ hmust => nomatch hmust

end Cache

end Dwara.Dataplane.CacheFreshness
