import Dwara.Resilience.Health
import Mathlib.Algebra.Group.Int.Defs
import Mathlib.Algebra.Group.Nat.Defs
import Mathlib.Data.List.Basic
import Mathlib.Data.List.Nodup
import Mathlib.Data.List.Range
import Mathlib.Logic.Function.Basic

/-! Endpoint selection of one upstream: health filtering, locality, and the load
balancing algorithms. Endpoints are named by their index. -/

namespace Dwara.Dataplane.Balance
open Dwara.Resilience.Health

inductive LoadBalancer where
  | roundRobin
  | leastRequests
  | random
  | ipHash
  | maglev
  | peakEwma
  deriving DecidableEq, Repr

inductive LocalityMode where
  | prefer
  | strict
  | failover
  deriving DecidableEq, Repr

structure UpstreamLocality where
  mode : LocalityMode
  enforceDataResidency : Bool
  allowedRegions : List String
  deniedRegions : List String
  deriving DecidableEq, Repr

/-- The edge's region and zone. -/
structure LocalityContext where
  region : Option String
  zone : Option String
  deriving DecidableEq, Repr

namespace LocalityContext

def isSet (ctx : LocalityContext) : Bool := ctx.region.isSome || ctx.zone.isSome

/-- An endpoint without a region matches every context. -/
def regionMatches (ctx : LocalityContext) (endpointRegion : Option String) : Bool :=
  match ctx.region,endpointRegion with
  | some ctxRegion,some epRegion => ctxRegion = epRegion
  | _,_ => true

def zoneMatches (ctx : LocalityContext) (endpointZone : Option String) : Bool :=
  match ctx.zone,endpointZone with
  | some ctxZone,some epZone => ctxZone = epZone
  | _,_ => true

end LocalityContext

/-- The configured part of an endpoint's row. -/
structure LbEndpoint where
  address : String
  port : ℕ
  weight : ℕ
  region : Option String
  zone : Option String
  deriving DecidableEq, Repr

/-- An endpoint set as a build leaves it: ring and table only name endpoints, the maglev
table of a pool is never empty, and there are no more endpoints than a machine word counts. -/
structure LbState where
  endpoints : List LbEndpoint
  algorithm : LoadBalancer
  slowStartMs : ℕ
  ring : List (BitVec 64 × ℕ)
  maglevTable : List ℕ
  health : Option HealthParams
  locality : Option UpstreamLocality
  endpoints_lt : endpoints.length < 2 ^ 64
  ring_sorted : ring.Pairwise (fun p q => p.1 < q.1)
  ring_lt : ∀ p ∈ ring, p.2 < endpoints.length
  maglev_lt : ∀ i ∈ maglevTable, i < endpoints.length
  maglev_ne_nil : algorithm = .maglev → endpoints ≠ [] → maglevTable ≠ []

/-- A pool of another algorithm has an empty ring. -/
theorem emptyRing_sorted : ([] : List (BitVec 64 × ℕ)).Pairwise (fun p q => p.1 < q.1) := List.Pairwise.nil

/-- The cells other requests move: in-flight counts, round-robin phases, latency
costs, and the state of the random draws. -/
structure Cells where
  inflight : ℕ → ℕ
  currentWeight : ℕ → ℤ
  costNs : ℕ → Option ℕ
  rng : BitVec 64

/-- What the clocks show at a pick. `rampedWeight i w` is the floating-point value
`round(w * recovery_ramp_factor)` of endpoint `i`. -/
structure Moment where
  nowMs : ℕ
  enteredAgoMs : ℕ → ℕ
  rampedWeight : ℕ → ℤ → ℤ

/-- The passive health tracker of each endpoint that has one. -/
abbrev Trackers := ℕ → Option EndpointHealth

/-- Indexing past the end, or a remainder by zero. -/
inductive Panic where
  | outOfBounds
  | zeroRemainder
  deriving DecidableEq, Repr

/-- FNV-1a over the bytes, with the murmur finalizer. -/
def fnvUpdate (h : BitVec 64) (bytes : List UInt8) : BitVec 64 :=
  bytes.foldl (fun h b => (h ^^^ b.toBitVec.setWidth 64) * 0x100000001b3#64) h

def fnvFinish (h : BitVec 64) : BitVec 64 :=
  let x := h ^^^ (h >>> 33)
  let x := x * 0xff51afd7ed558ccd#64
  let x := x ^^^ (x >>> 33)
  let x := x * 0xc4ceb9fe1a85ec53#64
  x ^^^ (x >>> 33)

/-- The position of a client key on the ring. -/
def keyHash (key : String) : BitVec 64 := fnvFinish (fnvUpdate 0xcbf29ce484222325#64 key.toUTF8.toList)

def xorshift (x : BitVec 64) : BitVec 64 :=
  let x := x + 0x9E3779B97F4A7C15#64
  let x := x ^^^ (x >>> 12)
  let x := x ^^^ (x <<< 25)
  let x := x ^^^ (x >>> 27)
  x * 0x2545F4914F6CDD1D#64

namespace LbState
variable (lb : LbState)

/-- Effective weight after the slow-start ramp. -/
def effectiveWeight (m : Moment) (i : ℕ) (e : LbEndpoint) : ℤ :=
  if lb.slowStartMs = 0 then e.weight
  else if lb.slowStartMs ≤ m.enteredAgoMs i then e.weight
  else max (e.weight * m.enteredAgoMs i / max lb.slowStartMs 1 : ℕ) 1

/-- The weight one round-robin walk adds for an endpoint, at least one. -/
def walkWeight (m : Moment) (i : ℕ) : ℤ :=
  let w := (lb.endpoints[i]?.map (lb.effectiveWeight m i)).getD 1
  max (if 0 < w then m.rampedWeight i w else w) 1

/-- The candidate indices; no candidate set stands for all endpoints. -/
def indices (cand : Option (List ℕ)) : List ℕ := cand.getD (List.range lb.endpoints.length)

end LbState

/-- The walk so far: total weight, best index and its running weight, and the phases. -/
structure Walk where
  total : ℤ
  best : ℕ
  bestWeight : ℤ
  currentWeight : ℕ → ℤ

def Walk.visit (weight : ℕ → ℤ) (w : Walk) (i : ℕ) : Walk where
  total := w.total + weight i
  best := if w.bestWeight < w.currentWeight i + weight i then i else w.best
  bestWeight := max w.bestWeight (w.currentWeight i + weight i)
  currentWeight := Function.update w.currentWeight i (w.currentWeight i + weight i)

/-- Smooth weighted round-robin over the candidates: the pick and the new phases. -/
def smoothWeightedRr (weight : ℕ → ℤ) (currentWeight : ℕ → ℤ) :
    List ℕ → Except Panic (ℕ × (ℕ → ℤ))
  | [] => .error .outOfBounds
  | first :: rest =>
    let w := (first :: rest).foldl (Walk.visit weight) ⟨0,first,-2 ^ 63,currentWeight⟩
    if w.total ≤ 0 then
      .ok (w.best,w.currentWeight)
    else
      .ok (w.best,Function.update w.currentWeight w.best (w.currentWeight w.best - w.total))

/-- The smaller of two indices under `(f i, i)`. -/
def lower (f : ℕ → ℕ) (i j : ℕ) : ℕ := if f j < f i ∨ (f j = f i ∧ j < i) then j else i

/-- The first index with the smallest `(f i, i)`. -/
def minByKey (f : ℕ → ℕ) : List ℕ → Option ℕ
  | [] => none
  | i :: is => some (is.foldl (lower f) i)

/-- `random-2`: two distinct draws, the less loaded of the two endpoints. -/
def randomPick (cells : Cells) (is : List ℕ) : Except Panic (ℕ × BitVec 64) :=
  let r₁ := xorshift cells.rng
  let r₂ := xorshift r₁
  if is.length = 0 then .error .zeroRemainder
  else if is.length = 1 then .error .zeroRemainder
  else
    let a := r₁.toNat % is.length
    let b := r₂.toNat % (is.length - 1)
    let b := if a ≤ b then b + 1 else b
    match is[a]?,is[b]? with
    | some ia,some ib =>
      .ok (if cells.inflight ia < cells.inflight ib then ia
        else if cells.inflight ib < cells.inflight ia then ib
        else min ia ib,r₂)
    | _,_ => .error .outOfBounds

/-- The owner of a key: the first eligible vnode from its hash on, wrapping. -/
def ringOwner (ring : List (BitVec 64 × ℕ)) (h : BitVec 64) (eligible : ℕ → Bool) : Option ℕ :=
  (((ring.filter (fun p => h ≤ p.1)).find? (fun p => eligible p.2)).map (·.2)).or
    ((ring.find? (fun p => eligible p.2)).map (·.2))

/-- The table entry of a key: the one it hashes to, or when filtering is active the
first eligible one from there on, wrapping. -/
def maglevOwner (table : List ℕ) (h : BitVec 64) (filtered : Bool) (eligible : ℕ → Bool) : Option ℕ :=
  let start := h.toNat % table.length
  if !filtered then table[start]? else (table.drop start ++ table.take start).find? eligible

/-- How an algorithm ends: through the common end of `choose`, or by returning at once. -/
inductive Selection where
  | selected (i : ℕ)
  | returned (i : ℕ)
  deriving DecidableEq, Repr

def Selection.index : Selection → ℕ
  | .selected i => i
  | .returned i => i

/-- The score of peak-EWMA. -/
def ewmaScore (cells : Cells) (i : ℕ) : ℕ := (cells.costNs i).getD 0 * (cells.inflight i + 1)

/-- Whether the candidates are fewer than the endpoints. -/
def LbState.filtered (lb : LbState) (cand : Option (List ℕ)) : Bool :=
  cand.any (fun c => c.length < lb.endpoints.length)

/-- An index the hashing algorithms may return. -/
def LbState.eligible (lb : LbState) (cand : Option (List ℕ)) (i : ℕ) : Bool :=
  !lb.filtered cand || i ∈ cand.getD []

/-- Round-robin as an algorithm of its own and as the fallback of the hashing ones. -/
def LbState.roundRobin (lb : LbState) (m : Moment) (cells : Cells) (cand : Option (List ℕ)) :
    Except Panic (ℕ × Cells) :=
  (smoothWeightedRr (lb.walkWeight m) cells.currentWeight (lb.indices cand)).map
    (fun p => (p.1,{ cells with currentWeight := p.2 }))

/-- The algorithm over the candidates that are left. -/
def LbState.select (lb : LbState) (m : Moment) (cells : Cells) (cand : Option (List ℕ)) (key : Option String) :
    Except Panic (Selection × Cells) :=
  let roundRobin := (lb.roundRobin m cells cand).map (fun p => (Selection.selected p.1,p.2))
  match lb.algorithm with
  | .roundRobin => roundRobin
  | .leastRequests =>
    match minByKey cells.inflight (lb.indices cand) with
    | some i => .ok (.selected i,cells)
    | none => .error .outOfBounds
  | .random =>
    (randomPick cells (lb.indices cand)).map (fun p => (.selected p.1,{ cells with rng := p.2 }))
  | .ipHash =>
    match key with
    | some k =>
      match ringOwner lb.ring (keyHash k) (lb.eligible cand) with
      | some i => .ok (.selected i,cells)
      | none => roundRobin
    | none => roundRobin
  | .maglev =>
    match key with
    | some k =>
      if lb.maglevTable = [] then
        (lb.roundRobin m cells cand).map (fun p => (.returned p.1,p.2))
      else
        match maglevOwner lb.maglevTable (keyHash k) (lb.filtered cand) (lb.eligible cand) with
        | some i => .ok (.returned i,cells)
        | none => roundRobin
    | none => roundRobin
  | .peakEwma =>
    match minByKey (ewmaScore cells) (lb.indices cand) with
    | some i => .ok (.selected i,cells)
    | none => .error .outOfBounds

inductive LocalityResult where
  | restricted (set : List ℕ)
  | unchanged (orig : Option (List ℕ))
  | denied
  deriving DecidableEq, Repr

/-- Whether data residency lets an endpoint region be used. -/
def UpstreamLocality.permits (loc : UpstreamLocality) (region : Option String) : Bool :=
  match region with
  | none => true
  | some r => r ∉ loc.deniedRegions && (!loc.enforceDataResidency || r ∈ loc.allowedRegions)

namespace LbState
variable (lb : LbState)

def region (i : ℕ) : Option String := lb.endpoints[i]?.bind (·.region)
def zone (i : ℕ) : Option String := lb.endpoints[i]?.bind (·.zone)

/-- The candidates that data residency leaves. -/
def residencyFiltered (loc : UpstreamLocality) (cand : Option (List ℕ)) : List ℕ :=
  (lb.indices cand).filter (fun i => loc.permits (lb.region i))

/-- The candidates of the edge's region, and of its zone where that narrows them. -/
def zoneRefined (ctx : LocalityContext) (afterResidency : List ℕ) : List ℕ :=
  let localSet := afterResidency.filter (fun i => ctx.regionMatches (lb.region i))
  if ctx.zone.isSome then
    let zoned := localSet.filter (fun i => ctx.zoneMatches (lb.zone i))
    if zoned ≠ [] ∧ zoned.length < localSet.length then zoned else localSet
  else
    localSet

def applyLocality (loc : UpstreamLocality) (ctx : LocalityContext) (healthCand : Option (List ℕ)) : LocalityResult :=
  let base := lb.indices healthCand
  let residencyFiltered := lb.residencyFiltered loc healthCand
  if residencyFiltered = [] ∧ loc.enforceDataResidency then
    .denied
  else
    let afterResidency := if residencyFiltered.length < base.length then residencyFiltered else base
    let zoneRefined := lb.zoneRefined ctx afterResidency
    match loc.mode with
    | .strict =>
      if zoneRefined = [] then .denied
      else if zoneRefined.length < afterResidency.length then .restricted zoneRefined
      else .unchanged healthCand
    | .prefer =>
      if zoneRefined ≠ [] ∧ zoneRefined.length < afterResidency.length then .restricted zoneRefined
      else .unchanged healthCand
    | .failover =>
      if zoneRefined ≠ [] then
        if zoneRefined.length < afterResidency.length then .restricted zoneRefined
        else .unchanged healthCand
      else if residencyFiltered.length < base.length then .restricted residencyFiltered
      else .unchanged healthCand

/-- The candidates left by locality; `none` when the request is denied. -/
def localityCandidates (ctx : LocalityContext) (cand : Option (List ℕ)) : Option (Option (List ℕ)) :=
  match lb.locality with
  | none => some cand
  | some loc =>
    if ctx.isSet then
      match lb.applyLocality loc ctx cand with
      | .restricted set => some (some set)
      | .unchanged orig => some orig
      | .denied => none
    else
      some cand

/-- The trackers after every endpoint has been asked whether it is a candidate. -/
def askedTrackers (params : HealthParams) (trackers : Trackers) (now : ℕ) : Trackers := fun i =>
  if i < lb.endpoints.length then (trackers i).map (fun h => (h.isCandidate params now).1) else trackers i

/-- The endpoints health leaves. -/
def available (params : HealthParams) (trackers : Trackers) (now : ℕ) : List ℕ :=
  (List.range lb.endpoints.length).filter (fun i => (trackers i).all (fun h => (h.isCandidate params now).2))

/-- The trackers and the candidates after health; nothing left means everything (fail-open). -/
def healthCandidates (trackers : Trackers) (now : ℕ) : Trackers × Option (List ℕ) :=
  match lb.health with
  | none => (trackers,none)
  | some params =>
    (lb.askedTrackers params trackers now,
      if lb.available params trackers now = [] then none else some (lb.available params trackers now))

end LbState

/-- The selected endpoint spends a probe slot. -/
def Trackers.consumeProbe (trackers : Trackers) (i : ℕ) : Trackers :=
  Function.update trackers i ((trackers i).map EndpointHealth.consumeProbe)

/-- What a pick leaves behind, whether it counts as fail-open, and what it returns. -/
structure Pick where
  trackers : Trackers
  cells : Cells
  failOpen : Bool
  index : Option ℕ

/-- Pick the endpoint for one dispatch; `key` is what the hashing algorithms hash. -/
def LbState.choose (lb : LbState) (ctx : LocalityContext) (trackers : Trackers) (cells : Cells) (m : Moment)
    (key : Option String) : Except Panic Pick :=
  if lb.endpoints = [] then
    .ok ⟨trackers,cells,false,none⟩
  else
    let (trackers,healthCand) := lb.healthCandidates trackers m.nowMs
    let failOpen := lb.health.isSome && healthCand.isNone
    match lb.localityCandidates ctx healthCand with
    | none => .ok ⟨trackers,cells,failOpen,none⟩
    | some cand =>
      match lb.indices cand with
      -- A single candidate: no algorithm to run.
      | [i] => .ok ⟨trackers.consumeProbe i,cells,failOpen,some i⟩
      | _ =>
        match lb.select m cells cand key with
        | .error panic => .error panic
        | .ok (.returned i,cells) => .ok ⟨trackers,cells,failOpen,some i⟩
        | .ok (.selected i,cells) =>
          .ok ⟨if lb.health.isSome then trackers.consumeProbe i else trackers,cells,failOpen,some i⟩

end Dwara.Dataplane.Balance
