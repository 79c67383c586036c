import Dwara.Config.Masking
import Dwara.Dataplane.CacheKeys
import Dwara.Lib.Word

/-! How long a stored response is fresh, and the arithmetic on the seconds its origin advertises. -/

namespace Dwara.Config
open Dwara.Lib Dwara.Lib.Text
open Transforms (ValidationIssue issue)

def maxCacheMaxBodyBytes : UInt64 := 16 * 1024 * 1024

def maxCacheTtlSecs : UInt64 := 86400

def maxCacheStaleSecs : UInt64 := 86400

def maxCacheVaryHeaders : ℕ := 8

def maxCoalesceWaitMs : UInt64 := 60000

/-- The cache block of a route; with `coalescing`, how long a follower waits. -/
structure RouteCache where
  ttlSecs : UInt64
  staleWhileRevalidateSecs : Option UInt64
  maxBodyBytes : UInt64
  vary : List String
  coalescing : Option UInt64

def forbiddenVaryReason (name : String) : Option String :=
  if name ∈ ["authorization","cookie"] then some "requests carrying it are never cacheable, so varying on it is dead configuration"
  else if name = "host" then some "the route's host match already selects the response"
  else if name ∈ ["connection","keep-alive","proxy-authenticate","proxy-authorization","proxy-connection","te","trailer",
    "transfer-encoding","upgrade"] then some "hop-by-hop headers never reach the cache decision"
  else if name = "content-length" then some "framing header; not a variance dimension"
  else if name ∈ ["cache-control","pragma"] then some "request cache directives do not vary the response body"
  else if startsWith "x-consumer-" name then some "consumer identity is already a cache key component"
  else none

def isVaryChar (c : Char) : Bool := c.isLower || c = '-' || c.isDigit

def isVaryName (raw : String) : Bool :=
  let lowered := toAsciiLowercase (trim raw)
  lowered ≠ "" && lowered = trim raw && lowered.toList.head? ≠ some '-' && lowered.toList.getLast? ≠ some '-' &&
    lowered.toList.all isVaryChar

/-- The checks of the vary list from its entry `i` on, with the names seen before. -/
def validateVary (name : String) : ℕ → List String → List String → List ValidationIssue
  | _, _, [] => []
  | i, seen, raw :: rest =>
    let lowered := toAsciiLowercase (trim raw)
    let field := "cache.vary[" ++ toString i ++ "]"
    if isVaryName raw = false then
      issue name field ("'" ++ raw ++ "' is not a header name (use the trimmed lowercase form)") :: validateVary name (i + 1) seen rest
    else
      match forbiddenVaryReason lowered with
      | some reason => issue name field ("'" ++ lowered ++ "' cannot vary: " ++ reason) :: validateVary name (i + 1) seen rest
      | none =>
        (if lowered ∈ seen then [issue name field ("duplicate vary header '" ++ lowered ++ "' (deduplicate the list)")] else []) ++
          validateVary name (i + 1) (seen ++ [lowered]) rest

def validateRouteCache (name : String) (cache : RouteCache) : List ValidationIssue :=
  (if cache.ttlSecs = 0 then [issue name "cache.ttl_secs"
    ("ttl_secs must be >= 1 (a zero lifetime would expire every entry immediately; " ++ "omit the cache block to disable caching)")]
  else if maxCacheTtlSecs < cache.ttlSecs then [issue name "cache.ttl_secs"
    ("ttl_secs must be <= " ++ toString maxCacheTtlSecs ++ " (24 h; longer freshness belongs to a CDN in front of the gateway)")]
  else []) ++
  (if cache.staleWhileRevalidateSecs.any (maxCacheStaleSecs < ·) then [issue name "cache.stale_while_revalidate_secs"
    ("stale_while_revalidate_secs must be <= " ++ toString maxCacheStaleSecs ++ " (24 h, symmetric with the ttl bound)")]
  else []) ++
  (if cache.maxBodyBytes = 0 then [issue name "cache.max_body_bytes"
    "max_body_bytes must be >= 1 (0 would store nothing; omit the cache block to disable caching)"]
  else if maxCacheMaxBodyBytes < cache.maxBodyBytes then [issue name "cache.max_body_bytes"
    ("max_body_bytes must be <= " ++ toString maxCacheMaxBodyBytes ++ " (16 MiB; larger bodies stream through unstored)")]
  else []) ++
  (if maxCacheVaryHeaders < cache.vary.length then [issue name "cache.vary"
    ("at most " ++ toString maxCacheVaryHeaders ++ " vary headers per route (each multiplies the entry key space)")] else []) ++
  validateVary name 0 [] cache.vary ++
  (match cache.coalescing with
  | none => []
  | some waitMs =>
    if waitMs = 0 then [issue name "cache.coalescing.wait_ms"
      ("wait_ms must be >= 1 (0 would fail every follower open before the leader answers; " ++
        "omit the coalescing block to disable coalescing)")]
    else if maxCoalesceWaitMs < waitMs then [issue name "cache.coalescing.wait_ms"
      ("wait_ms must be <= " ++ toString maxCoalesceWaitMs ++ " (60 s; a follower parked longer is a stuck request from the " ++
        "client's point of view)")]
    else [])

end Dwara.Config

namespace Dwara.Dataplane.CacheLifetimes
open Dwara.Config Dwara.Lib Dwara.Lib.Text
open CacheKeys (HeaderValue)
open ResponseCache (CompiledRouteCache)

/-- The policy with its durations in milliseconds, and with the names that `match.accept` and CORS add. -/
def compilePolicy (cache : RouteCache) (accept cors : Bool) : CompiledRouteCache :=
  let vary := cache.vary.map fun v => toAsciiLowercase (trim v)
  let vary := if accept && !vary.contains "accept" then vary ++ ["accept"] else vary
  let vary := if cors && !vary.contains "origin" then vary ++ ["origin"] else vary
  { vary := vary
    ttl := cache.ttlSecs.toNat * 1000
    staleWhileRevalidate := (cache.staleWhileRevalidateSecs.getD 0).toNat * 1000
    maxBodyBytes := cache.maxBodyBytes.toNat }

/-- The directives of an origin that the cache acts on. -/
structure CacheControl where
  noStore : Bool := false
  noCache : Bool := false
  isPrivate : Bool := false
  mustRevalidate : Bool := false
  sMaxage : Option UInt64 := none
  maxAge : Option UInt64 := none
  staleIfError : Option UInt64 := none

def parseDeltaSeconds (s : String) : Option UInt64 := U64.parse (trim s)

namespace CacheControl

def directive (cc : CacheControl) (name : String) (arg : Option String) : CacheControl :=
  match toAsciiLowercase name with
  | "no-store" => { cc with noStore := true }
  | "no-cache" => { cc with noCache := true }
  | "private" => { cc with isPrivate := true }
  | "must-revalidate" => { cc with mustRevalidate := true }
  | "s-maxage" => { cc with sMaxage := arg.bind parseDeltaSeconds }
  | "max-age" => { cc with maxAge := arg.bind parseDeltaSeconds }
  | "stale-if-error" => { cc with staleIfError := arg.bind parseDeltaSeconds }
  | _ => cc

def item (cc : CacheControl) (raw : String) : CacheControl :=
  if trim raw = "" then cc
  else
    match splitOnce '=' (trim raw) with
    | some (name,arg) => cc.directive (trim name) (some (trim arg))
    | none => cc.directive (trim raw) none

/-- The directives of all lines, the last of a name in place of those before it. -/
def parse (headers : HeaderMap String HeaderValue) : CacheControl :=
  (((headers.getAll "cache-control").filterMap HeaderValue.toStr).flatMap (split ',')).foldl item {}

def effectiveMaxAge (cc : CacheControl) : Option UInt64 := cc.sMaxage.or cc.maxAge

end CacheControl

def varyVeto (policy : CompiledRouteCache) (v : HeaderValue) : Option String :=
  match v.toStr with
  | none => some "vary"
  | some line => (split ',' line).findSome? fun raw =>
    if trim raw = "" then none
    else if trim raw = "*" then some "vary_star"
    else if policy.vary.any (eqIgnoreAsciiCase · (trim raw)) then none
    else some "vary_uncovered"

/-- Why a response is not stored. -/
def storeVeto (headers : HeaderMap String HeaderValue) (policy : CompiledRouteCache) : Option String :=
  let cc := CacheControl.parse headers
  if headers.getAll "set-cookie" ≠ [] then some "set_cookie"
  else if cc.noStore || cc.isPrivate || cc.noCache then some "cache_control"
  else if cc.effectiveMaxAge = some 0 then some "cache_control"
  else if headers.getAll "content-encoding" ≠ [] then some "content_encoding"
  else (headers.getAll "vary").findSome? (varyVeto policy)

/-- The lifetimes that are stored with a response, and the hint to the backend. -/
structure Lifetimes where
  freshnessTtlMs : UInt64
  staleIfErrorMs : UInt64
  backendTtlMs : UInt64

def millis (secs : Option UInt64) : Overflowing UInt64 :=
  match secs with
  | some s => Overflowing.mul s 1000
  | none => pure 0

def ttlMs (policy : CompiledRouteCache) : UInt64 := UInt64.ofNat policy.ttl

def swrMs (policy : CompiledRouteCache) : UInt64 := UInt64.ofNat policy.staleWhileRevalidate

/-- `must-revalidate` leaves no window for errors. -/
def staleIfErrorOf (cc : CacheControl) : Overflowing UInt64 := if cc.mustRevalidate then pure 0 else millis cc.staleIfError

def storedLifetimes (headers : HeaderMap String HeaderValue) (policy : CompiledRouteCache) : Overflowing Lifetimes := do
  let cc := CacheControl.parse headers
  let freshnessTtlMs ← millis cc.effectiveMaxAge
  let staleIfErrorMs ← staleIfErrorOf cc
  let effTtlMs := if 0 < freshnessTtlMs then freshnessTtlMs else ttlMs policy
  let usable ← Overflowing.add effTtlMs (swrMs policy)
  let backendTtlMs ← Overflowing.add usable staleIfErrorMs
  return ⟨freshnessTtlMs,staleIfErrorMs,backendTtlMs⟩

/-- The age is below the lifetime and a window behind it, if there is a window. -/
def within (ttl window ageMs : UInt64) : Overflowing Bool :=
  if 0 < window then do
    let limit ← Overflowing.add ttl window
    return ageMs < limit
  else pure false

namespace Lifetimes
variable (l : Lifetimes) (policy : CompiledRouteCache) (ageMs : UInt64)

def effectiveFreshnessTtlMs : UInt64 := if 0 < l.freshnessTtlMs then l.freshnessTtlMs else ttlMs policy

def fresh : Bool := ageMs < l.effectiveFreshnessTtlMs policy

/-- Past its freshness an entry is served while it is refreshed. -/
def staleOk : Overflowing Bool := within (l.effectiveFreshnessTtlMs policy) (swrMs policy) ageMs

/-- Past its freshness an entry is served in place of an error. -/
def staleIfErrorOk : Overflowing Bool := within (l.effectiveFreshnessTtlMs policy) l.staleIfErrorMs ageMs

end Lifetimes

/-- What is stored of a response, and every comparison with it, goes over no word; and it is fresh as long as
its origin advertises. -/
structure Exact (headers : HeaderMap String HeaderValue) (policy : CompiledRouteCache) : Prop where
  stored : (storedLifetimes headers policy).wrapped = false
  staleOk : ∀ ageMs, ((storedLifetimes headers policy).value.staleOk policy ageMs).wrapped = false
  staleIfErrorOk : ∀ ageMs, ((storedLifetimes headers policy).value.staleIfErrorOk policy ageMs).wrapped = false
  fresh : ∀ secs, (CacheControl.parse headers).effectiveMaxAge = some secs → ∀ ageMs : UInt64,
    (storedLifetimes headers policy).value.fresh policy ageMs = true ↔ ageMs.toNat < 1000 * secs.toNat

/-- The milliseconds that a response can be used in all, as numbers. -/
def usableMs (headers : HeaderMap String HeaderValue) (policy : CompiledRouteCache) : ℕ :=
  let cc := CacheControl.parse headers
  (cc.effectiveMaxAge.elim policy.ttl fun s => 1000 * s.toNat) + policy.staleWhileRevalidate +
    if cc.mustRevalidate then 0 else cc.staleIfError.elim 0 fun s => 1000 * s.toNat

section Arithmetic
variable {headers : HeaderMap String HeaderValue} {policy : CompiledRouteCache} {secs : Option UInt64} {l : Lifetimes}

/-- Seconds in milliseconds, as a number. -/
def millisOf (secs : Option UInt64) : ℕ := secs.elim 0 fun s => 1000 * s.toNat

theorem millis_wrapped_iff : (millis secs).wrapped = false ↔ millisOf secs < 2^64 := by
  cases secs with
  | none => exact iff_of_true rfl (by decide)
  | some s =>
    rw [millis,Overflowing.wrapped_mul_eq_false_iff,millisOf,Option.elim_some,Nat.mul_comm]
    rfl

theorem toNat_millis (h : millisOf secs < 2^64) : (millis secs).value.toNat = millisOf secs := by
  cases secs with
  | none => rfl
  | some s =>
    rw [millisOf,Option.elim_some,Nat.mul_comm] at h
    rw [millis,Overflowing.toNat_mul h,millisOf,Option.elim_some,Nat.mul_comm]
    rfl

/-- The window for errors, as it is read off the directives. -/
def windowOf (cc : CacheControl) : Option UInt64 := if cc.mustRevalidate then none else cc.staleIfError

theorem window_eq (cc : CacheControl) : staleIfErrorOf cc = millis (windowOf cc) := by
  rw [windowOf,staleIfErrorOf]
  split <;> rfl

theorem usableMs_eq (headers : HeaderMap String HeaderValue) (policy : CompiledRouteCache) :
    usableMs headers policy = ((CacheControl.parse headers).effectiveMaxAge.elim policy.ttl fun s => 1000 * s.toNat) +
      policy.staleWhileRevalidate + millisOf (windowOf (CacheControl.parse headers)) := by
  rw [usableMs,windowOf,millisOf]
  split <;> rfl

theorem toNat_effective (httl : policy.ttl < 2^64) {fresh : UInt64} (hfresh : fresh.toNat = millisOf secs) (hzero : secs ≠ some 0) :
    (if 0 < fresh then fresh else ttlMs policy).toNat = secs.elim policy.ttl fun s => 1000 * s.toNat := by
  cases secs with
  | none =>
    have hnot : ¬ 0 < fresh := by
      rw [UInt64.lt_iff_toNat_lt,hfresh]
      exact Nat.lt_irrefl 0
    rw [if_neg hnot]
    exact UInt64.toNat_ofNat_of_lt httl
  | some s =>
    have hpos : 0 < s.toNat := Nat.pos_of_ne_zero fun h => hzero (congrArg some (UInt64.toNat_inj.mp h))
    have hlt : 0 < fresh := by
      rw [UInt64.lt_iff_toNat_lt,hfresh]
      exact Nat.mul_pos (by decide) hpos
    rw [if_pos hlt,hfresh]
    rfl

/-- Nothing goes over just when all that is added up is a word. -/
theorem stored_wrapped_iff (httl : policy.ttl < 2^64) (hswr : policy.staleWhileRevalidate < 2^64)
    (hzero : (CacheControl.parse headers).effectiveMaxAge ≠ some 0) :
    (storedLifetimes headers policy).wrapped = false ↔ usableMs headers policy < 2^64 := by
  rw [usableMs_eq]
  have hswrMs : (swrMs policy).toNat = policy.staleWhileRevalidate := UInt64.toNat_ofNat_of_lt hswr
  simp only [storedLifetimes,window_eq,Overflowing.wrapped_bind_eq_false_iff,millis_wrapped_iff,Overflowing.wrapped_pure,and_true,
    Overflowing.wrapped_add_eq_false_iff,hswrMs]
  set secs := (CacheControl.parse headers).effectiveMaxAge
  have hle : millisOf secs ≤ secs.elim policy.ttl fun s => 1000 * s.toNat := by
    cases secs with
    | none => exact Nat.zero_le _
    | some s => exact le_rfl
  constructor
  · rintro ⟨hfresh,hwindow,husable,hsum⟩
    rw [toNat_millis hwindow,Overflowing.toNat_add (by rw [hswrMs]; exact husable),hswrMs,
      toNat_effective httl (toNat_millis hfresh) hzero] at hsum
    exact hsum
  · intro hsum
    have hfresh : millisOf secs < 2^64 := by omega
    have heffective := toNat_effective httl (toNat_millis hfresh) hzero
    have hwindow : millisOf (windowOf (CacheControl.parse headers)) < 2^64 := by omega
    have husable : (if 0 < (millis secs).value then (millis secs).value else ttlMs policy).toNat + policy.staleWhileRevalidate < 2^64 := by
      rw [heffective]
      omega
    refine ⟨hfresh,hwindow,husable,?_⟩
    rw [toNat_millis hwindow,Overflowing.toNat_add (by rw [hswrMs]; exact husable),hswrMs,heffective]
    exact hsum

theorem within_wrapped_iff {ttl window ageMs : UInt64} :
    (within ttl window ageMs).wrapped = false ↔ window.toNat = 0 ∨ ttl.toNat + window.toNat < 2^64 := by
  rw [within]
  split
  · rename_i hpos
    have hne : window.toNat ≠ 0 := Nat.ne_of_gt (UInt64.lt_iff_toNat_lt.mp hpos)
    simp only [Overflowing.wrapped_bind_eq_false_iff,Overflowing.wrapped_add_eq_false_iff,Overflowing.wrapped_pure,and_true,hne,false_or]
  · rename_i hzero
    exact iff_of_true rfl (.inl (Nat.eq_zero_of_not_pos fun hpos => hzero (UInt64.lt_iff_toNat_lt.mpr hpos)))

theorem exact_iff (httl : policy.ttl < 2^64) (hswr : policy.staleWhileRevalidate < 2^64)
    (hzero : (CacheControl.parse headers).effectiveMaxAge ≠ some 0) : Exact headers policy ↔ usableMs headers policy < 2^64 := by
  constructor
  · intro h
    exact (stored_wrapped_iff httl hswr hzero).mp h.stored
  · intro hsum
    have hstored := (stored_wrapped_iff httl hswr hzero).mpr hsum
    rw [usableMs_eq] at hsum
    set secs := (CacheControl.parse headers).effectiveMaxAge with hsecs
    have hfresh : (millis secs).value.toNat = millisOf secs := toNat_millis (by
      cases hs : secs with
      | none => exact Nat.zero_lt_of_lt (Nat.lt_two_pow_self)
      | some s =>
        rw [hs,Option.elim_some] at hsum
        rw [millisOf,Option.elim_some]
        omega)
    have heffective : ((storedLifetimes headers policy).value.effectiveFreshnessTtlMs policy).toNat =
        secs.elim policy.ttl fun s => 1000 * s.toNat := toNat_effective httl hfresh hzero
    have hwindow : (storedLifetimes headers policy).value.staleIfErrorMs.toNat = millisOf (windowOf (CacheControl.parse headers)) := by
      show (staleIfErrorOf _).value.toNat = _
      rw [window_eq]
      exact toNat_millis (by omega)
    have hswrMs : (swrMs policy).toNat = policy.staleWhileRevalidate := UInt64.toNat_ofNat_of_lt hswr
    refine ⟨hstored,fun ageMs => within_wrapped_iff.mpr (.inr ?_),fun ageMs => within_wrapped_iff.mpr (.inr ?_),fun s hs ageMs => ?_⟩
    · rw [heffective,hswrMs]
      omega
    · rw [heffective,hwindow]
      omega
    · rw [Lifetimes.fresh,decide_eq_true_iff,UInt64.lt_iff_toNat_lt,heffective,hsecs,hs]
      rfl

end Arithmetic

section Admitted
variable {name : String} {cache : RouteCache}

theorem bounds_of_validate (h : validateRouteCache name cache = []) :
    cache.ttlSecs.toNat ≤ 86400 ∧ (cache.staleWhileRevalidateSecs.getD 0).toNat ≤ 86400 := by
  rw [validateRouteCache] at h
  simp only [List.append_eq_nil_iff] at h
  obtain ⟨⟨⟨⟨⟨httl,hstale⟩,-⟩,-⟩,-⟩,-⟩ := h
  constructor
  · by_cases hzero : cache.ttlSecs = 0
    · rw [hzero]
      exact Nat.zero_le _
    · rw [if_neg hzero] at httl
      by_cases hover : maxCacheTtlSecs < cache.ttlSecs
      · rw [if_pos hover] at httl
        cases httl
      · exact Nat.le_of_not_lt fun hlt => hover (UInt64.lt_iff_toNat_lt.mpr hlt)
  · cases hsecs : cache.staleWhileRevalidateSecs with
    | none => exact Nat.zero_le _
    | some secs =>
      by_cases hover : maxCacheStaleSecs < secs
      · rw [hsecs,if_pos (by simp [hover])] at hstale
        cases hstale
      · exact Nat.le_of_not_lt fun hlt => hover (UInt64.lt_iff_toNat_lt.mpr hlt)

end Admitted

/-- The arithmetic on the lifetimes of a response that is stored is exact just when its lifetime, the stale
window of the policy and the window for errors add up to a word of milliseconds. -/
theorem lifetimes_exact_iff {name : String} {cache : RouteCache} (hcache : validateRouteCache name cache = []) (accept cors : Bool)
    {headers : HeaderMap String HeaderValue} (hstore : storeVeto headers (compilePolicy cache accept cors) = none) :
    Exact headers (compilePolicy cache accept cors) ↔ usableMs headers (compilePolicy cache accept cors) < 2^64 := by
  obtain ⟨httl,hswr⟩ := bounds_of_validate hcache
  have hzero : (CacheControl.parse headers).effectiveMaxAge ≠ some 0 := by
    intro hzero
    simp only [storeVeto,hzero,if_true] at hstore
    split at hstore
    · cases hstore
    · split at hstore <;> cases hstore
  refine exact_iff ?_ ?_ hzero
  · show cache.ttlSecs.toNat * 1000 < _
    omega
  · show (cache.staleWhileRevalidateSecs.getD 0).toNat * 1000 < _
    omega

/-- A route with a minute of its own and ten seconds of stale answers. -/
def minute : RouteCache := ⟨60,some 10,1024,[],none⟩

def hourText : List UInt8 := "max-age=3600, stale-if-error=60".toList.map fun c => UInt8.ofNat c.toNat

def agesText : List UInt8 := "max-age=18446744073709552".toList.map fun c => UInt8.ofNat c.toNat

theorem hourText_valid : hourText.all CacheKeys.isValueByte = true := by decide

theorem agesText_valid : agesText.all CacheKeys.isValueByte = true := by decide

/-- A response that is fresh for an hour. -/
def hour : HeaderMap String HeaderValue := [("cache-control",⟨hourText,hourText_valid⟩)]

/-- A response that is fresh for more than half a billion years. -/
def ages : HeaderMap String HeaderValue := [("cache-control",⟨agesText,agesText_valid⟩)]

theorem lifetimes_exact_hour : Exact hour (compilePolicy minute false false) :=
  (@lifetimes_exact_iff "home" minute (by decide +kernel) false false hour (by decide +kernel)).mpr (by decide +kernel)

/-- Of those years 384 milliseconds are stored, and an advertised lifetime of an hour outlasts them. -/
theorem ages_expire_at_once :
    storeVeto ages (compilePolicy minute false false) = none ∧ ¬ Exact ages (compilePolicy minute false false) ∧
      (storedLifetimes ages (compilePolicy minute false false)).value.fresh (compilePolicy minute false false) 384 = false ∧
      (storedLifetimes hour (compilePolicy minute false false)).value.fresh (compilePolicy minute false false) 384 = true := by
  refine ⟨by decide +kernel,fun hexact => ?_,by decide +kernel,by decide +kernel⟩
  have hover : (storedLifetimes ages (compilePolicy minute false false)).wrapped = true := by decide +kernel
  exact Bool.false_ne_true (hexact.stored.symm.trans hover)

end Dwara.Dataplane.CacheLifetimes
