import Dwara.Lib.System
import Dwara.Lib.Text
import Dwara.Lib.Word
import Mathlib.Data.List.Dedup
import Mathlib.Data.List.Perm.Subperm
import Mathlib.Logic.Function.Basic

/-! Signed URLs that are for one use: the signature of a request, and the nonces that were seen. -/

namespace Dwara.Security.SignedUrl
open Dwara.Lib

/-- A text without line breaks, as a method, a path and an address are. -/
structure Line where
  text : String
  oneLine : '\n' ∉ text.toList

structure SignedUrlConfig where
  secret : Option String
  queryParam : String
  requireNonce : Bool
  nonceParam : String
  bindClientIp : Bool

inductive SignedUrlError where
  | missingSignature
  | missingNonce
  deriving DecidableEq, Repr

structure SignedUrlVerifier where
  secret : String
  queryParam : String
  requireNonce : Bool
  nonceParam : String
  bindClientIp : Bool

inductive SignedUrlResult where
  | valid
  | invalid
  | expired
  | nonceError
  deriving DecidableEq, Repr

/-- The parameters of a query; of several under one key the last one counts. -/
def parseQuery (query : String) : List (String × String) :=
  (((Text.split '&' query).filter (· ≠ "")).map fun pair => (Text.splitOnce '=' pair).getD (pair,"")).reverse

/-- The nonces that were seen and until when, in the order they came. -/
structure NonceCache where
  entries : List (String × UInt64)

namespace NonceCache
variable (cache : NonceCache) (nonce : String) (expires now : UInt64)

def maxNonces : ℕ := 4096

def names : List String := cache.entries.map (·.1)

/-- The oldest entries go as far as they are expired. -/
def purge : NonceCache := ⟨cache.entries.dropWhile (·.2 ≤ now)⟩

/-- The oldest entry goes when the cache is full. -/
def evict : NonceCache := if maxNonces ≤ cache.entries.length then ⟨cache.entries.tail⟩ else cache

/-- The nonce is fresh, and recorded. -/
def checkAndRecord : NonceCache × Bool :=
  if nonce ∈ (cache.purge now).names then (cache.purge now,false)
  else (⟨(cache.purge now).evict.entries ++ [(nonce,expires)]⟩,true)

end NonceCache

/-- One request to a route with signed URLs, at a second of the clock. -/
structure VerifyCall where
  method : Line
  path : Line
  query : String
  now : UInt64
  clientIp : Line

namespace SignedUrlVerifier
variable (mac : String → String → String) (v : SignedUrlVerifier) (call : VerifyCall)

def fromConfig (config : SignedUrlConfig) : Except SignedUrlError SignedUrlVerifier :=
  match config.secret.filter (· ≠ "") with
  | none => .error .missingSignature
  | some secret =>
    if config.queryParam = "" then .error .missingSignature
    else if config.requireNonce && config.nonceParam = "" then .error .missingNonce
    else .ok ⟨secret,config.queryParam,config.requireNonce,config.nonceParam,config.bindClientIp⟩

/-- What the signature is over. -/
def canonical (expires : UInt64) : String :=
  if v.bindClientIp then call.method.text ++ "\n" ++ call.path.text ++ "\n" ++ toString expires.toNat ++ "\n" ++ call.clientIp.text
  else call.method.text ++ "\n" ++ call.path.text ++ "\n" ++ toString expires.toNat

/-- The query that a minter hands out. -/
def sign (expires : UInt64) (nonce : Option String) : Except SignedUrlError String :=
  let query := v.queryParam ++ "=" ++ mac v.secret (v.canonical call expires) ++ "&expires=" ++ toString expires.toNat
  if v.requireNonce then
    match nonce with
    | none => .error .missingNonce
    | some n => .ok (query ++ "&" ++ v.nonceParam ++ "=" ++ n)
  else .ok query

def sigOf : Option String := (parseQuery call.query).lookup v.queryParam
def expiresOf : Option UInt64 := ((parseQuery call.query).lookup "expires").bind U64.parse
def nonceOf : Option String := (parseQuery call.query).lookup v.nonceParam

def compare (sig : String) (expires : UInt64) : SignedUrlResult :=
  if sig = mac v.secret (v.canonical call expires) then .valid else .invalid

def verify (cache : NonceCache) : NonceCache × SignedUrlResult :=
  match v.sigOf call,expiresOf call with
  | some sig, some expires =>
    if expires < call.now then (cache,.expired)
    else if v.requireNonce then
      match v.nonceOf call with
      | none => (cache,.nonceError)
      | some nonce =>
        let recorded := cache.checkAndRecord nonce expires call.now
        (recorded.1,if recorded.2 then v.compare mac call sig expires else .nonceError)
    else (cache,v.compare mac call sig expires)
  | _, _ => (cache,.invalid)

/-- A request that is valid but for what was seen before. -/
structure Signed (sig : String) (expires : UInt64) (nonce : String) : Prop where
  sig_eq : v.sigOf call = some sig
  expires_eq : expiresOf call = some expires
  nonce_eq : v.nonceOf call = some nonce
  inTime : call.now ≤ expires
  mac_eq : sig = mac v.secret (v.canonical call expires)

variable {mac v call}

/-- What is in time and presents a nonce is checked against the nonces that are held. -/
theorem verify_of_presented {sig nonce : String} {expires : UInt64} {cache : NonceCache} (hrequired : v.requireNonce = true)
    (hsig : v.sigOf call = some sig) (hexpires : expiresOf call = some expires) (hnonce : v.nonceOf call = some nonce)
    (htime : call.now ≤ expires) : v.verify mac call cache = ((cache.checkAndRecord nonce expires call.now).1,
      if (cache.checkAndRecord nonce expires call.now).2 then v.compare mac call sig expires else .nonceError) := by
  rw [verify,hsig,hexpires]
  dsimp only
  rw [if_neg (UInt64.not_lt.mpr htime),if_pos hrequired,hnonce]

/-- A request is answered without a look at the nonces, and where they are required it is refused
then, or it is in time and presents one. -/
theorem verify_alike_or_presented (mac : String → String → String) (v : SignedUrlVerifier) (call : VerifyCall) :
    (∃ result, (v.requireNonce = true → result ≠ .valid) ∧ ∀ cache, v.verify mac call cache = (cache,result)) ∨
      ∃ sig expires nonce, v.requireNonce = true ∧ v.sigOf call = some sig ∧ expiresOf call = some expires ∧
        v.nonceOf call = some nonce ∧ call.now ≤ expires := by
  simp only [verify]
  cases hsig : v.sigOf call with
  | none => exact .inl ⟨.invalid,fun _ => by decide,fun _ => rfl⟩
  | some sig =>
    cases hexpires : expiresOf call with
    | none => exact .inl ⟨.invalid,fun _ => by decide,fun _ => rfl⟩
    | some expires =>
      dsimp only
      split
      · exact .inl ⟨.expired,fun _ => by decide,fun _ => rfl⟩
      · rename_i htime
        split
        · rename_i hrequired
          cases hnonce : v.nonceOf call with
          | none => exact .inl ⟨.nonceError,fun _ => by decide,fun _ => rfl⟩
          | some nonce => exact .inr ⟨sig,expires,nonce,hrequired,rfl,rfl,rfl,UInt64.not_lt.mp htime⟩
        · rename_i hrequired
          exact .inl ⟨_,fun h => absurd h hrequired,fun _ => rfl⟩

/-- What a verifier with nonces does with a request. -/
theorem verify_cases (hnonce : v.requireNonce = true) (cache : NonceCache) :
    (v.verify mac call cache).1 = cache ∧ (v.verify mac call cache).2 ≠ .valid ∨
      ∃ nonce expires, v.nonceOf call = some nonce ∧ expiresOf call = some expires ∧
        (v.verify mac call cache).1 = (cache.checkAndRecord nonce expires call.now).1 ∧
        ((v.verify mac call cache).2 = .valid →
          (cache.checkAndRecord nonce expires call.now).2 = true ∧ ∃ sig, v.Signed mac call sig expires nonce) := by
  rcases verify_alike_or_presented mac v call with ⟨result,hrefused,halike⟩ | ⟨sig,expires,nonce,-,hsig,hexpires,hpresented,htime⟩
  · rw [halike]
    exact .inl ⟨rfl,hrefused hnonce⟩
  · rw [verify_of_presented hnonce hsig hexpires hpresented htime]
    refine .inr ⟨nonce,expires,hpresented,hexpires,rfl,fun hvalid => ?_⟩
    dsimp only at hvalid
    split at hvalid
    case isTrue hfresh =>
      rw [compare] at hvalid
      split at hvalid
      case isTrue hmac => exact ⟨hfresh,sig,hsig,hexpires,hpresented,htime,hmac⟩
      case isFalse => cases hvalid
    case isFalse => cases hvalid

theorem canonical_expires {other : VerifyCall} {expires expires' : UInt64}
    (h : v.canonical call expires = v.canonical other expires') : expires = expires' := by
  have hlast : ∀ (a b : String), (a ++ "\n" ++ b).toList = a.toList ++ '\n' :: b.toList := by
    intro a b
    simp [String.toList_append]
  have hdigits : ∀ n : ℕ, '\n' ∉ (toString n).toList := fun n hmem =>
    absurd (Text.isDigit_of_mem_toString_nat hmem) (by decide)
  have htext : toString expires.toNat = toString expires'.toNat := by
    rw [canonical,canonical] at h
    split at h
    case isTrue =>
      have hlist := congrArg String.toList h
      simp only [hlast,List.append_assoc,List.cons_append] at hlist
      obtain ⟨-,hrest⟩ := Text.append_sep_inj call.method.oneLine other.method.oneLine hlist
      obtain ⟨-,hrest⟩ := Text.append_sep_inj call.path.oneLine other.path.oneLine hrest
      exact String.toList_inj.mp (Text.append_sep_inj (hdigits _) (hdigits _) hrest).1
    case isFalse =>
      have hlist := congrArg String.toList h
      simp only [hlast,List.append_assoc,List.cons_append] at hlist
      obtain ⟨-,hrest⟩ := Text.append_sep_inj call.method.oneLine other.method.oneLine hlist
      exact String.toList_inj.mp (Text.append_sep_inj call.path.oneLine other.path.oneLine hrest).2
  exact UInt64.toNat_inj.mp (Text.toString_nat_injective htext)

end SignedUrlVerifier

namespace NonceCache
variable {cache : NonceCache} {nonce : String} {expires now : UInt64}

theorem purge_sublist (cache : NonceCache) (now : UInt64) : (cache.purge now).entries.Sublist cache.entries := List.dropWhile_sublist _

/-- Only what is expired is purged. -/
theorem mem_purge {e : String × UInt64} (h : e ∈ cache.entries) (hlive : now < e.2) : e ∈ (cache.purge now).entries := by
  rw [← List.takeWhile_append_dropWhile (p := (·.2 ≤ now)) (l := cache.entries)] at h
  rcases List.mem_append.mp h with hdropped | hkept
  · have hexpired := List.mem_takeWhile_imp hdropped
    exact absurd (of_decide_eq_true hexpired) (UInt64.not_le.mpr hlive)
  · exact hkept

theorem checkAndRecord_cases (cache : NonceCache) (nonce : String) (expires now : UInt64) :
    cache.checkAndRecord nonce expires now = (cache.purge now,false) ∧ nonce ∈ (cache.purge now).names ∨
      cache.checkAndRecord nonce expires now = (⟨(cache.purge now).evict.entries ++ [(nonce,expires)]⟩,true) ∧
        nonce ∉ (cache.purge now).names := by
  rw [checkAndRecord]
  by_cases h : nonce ∈ (cache.purge now).names
  · rw [if_pos h]
    exact .inl ⟨rfl,h⟩
  · rw [if_neg h]
    exact .inr ⟨rfl,h⟩

theorem evict_of_lt (h : cache.entries.length < maxNonces) : cache.evict = cache := if_neg (Nat.not_le.mpr h)

end NonceCache

/-- What a verifier keeps, the time of the last request, and the signatures it accepted. -/
structure Verifying where
  cache : NonceCache
  clock : UInt64
  accepted : List (String × UInt64)

/-- The requests to one verifier, at times that do not go back. -/
def verifying (mac : String → String → String) (v : SignedUrlVerifier) : System Verifying VerifyCall where
  init := ⟨⟨[]⟩,0,[]⟩
  step s call :=
    if s.clock ≤ call.now then
      some ⟨(v.verify mac call s.cache).1,call.now,
        s.accepted ++ if (v.verify mac call s.cache).2 = .valid then
          ((v.sigOf call).bind fun sig => (SignedUrlVerifier.expiresOf call).map (sig,·)).toList else []⟩
    else none

/-- A request that carries a valid signature has the nonce the signature was handed out with, and
comes before the second it expires in. -/
def AsMinted (mac : String → String → String) (v : SignedUrlVerifier) (minted : String → String) (call : VerifyCall) : Prop :=
  ∀ sig expires nonce, v.Signed mac call sig expires nonce → nonce = minted sig ∧ call.now < expires

section Run
variable {mac : String → String → String} {v : SignedUrlVerifier} {minted : String → String} {nonces : List String}

/-- Each accepted signature was for one expiry, and its nonce is remembered until then. -/
structure Remembered (mac : String → String → String) (v : SignedUrlVerifier) (minted : String → String) (nonces : List String)
    (s : Verifying) : Prop where
  apart : s.cache.names.Nodup
  presented : s.cache.names ⊆ nonces
  single : (s.accepted.map (·.1)).Nodup
  minted_as : ∀ a ∈ s.accepted, ∃ call : VerifyCall, a.1 = mac v.secret (v.canonical call a.2)
  held : ∀ a ∈ s.accepted, (minted a.1,a.2) ∈ s.cache.entries ∨ a.2 ≤ s.clock

theorem Remembered.held_purge {s : Verifying} (h : Remembered mac v minted nonces s) {now : UInt64} (hclock : s.clock ≤ now)
    {a : String × UInt64} (ha : a ∈ s.accepted) : (minted a.1,a.2) ∈ (s.cache.purge now).entries ∨ a.2 ≤ now := by
  rcases h.held a ha with hin | hpast
  · by_cases hlive : now < a.2
    · exact .inl (NonceCache.mem_purge hin hlive)
    · exact .inr (UInt64.not_lt.mp hlive)
  · exact .inr (UInt64.le_trans hpast hclock)

/-- With a fresh nonce the cache is not full, when it can hold all nonces that are presented. -/
theorem Remembered.roomy {s : Verifying} (h : Remembered mac v minted nonces s) (hbound : nonces.dedup.length ≤ NonceCache.maxNonces)
    {now : UInt64} {nonce : String} (hin : nonce ∈ nonces) (hfresh : nonce ∉ (s.cache.purge now).names) :
    (s.cache.purge now).evict = s.cache.purge now := by
  apply NonceCache.evict_of_lt
  have hsub := (NonceCache.purge_sublist s.cache now).map (·.1)
  have hnodup : (nonce :: (s.cache.purge now).names).Nodup := List.nodup_cons.mpr ⟨hfresh,hsub.nodup h.apart⟩
  have hsubset : nonce :: (s.cache.purge now).names ⊆ nonces.dedup := by
    intro n hn
    rcases List.mem_cons.mp hn with rfl | hn
    · exact List.mem_dedup.mpr hin
    · exact List.mem_dedup.mpr (h.presented (hsub.subset hn))
  have hlength := (List.subperm_of_subset hnodup hsubset).length_le
  rw [List.length_cons,NonceCache.names,List.length_map] at hlength
  omega

/-- A signature that was accepted is not accepted again. -/
theorem Remembered.not_again (hmac : ∀ secret, Function.Injective (mac secret)) {s : Verifying} (h : Remembered mac v minted nonces s)
    {call : VerifyCall} (hclock : s.clock ≤ call.now) (hminted : AsMinted mac v minted call) {sig nonce : String} {expires : UInt64}
    (hsigned : v.Signed mac call sig expires nonce) (hfresh : nonce ∉ (s.cache.purge call.now).names) :
    sig ∉ s.accepted.map (·.1) := by
  intro hmem
  obtain ⟨a,ha,rfl⟩ := List.mem_map.mp hmem
  obtain ⟨other,hother⟩ := h.minted_as a ha
  obtain rfl := SignedUrlVerifier.canonical_expires (hmac _ (hother.symm.trans hsigned.mac_eq))
  obtain ⟨rfl,hbefore⟩ := hminted _ _ _ hsigned
  rcases h.held_purge hclock ha with hin | hpast
  · exact hfresh (List.mem_map_of_mem hin)
  · exact UInt64.not_le.mpr hbefore hpast

theorem Remembered.step (hmac : ∀ secret, Function.Injective (mac secret)) (hnonce : v.requireNonce = true)
    (hbound : nonces.dedup.length ≤ NonceCache.maxNonces) {s s' : Verifying} {call : VerifyCall}
    (h : Remembered mac v minted nonces s) (hpresented : ∀ nonce, v.nonceOf call = some nonce → nonce ∈ nonces)
    (hminted : AsMinted mac v minted call) (hs : (verifying mac v).step s call = some s') : Remembered mac v minted nonces s' := by
  rw [verifying] at hs
  dsimp only at hs
  split at hs
  case isFalse => cases hs
  case isTrue hclock =>
    obtain rfl := Option.some.inj hs
    rcases SignedUrlVerifier.verify_cases hnonce s.cache with ⟨hcache,hresult⟩ | ⟨nonce,expires,hnonceOf,hexpires,hcache,hvalid⟩
    · rw [hcache,if_neg hresult,List.append_nil]
      refine ⟨h.apart,h.presented,h.single,h.minted_as,fun a ha => ?_⟩
      exact (h.held a ha).imp_right fun hpast => UInt64.le_trans hpast hclock
    · have hsub := (NonceCache.purge_sublist s.cache call.now).map (·.1)
      have hin := hpresented nonce hnonceOf
      rcases NonceCache.checkAndRecord_cases s.cache nonce expires call.now with ⟨hreplay,-⟩ | ⟨hrecord,hfresh⟩
      · rw [hreplay] at hcache hvalid
        have hresult : (v.verify mac call s.cache).2 ≠ .valid := fun hv => nomatch (hvalid hv).1
        rw [hcache,if_neg hresult,List.append_nil]
        exact ⟨hsub.nodup h.apart,fun n hn => h.presented (hsub.subset hn),h.single,h.minted_as,fun a ha => h.held_purge hclock ha⟩
      · rw [h.roomy hbound hin hfresh] at hrecord
        rw [hrecord] at hcache hvalid
        rw [hcache]
        have hnames : NonceCache.names ⟨(s.cache.purge call.now).entries ++ [(nonce,expires)]⟩ = (s.cache.purge call.now).names ++ [nonce] := by
          rw [NonceCache.names,List.map_append]
          rfl
        have happart : ((s.cache.purge call.now).names ++ [nonce]).Nodup := by
          refine List.nodup_append.mpr ⟨hsub.nodup h.apart,List.nodup_singleton _,fun n hn m hm heq => hfresh ?_⟩
          rwa [← List.mem_singleton.mp hm,← heq]
        have hpresented' : (s.cache.purge call.now).names ++ [nonce] ⊆ nonces := by
          intro n hn
          rcases List.mem_append.mp hn with hn | hn
          · exact h.presented (hsub.subset hn)
          · rwa [List.mem_singleton.mp hn]
        have hheld : ∀ a ∈ s.accepted, (minted a.1,a.2) ∈ (s.cache.purge call.now).entries ++ [(nonce,expires)] ∨ a.2 ≤ call.now :=
          fun a ha => (h.held_purge hclock ha).imp_left (List.mem_append_left _)
        rw [← hnames] at happart hpresented'
        by_cases hv : (v.verify mac call s.cache).2 = .valid
        · obtain ⟨-,sig,hsigned⟩ := hvalid hv
          rw [if_pos hv,hsigned.sig_eq,hexpires]
          have hnotin := h.not_again hmac hclock hminted hsigned hfresh
          refine ⟨happart,hpresented',?_,?_,?_⟩
          · rw [List.map_append]
            refine List.nodup_append.mpr ⟨h.single,List.nodup_singleton _,fun a ha b hb heq => hnotin ?_⟩
            obtain rfl : b = sig := List.mem_singleton.mp hb
            exact heq ▸ ha
          · intro a ha
            rcases List.mem_append.mp ha with ha | ha
            · exact h.minted_as a ha
            · rw [List.mem_singleton.mp ha]
              exact ⟨call,hsigned.mac_eq⟩
          · intro a ha
            rcases List.mem_append.mp ha with ha | ha
            · exact hheld a ha
            · rw [List.mem_singleton.mp ha,← (hminted _ _ _ hsigned).1]
              exact .inl (List.mem_append_right _ (List.mem_singleton_self _))
        · rw [if_neg hv,List.append_nil]
          exact ⟨happart,hpresented',h.single,h.minted_as,hheld⟩

end Run

/-- A signature is accepted once, where requests carry the nonce it was handed out with and come
before the second it expires in. -/
theorem signed_url_accepted_once {mac : String → String → String} (hmac : ∀ secret, Function.Injective (mac secret)) {v : SignedUrlVerifier}
    (hnonce : v.requireNonce = true) (minted : String → String) {calls : List VerifyCall}
    (hbound : (calls.filterMap v.nonceOf).dedup.length ≤ NonceCache.maxNonces) (hminted : ∀ call ∈ calls, AsMinted mac v minted call)
    {s : Verifying} (hrun : (verifying mac v).run calls = some s) : (s.accepted.map (·.1)).Nodup := by
  have hguard : (verifying mac v).Along (fun _ call => AsMinted mac v minted call ∧
      ∀ nonce, v.nonceOf call = some nonce → nonce ∈ calls.filterMap v.nonceOf) calls :=
    System.along_of_forall_mem fun call hcall => ⟨hminted call hcall,fun nonce hn => List.mem_filterMap.mpr ⟨call,hcall,hn⟩⟩
  have hinit : Remembered mac v minted (calls.filterMap v.nonceOf) (verifying mac v).init := by
    constructor
    · exact List.nodup_nil
    · exact List.nil_subset _
    · exact List.nodup_nil
    · exact nofun
    · exact nofun
  exact (System.guarded_inv _ hinit (fun s call s' h hG hs => h.step hmac hnonce hbound hG.2 hG.1 hs) hguard hrun).single

section Examples

/-- A keyed text in place of a hash. -/
def keyed (secret text : String) : String := secret ++ "." ++ text

theorem keyed_injective (secret : String) : Function.Injective (keyed secret) := by
  intro a b h
  have hlist := congrArg String.toList h
  simp only [keyed,String.toList_append] at hlist
  exact String.toList_inj.mp (List.append_cancel_left hlist)

def downloads : SignedUrlVerifier := ⟨"k","sig",true,"nonce",false⟩

/-- The URL of a download that is signed until second 100, with a nonce in its query. -/
def download (nonce : String) (now : UInt64) : VerifyCall :=
  ⟨⟨"GET",by decide⟩,⟨"/f",by decide⟩,"sig=k.GET\n/f\n100&expires=100&nonce=" ++ nonce,now,⟨"",by decide⟩⟩

theorem signed_url_accepted_once_download :
    ∃ s, (verifying keyed downloads).run [download "a" 50,download "a" 60] = some s ∧ (s.accepted.map (·.1)).Nodup := by
  have hbound : ([download "a" 50,download "a" 60].filterMap downloads.nonceOf).dedup.length ≤ NonceCache.maxNonces := by decide +kernel
  refine ⟨_,rfl,signed_url_accepted_once keyed_injective rfl (fun _ => "a") hbound ?_ rfl⟩
  intro call hcall sig expires nonce hsigned
  have hquery : downloads.nonceOf call = some "a" ∧ SignedUrlVerifier.expiresOf call = some 100 ∧ call.now < 100 := by
    rcases List.mem_cons.mp hcall with rfl | hcall
    · decide +kernel
    · rw [List.mem_singleton.mp hcall]
      decide +kernel
  obtain rfl := Option.some.inj (hquery.1.symm.trans hsigned.nonce_eq)
  obtain rfl := Option.some.inj (hquery.2.1.symm.trans hsigned.expires_eq)
  exact ⟨rfl,hquery.2.2⟩

/-- The signature is not over the nonce, so another nonce makes the URL good for another use. -/
theorem signed_url_reused :
    ¬∀ (mac : String → String → String), (∀ secret, Function.Injective (mac secret)) → ∀ (v : SignedUrlVerifier) (calls : List VerifyCall) (s : Verifying),
      v.requireNonce = true → (calls.filterMap v.nonceOf).dedup.length ≤ NonceCache.maxNonces → (verifying mac v).run calls = some s →
        (s.accepted.map (·.1)).Nodup := by
  intro h
  have htwice := h keyed keyed_injective downloads [download "a" 50,download "b" 50] _ rfl (by decide +kernel) rfl
  exact absurd htwice (by decide +kernel)

end Examples

end Dwara.Security.SignedUrl
