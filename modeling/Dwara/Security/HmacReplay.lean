import Dwara.Lib.System
import Dwara.Lib.Word
import Mathlib.Data.Nat.Notation
import Mathlib.Logic.Function.Basic
import Mathlib.Order.Basic

/-! Signed requests: the headers, the window of the timestamp, and the nonces that are remembered. -/

namespace Dwara.Security.HmacAuth
open Dwara.Lib

abbrev Bytes := List UInt8

inductive AuthError where
  | invalid (message : String)
  | unavailable (message : String)
  deriving DecidableEq, Repr

/-- A request with its signature headers, as far as they are there. -/
structure HmacRequest where
  method : String
  path : String
  query : Option String
  keyId : Option String
  timestamp : Option String
  nonce : Option String
  bodySha256 : Option String
  signature : Option String

/-- The signature headers of a request, well formed. -/
structure SignedHeaders where
  keyId : String
  timestamp : String
  presentedTs : UInt64
  nonce : String
  bodySha256 : String
  bodyDigest : Bytes
  presentedMac : Bytes
  deriving DecidableEq, Repr

def isVisibleAscii (s : String) : Bool := !s.toList.isEmpty && s.toList.all fun c => 0x21 ≤ c.toNat && c.toNat ≤ 0x7e

def hexDigit (c : Char) : Option ℕ :=
  if c.isDigit then some (c.toNat - '0'.toNat)
  else if 'a' ≤ c ∧ c ≤ 'f' then some (c.toNat - 'a'.toNat + 10)
  else if 'A' ≤ c ∧ c ≤ 'F' then some (c.toNat - 'A'.toNat + 10)
  else none

def hexBytes : List Char → Option Bytes
  | [] => some []
  | hi :: lo :: rest =>
    match hexDigit hi,hexDigit lo,hexBytes rest with
    | some h, some l, some bytes => some (UInt8.ofNat (16 * h + l) :: bytes)
    | _, _, _ => none
  | [_] => none

def decodeHex32 (value : String) : Option Bytes := if value.toList.length = 64 then hexBytes value.toList else none

def headerOf (value : Option String) (missing : String) : Except AuthError String :=
  match value with
  | some text => .ok text
  | none => .error (.invalid missing)

def readHeaders (req : HmacRequest) : Except AuthError SignedHeaders := do
  let keyId ← headerOf req.keyId "signed request lacks x-dwara-key-id"
  let timestamp ← headerOf req.timestamp "signed request lacks x-dwara-timestamp"
  let nonce ← headerOf req.nonce "signed request lacks x-dwara-nonce"
  let bodySha256 ← headerOf req.bodySha256 "signed request lacks x-dwara-body-sha256"
  let signature ← headerOf req.signature "signed request lacks x-dwara-signature"
  if !isVisibleAscii keyId || 128 < keyId.toList.length then throw (.invalid "key id is not 1..=128 visible ascii bytes")
  if !isVisibleAscii nonce || nonce.toList.length < 16 || 256 < nonce.toList.length then
    throw (.invalid "nonce is not 16..=256 visible ascii bytes")
  match decodeHex32 signature,decodeHex32 bodySha256 with
  | none, _ => throw (.invalid "signature is not 64 hex digits")
  | _, none => throw (.invalid "body digest is not 64 hex digits")
  | some presentedMac, some bodyDigest =>
    if !timestamp.toList.all Char.isDigit || 20 < timestamp.toList.length then throw (.invalid "timestamp is not decimal unix seconds")
    match U64.parse timestamp with
    | none => throw (.invalid "timestamp is not decimal unix seconds")
    | some presentedTs => return ⟨keyId,timestamp,presentedTs,nonce,bodySha256,bodyDigest,presentedMac⟩

/-- The text a signature is over: the elements as they are presented, each on a line. -/
def canonicalString (req : HmacRequest) (h : SignedHeaders) : String :=
  "\n".intercalate ["dwara-hmac-v1",h.keyId,req.method.toUpper,req.path,req.query.getD "",h.timestamp,h.nonce,h.bodySha256]

/-- The second of a moment; moments are in nanoseconds of the wall clock. -/
def secs (now : ℕ) : ℕ := now / 10^9

def fromSecs (s : ℕ) : ℕ := s * 10^9

/-- One shard of the remembered nonces, each with the moment it expires. -/
abbrev Shard := List (String × ℕ)

namespace Shard

/-- The entry that expires soonest. -/
def victim : Shard → Option (String × ℕ)
  | [] => none
  | e :: es =>
    match victim es with
    | none => some e
    | some f => if e.2 ≤ f.2 then some e else some f

def dropSoonest : ℕ → Shard → Shard
  | 0, shard => shard
  | n + 1, shard =>
    match victim shard with
    | none => shard
    | some e => dropSoonest n (shard.filter (·.1 ≠ e.1))

/-- A full shard drops what is expired, and then as many of the soonest as it takes to have room. -/
def sweep (cap : ℕ) (now : ℕ) (shard : Shard) : Shard :=
  if cap ≤ shard.length then
    dropSoonest ((shard.filter (now < ·.2)).length + 1 - cap) (shard.filter (now < ·.2))
  else shard

def insert (key : String) (expires : ℕ) (shard : Shard) : Shard := shard.filter (·.1 ≠ key) ++ [(key,expires)]

end Shard

abbrev NonceCache := Fin 16 → Shard

structure HmacCredential where
  consumerName : String
  secret : Bytes

structure Identity where
  consumerName : String
  bodyDigest : Bytes
  deriving DecidableEq, Repr

/-- The signature family of an authenticator. The hash and the spread of keys over shards are parameters. -/
structure HmacAuthenticator where
  mac : Bytes → String → Bytes
  shardFor : String → Fin 16
  cap : ℕ
  skewSecs : ℕ
  keys : List (String × HmacCredential)

namespace HmacAuthenticator
variable (auth : HmacAuthenticator)

/-- The key is fresh, and remembered for `ttl`. -/
def checkAndInsert (cache : NonceCache) (key : String) (ttl : ℕ) (now : ℕ) : NonceCache × Bool :=
  let shard := cache (auth.shardFor key)
  if ((shard.lookup key).any (now < ·)) = true then (cache,false)
  else (Function.update cache (auth.shardFor key) ((shard.sweep auth.cap now).insert key (now + ttl)),true)

def cacheKey (h : SignedHeaders) : String := h.keyId ++ "\n" ++ h.nonce

/-- How far the timestamp is from the second of the clock. -/
def drift (h : SignedHeaders) (now : ℕ) : ℕ := (h.presentedTs.toNat - secs now) + (secs now - h.presentedTs.toNat)

def authenticateHmac (cache : NonceCache) (req : HmacRequest) (now : ℕ) : NonceCache × Except AuthError Identity :=
  match readHeaders req with
  | .error e => (cache,.error e)
  | .ok h =>
    if auth.skewSecs < drift h now then (cache,.error (.invalid "signature timestamp is outside the clock-skew window"))
    else
      match auth.keys.lookup h.keyId with
      | none => (cache,.error (.invalid "unknown hmac credentials"))
      | some credential =>
        if auth.mac credential.secret (canonicalString req h) ≠ h.presentedMac then
          (cache,.error (.invalid "request signature did not verify"))
        else
          let checked := auth.checkAndInsert cache (cacheKey h) (fromSecs (auth.skewSecs * 2)) now
          (checked.1,if checked.2 then .ok ⟨credential.consumerName,h.bodyDigest⟩
            else .error (.invalid "nonce already used inside the window"))

/-- The request is signed as it should be, at a moment its timestamp is good for. -/
structure Verifies (req : HmacRequest) (h : SignedHeaders) (now : ℕ) : Prop where
  headers : readHeaders req = .ok h
  inWindow : drift h now ≤ auth.skewSecs
  signed : ∃ credential, auth.keys.lookup h.keyId = some credential ∧ auth.mac credential.secret (canonicalString req h) = h.presentedMac

variable {auth}

theorem authenticateHmac_cases (cache : NonceCache) (req : HmacRequest) (now : ℕ) :
    ((auth.authenticateHmac cache req now).1 = cache ∧ (auth.authenticateHmac cache req now).2.isOk = false ∧ ∀ h, ¬auth.Verifies req h now) ∨
      ∃ h, auth.Verifies req h now ∧
        (auth.authenticateHmac cache req now).1 = (auth.checkAndInsert cache (cacheKey h) (fromSecs (auth.skewSecs * 2)) now).1 ∧
        (auth.authenticateHmac cache req now).2.isOk = (auth.checkAndInsert cache (cacheKey h) (fromSecs (auth.skewSecs * 2)) now).2 := by
  rw [authenticateHmac]
  cases hheaders : readHeaders req with
  | error e => exact .inl ⟨rfl,rfl,fun h hv => nomatch hheaders.symm.trans hv.headers⟩
  | ok h =>
    have hsame : ∀ h', auth.Verifies req h' now → h' = h := fun h' hv => Except.ok.inj (hv.headers.symm.trans hheaders)
    dsimp only
    by_cases hwindow : auth.skewSecs < drift h now
    · rw [if_pos hwindow]
      refine .inl ⟨rfl,rfl,fun h' hv => ?_⟩
      obtain rfl := hsame h' hv
      exact Nat.not_le.mpr hwindow hv.inWindow
    · rw [if_neg hwindow]
      cases hkey : auth.keys.lookup h.keyId with
      | none =>
        refine .inl ⟨rfl,rfl,fun h' hv => ?_⟩
        obtain rfl := hsame h' hv
        obtain ⟨credential,hcredential,-⟩ := hv.signed
        exact nomatch hkey.symm.trans hcredential
      | some credential =>
        dsimp only
        by_cases hmac : auth.mac credential.secret (canonicalString req h) = h.presentedMac
        · rw [if_neg (not_not.mpr hmac)]
          refine .inr ⟨h,⟨hheaders,Nat.not_lt.mp hwindow,credential,hkey,hmac⟩,rfl,?_⟩
          dsimp only
          split
          case isTrue hfresh => rw [hfresh]; rfl
          case isFalse hseen => rw [Bool.eq_false_iff.mpr hseen]; rfl
        · rw [if_pos hmac]
          refine .inl ⟨rfl,rfl,fun h' hv => ?_⟩
          obtain rfl := hsame h' hv
          obtain ⟨found,hfound,hsigned⟩ := hv.signed
          obtain rfl := Option.some.inj (hkey.symm.trans hfound)
          exact hmac hsigned

end HmacAuthenticator

/-- What an instance remembers, and the moment of the last request. -/
structure Authenticating where
  cache : NonceCache
  clock : ℕ

structure HmacCall where
  req : HmacRequest
  now : ℕ

/-- The signed requests to one instance, at moments that do not go back. -/
def authenticating (auth : HmacAuthenticator) : System Authenticating HmacCall where
  init := ⟨fun _ => [],0⟩
  step s call := if s.clock ≤ call.now then some ⟨(auth.authenticateHmac s.cache call.req call.now).1,call.now⟩ else none

/-- The request passes, with these headers. -/
def Accepts (auth : HmacAuthenticator) (s : Authenticating) (call : HmacCall) (h : SignedHeaders) : Prop :=
  s.clock ≤ call.now ∧ readHeaders call.req = .ok h ∧ (auth.authenticateHmac s.cache call.req call.now).2.isOk = true

/-- The headers name one request: a key, a timestamp and a nonce. -/
def SignedHeaders.Same (h other : SignedHeaders) : Prop :=
  h.keyId = other.keyId ∧ h.presentedTs = other.presentedTs ∧ h.nonce = other.nonce

/-- No shard is full. -/
def Roomy (auth : HmacAuthenticator) (s : Authenticating) : Prop := ∀ i, (s.cache i).length < auth.cap

namespace Shard
variable {key : String} {expires : ℕ}

theorem lookup_insert_self (shard : Shard) : (shard.insert key expires).lookup key = some expires := by
  rw [insert]
  induction shard with
  | nil => simp
  | cons e shard ih =>
    by_cases h : e.1 = key
    · rw [List.filter_cons_of_neg (by simp [h])]
      exact ih
    · rw [List.filter_cons_of_pos (by simp [h]),List.cons_append,List.lookup_cons,beq_eq_false_iff_ne.mpr (Ne.symm h)]
      exact ih

theorem lookup_insert_of_ne (shard : Shard) {other : String} (h : other ≠ key) : (shard.insert key expires).lookup other = shard.lookup other := by
  rw [insert]
  induction shard with
  | nil => simp [List.lookup_cons,beq_eq_false_iff_ne.mpr h]
  | cons e shard ih =>
    by_cases he : e.1 = key
    · rw [List.filter_cons_of_neg (by simp [he]),ih,List.lookup_cons,he,beq_eq_false_iff_ne.mpr h]
    · rw [List.filter_cons_of_pos (by simp [he]),List.cons_append,List.lookup_cons,List.lookup_cons,ih]

theorem sweep_of_lt {cap : ℕ} {shard : Shard} (h : shard.length < cap) (now : ℕ) : shard.sweep cap now = shard :=
  if_neg (Nat.not_le.mpr h)

end Shard

section Run
variable {auth : HmacAuthenticator}

/-- The remembered moment of a key. -/
def remembered (auth : HmacAuthenticator) (s : Authenticating) (key : String) : Option ℕ := (s.cache (auth.shardFor key)).lookup key

/-- What a request with room does to the key of a nonce. -/
theorem remembered_check {s : Authenticating} (hroom : Roomy auth s) (key other : String) (ttl : ℕ) (now : ℕ) :
    remembered auth ⟨(auth.checkAndInsert s.cache other ttl now).1,now⟩ key =
      if key = other ∧ (auth.checkAndInsert s.cache other ttl now).2 = true then some (now + ttl) else remembered auth s key := by
  rw [HmacAuthenticator.checkAndInsert]
  split
  case isTrue => simp [remembered]
  case isFalse =>
    rw [Shard.sweep_of_lt (hroom _),remembered]
    by_cases hkey : key = other
    · subst hkey
      simp [Shard.lookup_insert_self]
    · rw [if_neg fun h => hkey h.1,remembered]
      by_cases hshard : auth.shardFor key = auth.shardFor other
      · rw [hshard]
        simp [Shard.lookup_insert_of_ne _ hkey]
      · simp [Function.update_of_ne hshard]

/-- A remembered key stays so until its moment comes. -/
theorem remembered_step {key : String} {expires : ℕ} (s : Authenticating) (call : HmacCall) (s' : Authenticating)
    (h : remembered auth s key = some expires ∨ expires ≤ s.clock) (hroom : Roomy auth s) (hs : (authenticating auth).step s call = some s') :
    remembered auth s' key = some expires ∨ expires ≤ s'.clock := by
  rw [authenticating] at hs
  dsimp only at hs
  split at hs
  case isFalse => cases hs
  case isTrue hclock =>
    obtain rfl := Option.some.inj hs
    rcases h with hin | hpast
    · by_cases hlive : expires ≤ call.now
      · exact .inr hlive
      · refine .inl ?_
        rcases @HmacAuthenticator.authenticateHmac_cases auth s.cache call.req call.now with ⟨hcache,-⟩ | ⟨other,-,hcache,-⟩
        · rw [hcache]
          exact hin
        · rw [hcache,remembered_check hroom]
          split
          case isTrue hnew =>
            -- the key is the same one, so it is not fresh
            obtain ⟨rfl,hfresh⟩ := hnew
            rw [HmacAuthenticator.checkAndInsert] at hfresh
            split at hfresh
            case isTrue => cases hfresh
            case isFalse hseen =>
              rw [remembered] at hin
              rw [hin] at hseen
              exact absurd (decide_eq_true (Nat.not_le.mp hlive)) hseen
          case isFalse => exact hin
    · exact .inr (Nat.le_trans hpast hclock)

theorem Accepts.verifies {s : Authenticating} {call : HmacCall} {h : SignedHeaders} (ha : Accepts auth s call h) :
    auth.Verifies call.req h call.now ∧ (auth.checkAndInsert s.cache (HmacAuthenticator.cacheKey h) (fromSecs (auth.skewSecs * 2)) call.now).2 = true ∧
      (auth.authenticateHmac s.cache call.req call.now).1 =
        (auth.checkAndInsert s.cache (HmacAuthenticator.cacheKey h) (fromSecs (auth.skewSecs * 2)) call.now).1 := by
  obtain ⟨-,hheaders,hok⟩ := ha
  rcases @HmacAuthenticator.authenticateHmac_cases auth s.cache call.req call.now with ⟨-,hrejected,-⟩ | ⟨found,hverifies,hcache,hresult⟩
  · exact nomatch hrejected.symm.trans hok
  · obtain rfl := Except.ok.inj (hverifies.headers.symm.trans hheaders)
    exact ⟨hverifies,hresult.symm.trans hok,hcache⟩

/-- A remembered nonce is not fresh. -/
theorem not_fresh {s : Authenticating} {key : String} {expires now : ℕ} (hin : remembered auth s key = some expires) (hlive : now < expires)
    (ttl : ℕ) : (auth.checkAndInsert s.cache key ttl now).2 = false := by
  rw [remembered] at hin
  rw [HmacAuthenticator.checkAndInsert,hin,if_pos (by simpa using hlive)]

theorem fresh_of_expired {s : Authenticating} {key : String} {expires now : ℕ} (hin : remembered auth s key = some expires) (hpast : expires ≤ now)
    (ttl : ℕ) : (auth.checkAndInsert s.cache key ttl now).2 = true := by
  rw [remembered] at hin
  rw [HmacAuthenticator.checkAndInsert,hin,if_neg (by simpa using hpast)]

end Run

theorem secs_add (now : ℕ) (n : ℕ) : secs (now + fromSecs n) = secs now + n := by
  rw [secs,secs,fromSecs]
  omega

theorem lt_add_fromSecs {now later : ℕ} {n : ℕ} (h : secs later < secs now + n) : later < now + fromSecs n := by
  rw [secs,secs] at h
  rw [fromSecs]
  omega

/-- A request that was accepted is not accepted again, exactly where its timestamp is not the last
second that was still in the window. -/
theorem signed_request_accepted_once_iff {auth : HmacAuthenticator} {s s₁ : Authenticating} {call : HmacCall} {h : SignedHeaders} (haccepts : Accepts auth s call h)
    (hstep : (authenticating auth).step s call = some s₁) (hroom : Roomy auth s) (hroom₁ : Roomy auth s₁) :
    (∀ post s₂, post.foldlM (authenticating auth).step s₁ = some s₂ → (authenticating auth).AlongFrom (fun s _ => Roomy auth s) s₁ post → Roomy auth s₂ →
      ∀ again other, Accepts auth s₂ again other → ¬other.Same h) ↔ h.presentedTs.toNat < secs call.now + auth.skewSecs := by
  obtain ⟨hverifies,hfresh,hcache⟩ := haccepts.verifies
  have hs₁ : s₁ = ⟨(auth.checkAndInsert s.cache (HmacAuthenticator.cacheKey h) (fromSecs (auth.skewSecs * 2)) call.now).1,call.now⟩ := by
    rw [authenticating] at hstep
    dsimp only at hstep
    rw [if_pos haccepts.1,hcache] at hstep
    exact (Option.some.inj hstep).symm
  have hremembered : remembered auth s₁ (HmacAuthenticator.cacheKey h) = some (call.now + fromSecs (auth.skewSecs * 2)) := by
    rw [hs₁,remembered_check hroom,if_pos ⟨rfl,hfresh⟩]
  have hwindow := hverifies.inWindow
  rw [HmacAuthenticator.drift] at hwindow
  constructor
  · intro hnever
    by_contra hedge
    have hedge : h.presentedTs.toNat = secs call.now + auth.skewSecs := by omega
    -- the same request at the moment its nonce expires
    have hagain : Accepts auth s₁ ⟨call.req,call.now + fromSecs (auth.skewSecs * 2)⟩ h := by
      refine ⟨by rw [hs₁]; exact Nat.le_add_right _ _,haccepts.2.1,?_⟩
      have hverifies' : auth.Verifies call.req h (call.now + fromSecs (auth.skewSecs * 2)) := by
        refine ⟨hverifies.headers,?_,hverifies.signed⟩
        rw [HmacAuthenticator.drift,secs_add]
        omega
      rcases @HmacAuthenticator.authenticateHmac_cases auth s₁.cache call.req (call.now + fromSecs (auth.skewSecs * 2)) with
        ⟨-,-,hnone⟩ | ⟨found,hfound,-,hresult⟩
      · exact absurd hverifies' (hnone h)
      · obtain rfl := Except.ok.inj (hfound.headers.symm.trans hverifies.headers)
        rw [hresult]
        exact fresh_of_expired hremembered (Nat.le_refl _) _
    exact hnever [] s₁ rfl trivial hroom₁ _ h hagain ⟨rfl,rfl,rfl⟩
  · rintro hearly post s₂ hpost halong - again other hagain ⟨hkey,hts,hnonce⟩
    have hkept := System.alongFrom_inv (fun s => remembered auth s (HmacAuthenticator.cacheKey h) = some (call.now + fromSecs (auth.skewSecs * 2)) ∨
      call.now + fromSecs (auth.skewSecs * 2) ≤ s.clock) (fun s a s' hP hG hs => remembered_step s a s' hP hG hs) (.inl hremembered) halong hpost
    obtain ⟨hverifies₂,hfresh₂,-⟩ := hagain.verifies
    have hsame : HmacAuthenticator.cacheKey other = HmacAuthenticator.cacheKey h := by
      rw [HmacAuthenticator.cacheKey,HmacAuthenticator.cacheKey,hkey,hnonce]
    have hwindow₂ := hverifies₂.inWindow
    rw [HmacAuthenticator.drift,hts] at hwindow₂
    have hlive : again.now < call.now + fromSecs (auth.skewSecs * 2) := lt_add_fromSecs (by omega)
    rcases hkept with hin | hpast
    · rw [hsame,not_fresh hin hlive] at hfresh₂
      cases hfresh₂
    · exact absurd (Nat.le_trans hpast hagain.1) (Nat.not_le.mpr hlive)

section Examples

/-- A key for billing and a window of five minutes; the hash is the one of the request that is signed so. -/
def billing (signature : String) : HmacAuthenticator where
  mac _ _ := (decodeHex32 signature).getD []
  shardFor _ := 0
  cap := 4096
  skewSecs := 300
  keys := [("svc-billing",⟨"billing","billing-secret".toUTF8.toList⟩)]

def invoices (timestamp signature : String) : HmacRequest where
  method := "GET"
  path := "/v1/invoices"
  query := none
  keyId := some "svc-billing"
  timestamp := some timestamp
  nonce := some "nonce-0123456789"
  bodySha256 := some "e3b0c44298fc1c149afbf4c8996fb92427ae41e4649b934ca495991b7852b855"
  signature := some signature

def signature1200 : String := "644a4f8ce6e97924d8628512d1d26ae8d05939e4034455ecba32b82baaf97f4a"
def signature1300 : String := "15bdde1e3e695c0b1a87cd6db0261949a2b7bceba8100c5f4d2677d7f5f25139"

/-- The headers of the request as they are read. -/
def invoicesRead (timestamp : String) (presentedTs : UInt64) (signature : String) : SignedHeaders :=
  ⟨"svc-billing",timestamp,presentedTs,"nonce-0123456789",((invoices "" "").bodySha256).getD "",
    (((invoices "" "").bodySha256).bind decodeHex32).getD [],(decodeHex32 signature).getD []⟩

theorem signed_request_accepted_once_early :
    ∃ h s₁, Accepts (billing signature1200) ⟨fun _ => [],0⟩ ⟨invoices "1200" signature1200,1000500000000⟩ h ∧
      ∀ again other, Accepts (billing signature1200) s₁ again other → ¬other.Same h := by
  have haccepts : Accepts (billing signature1200) ⟨fun _ => [],0⟩ ⟨invoices "1200" signature1200,1000500000000⟩
      (invoicesRead "1200" 1200 signature1200) := ⟨Nat.zero_le _,by decide +kernel,by decide +kernel⟩
  have hroom : Roomy (billing signature1200) ⟨fun _ => [],0⟩ := fun _ => Nat.succ_pos _
  have hroom₁ : Roomy (billing signature1200)
      ⟨((billing signature1200).authenticateHmac (fun _ => []) (invoices "1200" signature1200) 1000500000000).1,1000500000000⟩ := by
    rw [Roomy]
    decide +kernel
  exact ⟨_,_,haccepts,(signed_request_accepted_once_iff haccepts rfl hroom hroom₁).mpr (by decide +kernel) [] _ rfl trivial hroom₁⟩

/-- Half a second into second 1000 the timestamp 1300 is still good, and in the other half of second
1600 it is good again, when the nonce is forgotten. -/
theorem signed_request_replayed :
    ¬∀ (auth : HmacAuthenticator) (s s₁ : Authenticating) (call : HmacCall) (h : SignedHeaders), Roomy auth s → Accepts auth s call h →
      (authenticating auth).step s call = some s₁ → Roomy auth s₁ → ∀ again other, Accepts auth s₁ again other → ¬other.Same h := by
  intro honce
  have hroom₁ : Roomy (billing signature1300)
      ⟨((billing signature1300).authenticateHmac (fun _ => []) (invoices "1300" signature1300) 1000500000000).1,1000500000000⟩ := by
    rw [Roomy]
    decide +kernel
  refine honce (billing signature1300) ⟨fun _ => [],0⟩ _ ⟨invoices "1300" signature1300,1000500000000⟩ (invoicesRead "1300" 1300 signature1300)
    (fun _ => Nat.succ_pos _) ⟨Nat.zero_le _,by decide +kernel,by decide +kernel⟩ rfl hroom₁ ⟨invoices "1300" signature1300,1600500000000⟩
    (invoicesRead "1300" 1300 signature1300) ⟨?_,?_,?_⟩ ⟨rfl,rfl,rfl⟩
  · decide
  · decide +kernel
  · decide +kernel

end Examples

end Dwara.Security.HmacAuth
