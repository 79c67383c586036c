import Dwara.Lib.System
import Dwara.Lib.Text
import Dwara.Lib.Word
import Mathlib.Logic.Function.Basic

/-! Tokens of upstreams with client credentials: the cache they share, and the calls that fetch. Every
turn of a call at the cache, at its upstream's fetch lock or at the token endpoint is one step. -/

namespace Dwara.Security.Oauth2Tokens
open Dwara.Lib

/-- What a token request carries. -/
structure Credentials where
  clientId : String
  clientSecret : String
  scopes : List String
  deriving DecidableEq, Repr

structure OAuth2Client where
  tokenEndpoint : String
  credentials : Credentials
  tokenCacheTtlS : Option UInt64

/-- The fields of a token response. -/
structure TokenResponse where
  accessToken : Option String
  tokenType : Option String
  expiresIn : Option UInt64
  deriving DecidableEq, Repr

inductive OAuth2Error where
  | fetch
  | endpointStatus (status : ℕ)
  | malformedResponse (message : String)
  deriving DecidableEq, Repr

/-- What comes of one request to the token endpoint. -/
inductive TokenAnswer where
  | failed
  | status (status : ℕ)
  | notJson
  | response (response : TokenResponse)
  deriving DecidableEq, Repr

/-- The token and its lifetime, in seconds. -/
def readToken : TokenAnswer → Except OAuth2Error (String × UInt64)
  | .failed => .error .fetch
  | .status status => .error (.endpointStatus status)
  | .notJson => .error (.malformedResponse "not JSON")
  | .response r =>
    match r.accessToken with
    | none => .error (.malformedResponse "missing string access_token")
    | some token =>
      if token = "" then .error (.malformedResponse "access_token is empty")
      else if r.tokenType.any (!Text.eqIgnoreAsciiCase · "bearer") then .error (.malformedResponse "token_type is not 'bearer'")
      else .ok (token,r.expiresIn.getD 3600)

namespace OAuth2Client
variable (client : OAuth2Client)

/-- Half a minute less than the lifetime, but a second at least; the override is an upper bound. -/
def effectiveTtl (expiresIn : UInt64) : UInt64 :=
  let base := max (U64.saturatingSub expiresIn 30) 1
  match client.tokenCacheTtlS with
  | some overrideS => min base overrideS
  | none => base

theorem effectiveTtl_le (expiresIn : UInt64) : (client.effectiveTtl expiresIn).toNat ≤ max 1 expiresIn.toNat := by
  have hbase : (max (U64.saturatingSub expiresIn 30) 1).toNat ≤ max 1 expiresIn.toNat := by
    rw [U64.toNat_max,U64.toNat_saturatingSub]
    have hone : (1 : UInt64).toNat = 1 := rfl
    omega
  rw [effectiveTtl]
  cases client.tokenCacheTtlS with
  | none => exact hbase
  | some overrideS =>
    refine Nat.le_trans (UInt64.le_iff_toNat_le.mp ?_) hbase
    show (if max (U64.saturatingSub expiresIn 30) 1 ≤ overrideS then max (U64.saturatingSub expiresIn 30) 1 else overrideS) ≤ _
    split
    case isTrue => exact UInt64.le_refl _
    case isFalse h => exact UInt64.le_of_lt (UInt64.not_le.mp h)

end OAuth2Client

/-- A token with what it was issued to, when it was fetched and for how long it was said to live. -/
structure CachedToken where
  token : String
  expiresAt : ℕ
  issuedTo : Credentials
  fetchedAt : ℕ
  expiresIn : UInt64
  deriving DecidableEq, Repr

/-- A call between two of its turns. -/
inductive Pending where
  | idle
  | missed (upstream : String)
  | locked (upstream : String)
  | fetching (upstream : String)
  | panicked
  deriving DecidableEq, Repr

/-- A token that a call returned for its upstream. -/
structure Returned where
  upstream : String
  token : CachedToken
  now : ℕ
  deriving DecidableEq, Repr

structure State where
  clock : ℕ
  cache : String → Option CachedToken
  fetchLock : String → Option ℕ
  calls : ℕ → Pending
  returned : List Returned

inductive Turn where
  | token (call : ℕ) (upstream : String)
  | lock (call : ℕ)
  | recheck (call : ℕ)
  | answer (call : ℕ) (answer : TokenAnswer)
  | tick (elapsed : ℕ)
  deriving DecidableEq, Repr

namespace State

def goto (s : State) (call : ℕ) (pending : Pending) : State := { s with calls := Function.update s.calls call pending }

def setLock (s : State) (upstream : String) (holder : Option ℕ) : State := { s with fetchLock := Function.update s.fetchLock upstream holder }

def put (s : State) (endpoint : String) (token : CachedToken) : State := { s with cache := Function.update s.cache endpoint (some token) }

def handOut (s : State) (upstream : String) (token : CachedToken) : State := { s with returned := s.returned ++ [⟨upstream,token,s.clock⟩] }

/-- The cached token of an endpoint, while it is valid. -/
def get (s : State) (endpoint : String) : Option CachedToken := (s.cache endpoint).filter (s.clock < ·.expiresAt)

end State

section Model
variable (upstreams : String → OAuth2Client) (instantEnd : ℕ)

/-- The turns of the calls; a moment that the clock cannot represent ends the call that asks for it. -/
def step (s : State) : Turn → Option State
  | .token call upstream =>
    if s.calls call ≠ .idle then none
    else
      match s.get (upstreams upstream).tokenEndpoint with
      | some token => some (s.handOut upstream token)
      | none => some (s.goto call (.missed upstream))
  | .lock call =>
    match s.calls call with
    | .missed upstream => if s.fetchLock upstream = none then some ((s.setLock upstream (some call)).goto call (.locked upstream)) else none
    | _ => none
  | .recheck call =>
    match s.calls call with
    | .locked upstream =>
      match s.get (upstreams upstream).tokenEndpoint with
      | some token => some (((s.handOut upstream token).setLock upstream none).goto call .idle)
      | none => some (s.goto call (.fetching upstream))
    | _ => none
  | .answer call answer =>
    match s.calls call with
    | .fetching upstream =>
      match readToken answer with
      | .error _ => some ((s.setLock upstream none).goto call .idle)
      | .ok (token, expiresIn) =>
        let client := upstreams upstream
        let expiresAt := s.clock + (client.effectiveTtl expiresIn).toNat * 10^9
        if instantEnd ≤ expiresAt then some ((s.setLock upstream none).goto call .panicked)
        else
          let cached : CachedToken := ⟨token,expiresAt,client.credentials,s.clock,expiresIn⟩
          some ((((s.put client.tokenEndpoint cached).handOut upstream cached).setLock upstream none).goto call .idle)
    | _ => none
  | .tick elapsed => some { s with clock := s.clock + elapsed }

/-- The calls for any upstreams, in any interleaving. -/
def calling : System State Turn where
  init := ⟨0,fun _ => none,fun _ => none,fun _ => .idle,[]⟩
  step := step upstreams instantEnd

/-- Every token was issued to the upstream it was returned for. -/
def OwnTokens (s : State) : Prop := ∀ r ∈ s.returned, r.token.issuedTo = (upstreams r.upstream).credentials

/-- Every token was returned within the lifetime of its response. -/
def InTime (s : State) : Prop := ∀ r ∈ s.returned, r.now < r.token.fetchedAt + r.token.expiresIn.toNat * 10^9

/-- Every token was returned within the lifetime of its response, or in its first second. -/
def InTimeOrFirstSecond (s : State) : Prop := ∀ r ∈ s.returned, r.now < r.token.fetchedAt + max 1 r.token.expiresIn.toNat * 10^9

def NoPanic (s : State) : Prop := ∀ call, s.calls call ≠ .panicked

/-- The clock can represent the moment a fetched token goes out of the cache. -/
def Representable (s : State) : Turn → Prop
  | .answer call answer => ∀ upstream token expiresIn, s.calls call = .fetching upstream → readToken answer = .ok (token,expiresIn) →
      s.clock + ((upstreams upstream).effectiveTtl expiresIn).toNat * 10^9 < instantEnd
  | _ => True

end Model

section Runs
variable {upstreams : String → OAuth2Client} {instantEnd : ℕ} {s : State}

/-- A token of an upstream of the endpoint, valid for no longer than its response says. -/
structure CachedToken.Sound (upstreams : String → OAuth2Client) (endpoint : String) (token : CachedToken) : Prop where
  issued : ∃ upstream, (upstreams upstream).tokenEndpoint = endpoint ∧ token.issuedTo = (upstreams upstream).credentials
  lifetime : token.expiresAt ≤ token.fetchedAt + max 1 token.expiresIn.toNat * 10^9

structure Sound (upstreams : String → OAuth2Client) (s : State) : Prop where
  cached : ∀ endpoint token, s.cache endpoint = some token → token.Sound upstreams endpoint
  own : OwnTokens upstreams s
  inTime : InTimeOrFirstSecond s
  noPanic : NoPanic s

theorem Sound.goto (h : Sound upstreams s) {call : ℕ} {pending : Pending} (hpending : pending ≠ .panicked) : Sound upstreams (s.goto call pending) := by
  refine { h with noPanic := fun other => ?_ }
  show Function.update s.calls call pending other ≠ .panicked
  by_cases hother : other = call
  · subst hother
    rwa [Function.update_self]
  · rw [Function.update_of_ne hother]
    exact h.noPanic other

theorem Sound.setLock (h : Sound upstreams s) (upstream : String) (holder : Option ℕ) : Sound upstreams (s.setLock upstream holder) :=
  ⟨h.cached,h.own,h.inTime,h.noPanic⟩

theorem Sound.put (h : Sound upstreams s) {endpoint : String} {token : CachedToken} (htoken : token.Sound upstreams endpoint) :
    Sound upstreams (s.put endpoint token) := by
  refine { h with cached := fun other found hfound => ?_ }
  replace hfound : Function.update s.cache endpoint (some token) other = some found := hfound
  by_cases hother : other = endpoint
  · subst hother
    rw [Function.update_self] at hfound
    obtain rfl := Option.some.inj hfound
    exact htoken
  · rw [Function.update_of_ne hother] at hfound
    exact h.cached other found hfound

theorem Sound.handOut (h : Sound upstreams s) {upstream : String} {token : CachedToken} (hissued : token.issuedTo = (upstreams upstream).credentials)
    (htime : s.clock < token.fetchedAt + max 1 token.expiresIn.toNat * 10^9) : Sound upstreams (s.handOut upstream token) := by
  refine { h with own := fun r hr => ?_, inTime := fun r hr => ?_ }
  · rcases List.mem_append.mp hr with hold | hnew
    · exact h.own r hold
    · obtain rfl := List.mem_singleton.mp hnew
      exact hissued
  · rcases List.mem_append.mp hr with hold | hnew
    · exact h.inTime r hold
    · obtain rfl := List.mem_singleton.mp hnew
      exact htime

/-- A valid token of an endpoint goes to any upstream of it. -/
theorem Sound.handOut_cached (h : Sound upstreams s)
    (hshared : ∀ u v, (upstreams u).tokenEndpoint = (upstreams v).tokenEndpoint → (upstreams u).credentials = (upstreams v).credentials)
    {upstream : String} {token : CachedToken} (hget : s.get (upstreams upstream).tokenEndpoint = some token) :
    Sound upstreams (s.handOut upstream token) := by
  obtain ⟨hcached,hvalid⟩ := Option.filter_eq_some_iff.mp hget
  obtain ⟨⟨other,hendpoint,hissued⟩,hlifetime⟩ := h.cached _ _ hcached
  refine h.handOut (hissued.trans (hshared _ _ hendpoint)) ?_
  exact Nat.lt_of_lt_of_le (of_decide_eq_true hvalid) hlifetime

theorem Sound.step (hshared : ∀ u v, (upstreams u).tokenEndpoint = (upstreams v).tokenEndpoint → (upstreams u).credentials = (upstreams v).credentials)
    (h : Sound upstreams s) {turn : Turn} (hrep : Representable upstreams instantEnd s turn) {s' : State}
    (hs : (calling upstreams instantEnd).step s turn = some s') : Sound upstreams s' := by
  cases turn with
  | token call upstream =>
    simp only [calling,Oauth2Tokens.step] at hs
    split at hs
    case isTrue => cases hs
    case isFalse =>
      split at hs
      case h_1 token hget =>
        obtain rfl := Option.some.inj hs
        exact h.handOut_cached hshared hget
      case h_2 =>
        obtain rfl := Option.some.inj hs
        exact h.goto nofun
  | lock call =>
    simp only [calling,Oauth2Tokens.step] at hs
    split at hs
    case h_1 upstream hcall =>
      split at hs
      case isTrue =>
        obtain rfl := Option.some.inj hs
        exact (h.setLock _ _).goto nofun
      case isFalse => cases hs
    case h_2 => cases hs
  | recheck call =>
    simp only [calling,Oauth2Tokens.step] at hs
    split at hs
    case h_1 upstream hcall =>
      split at hs
      case h_1 token hget =>
        obtain rfl := Option.some.inj hs
        exact ((h.handOut_cached hshared hget).setLock _ _).goto nofun
      case h_2 =>
        obtain rfl := Option.some.inj hs
        exact h.goto nofun
    case h_2 => cases hs
  | answer call answer =>
    simp only [calling,Oauth2Tokens.step] at hs
    split at hs
    case h_1 upstream hcall =>
      split at hs
      case h_1 =>
        obtain rfl := Option.some.inj hs
        exact (h.setLock _ _).goto nofun
      case h_2 token expiresIn hread =>
        have hfits := hrep upstream token expiresIn hcall hread
        rw [if_neg (Nat.not_le.mpr hfits)] at hs
        obtain rfl := Option.some.inj hs
        have hle := (upstreams upstream).effectiveTtl_le expiresIn
        have hsound : CachedToken.Sound upstreams (upstreams upstream).tokenEndpoint
            ⟨token,s.clock + ((upstreams upstream).effectiveTtl expiresIn).toNat * 10^9,(upstreams upstream).credentials,s.clock,expiresIn⟩ :=
          ⟨⟨upstream,rfl,rfl⟩,Nat.add_le_add_left (Nat.mul_le_mul_right _ hle) _⟩
        refine (((h.put hsound).handOut rfl ?_).setLock _ _).goto nofun
        show s.clock < s.clock + max 1 expiresIn.toNat * 10^9
        omega
    case h_2 => cases hs
  | tick elapsed =>
    obtain rfl := Option.some.inj hs
    exact ⟨h.cached,h.own,h.inTime,h.noPanic⟩

theorem sound_init : Sound upstreams (calling upstreams instantEnd).init where
  cached _ _ h := nomatch h
  own _ h := nomatch h
  inTime _ h := nomatch h
  noPanic _ h := nomatch h

/-- Upstreams that share an endpoint only where they have the same credentials get their own tokens,
within the lifetime or in the first second, and no call panics. -/
theorem tokens_kept_apart
    (hshared : ∀ u v, (upstreams u).tokenEndpoint = (upstreams v).tokenEndpoint → (upstreams u).credentials = (upstreams v).credentials)
    {turns : List Turn} (hrun : (calling upstreams instantEnd).run turns = some s)
    (hrep : (calling upstreams instantEnd).Along (Representable upstreams instantEnd) turns) :
    OwnTokens upstreams s ∧ InTimeOrFirstSecond s ∧ NoPanic s := by
  have hsound := System.guarded_inv (Sound upstreams) sound_init (fun _ _ _ h hG hs => h.step hshared hG hs) hrep hrun
  exact ⟨hsound.own,hsound.inTime,hsound.noPanic⟩

end Runs

section Examples

def issued (token : String) (expiresIn : UInt64) : TokenAnswer := .response ⟨some token,some "Bearer",some expiresIn⟩

/-- Every upstream has an endpoint of its own. -/
def apart (upstream : String) : OAuth2Client := ⟨"https://id.example/" ++ upstream,⟨upstream,"secret",[]⟩,none⟩

/-- All upstreams have one endpoint. -/
def together (upstream : String) : OAuth2Client := ⟨"https://id.example/token",⟨upstream,"secret",[]⟩,none⟩

/-- A call for an upstream that finds no token fetches one. -/
def fetch (upstream : String) (answer : TokenAnswer) : List Turn := [.token 0 upstream, .lock 0, .recheck 0, .answer 0 answer]

theorem tokens_kept_apart_orders : ∃ s, (calling apart (2^63)).run (fetch "orders" (issued "a" 60)) = some s ∧
    OwnTokens apart s ∧ InTimeOrFirstSecond s ∧ NoPanic s := by
  have happart : ∀ u v, (apart u).tokenEndpoint = (apart v).tokenEndpoint → (apart u).credentials = (apart v).credentials := by
    intro u v h
    have hlist : ("https://id.example/" ++ u).toList = ("https://id.example/" ++ v).toList := congrArg String.toList h
    rw [String.toList_append,String.toList_append] at hlist
    have huv : u = v := String.toList_inj.mp (List.append_cancel_left hlist)
    subst huv
    rfl
  have hfrom : System.AlongFrom (calling apart (2^63)) (Representable apart (2^63)) (calling apart (2^63)).init (fetch "orders" (issued "a" 60)) := by
    refine ⟨trivial,trivial,trivial,?_,?_⟩
    · intro upstream token expiresIn hcall hread
      obtain ⟨rfl,rfl⟩ := Prod.mk.inj (Except.ok.inj hread)
      have httl : ((apart upstream).effectiveTtl 60).toNat = 30 := by
        show (max (U64.saturatingSub 60 30) 1).toNat = 30
        decide
      show 0 + ((apart upstream).effectiveTtl 60).toNat * 10^9 < 2^63
      rw [httl]
      decide
    · split <;> trivial
  exact ⟨_,rfl,tokens_kept_apart happart rfl (System.along_of_alongFrom hfrom)⟩

/-- Of two upstreams with one endpoint the second gets the token of the first; a token with no
lifetime is returned; a lifetime can be beyond the clock. -/
theorem tokens_mixed :
    (¬∀ (upstreams : String → OAuth2Client) (turns : List Turn) (s : State), (calling upstreams (2^63)).run turns = some s → OwnTokens upstreams s) ∧
    (¬∀ (upstreams : String → OAuth2Client) (turns : List Turn) (s : State), (calling upstreams (2^63)).run turns = some s → InTime s) ∧
    ¬∀ (upstreams : String → OAuth2Client) (turns : List Turn) (s : State), (calling upstreams (2^63)).run turns = some s → NoPanic s := by
  refine ⟨fun h => ?_,fun h => ?_,fun h => ?_⟩
  · have hmixed := h together (fetch "orders" (issued "a" 60) ++ [.token 1 "billing"]) _ rfl
    exact absurd (hmixed _ (List.mem_append_right _ (List.mem_singleton_self _))) (by decide)
  · have hlate := h apart (fetch "orders" (issued "a" 0)) _ rfl
    exact absurd (hlate _ (List.mem_singleton_self _)) (by decide)
  · have hpanic := h apart (fetch "orders" (issued "a" 18446744073709551615)) _ rfl
    exact hpanic 0 (by decide)

end Examples

end Dwara.Security.Oauth2Tokens
