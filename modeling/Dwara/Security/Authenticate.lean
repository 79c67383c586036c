import Dwara.Dataplane.RouteMatch
import Dwara.Security.HmacReplay
import Dwara.Security.Introspection

/-! Who a request comes from: the credential families in their order, and the requests that are
anonymous behind them. -/

namespace Dwara.Security.Authenticate
open Dwara.Lib Dwara.Dataplane Dwara.Security.HmacAuth Dwara.Security.Introspection

inductive CredentialKind where
  | apiKey
  | jwt
  | mtls
  | hmac
  | oidc
  deriving DecidableEq, Repr

structure Caller where
  consumerName : String
  credentialKind : CredentialKind
  bodyDigest : Option Bytes
  deriving DecidableEq, Repr

structure KnownCredential where
  kind : CredentialKind
  consumerName : String
  hash : String

structure ClientCertificate where
  subjectCn : Option String
  fingerprint : String
  fingerprintColon : String

/-- A request; of each header the first value, as it came. -/
structure AuthnRequest where
  method : String
  path : String
  query : Option String
  apiKey : Option String
  authorization : Option String
  keyId : Option String
  timestamp : Option String
  nonce : Option String
  bodySha256 : Option String
  signature : Option String
  clientCert : Option ClientCertificate

structure JwtProvider where
  name : String

structure OidcProviderConfig where
  name : String
  consumer : Option String
  failOpen : Bool

/-- The configuration an authenticator is built from. -/
structure AuthnGateway where
  consumers : List String
  jwtProviders : List JwtProvider
  oidcProviders : List OidcProviderConfig

structure JwtVerifier where
  algorithms : List String
  /-- Verification of a token against the keys of the provider. -/
  verifyWith : String → Except AuthError Caller

structure OidcClient where
  config : OidcProviderConfig
  introspect : String → Except OidcError IntrospectionResponse

structure MtlsConsumerMap where
  byFingerprint : List (String × String)
  bySubjectCn : List (String × String)

/-- Functions of other crates, of the store, and of what is read of the configuration beside the providers. -/
structure Surroundings where
  base64Decode : String → Option ByteArray
  credentialSelector : String → String
  verifySecret : String → String → Bool
  lookup : String → Except AuthError (List KnownCredential)
  decodeAlg : String → Option String
  buildJwt : JwtProvider → Option JwtVerifier
  buildOidc : OidcProviderConfig → Option OidcClient
  hmac : HmacAuthenticator
  mtlsConsumerMap : Option MtlsConsumerMap

structure CompositeAuthenticator where
  jwt : List JwtVerifier
  jwtConfigured : Bool
  oidc : List OidcClient
  oidcConfigured : Bool
  enabled : Bool

/-- Providers that cannot be built are left out. -/
def build (env : Surroundings) (g : AuthnGateway) : CompositeAuthenticator where
  jwt := g.jwtProviders.filterMap env.buildJwt
  jwtConfigured := !g.jwtProviders.isEmpty
  oidc := g.oidcProviders.filterMap env.buildOidc
  oidcConfigured := !g.oidcProviders.isEmpty
  enabled := !g.consumers.isEmpty || !(g.jwtProviders.filterMap env.buildJwt).isEmpty || !(g.oidcProviders.filterMap env.buildOidc).isEmpty

namespace MtlsConsumerMap

def resolve (map : MtlsConsumerMap) (cert : ClientCertificate) : Option String :=
  (cert.subjectCn.bind (map.bySubjectCn.lookup ·)).or (map.byFingerprint.lookup cert.fingerprintColon)

def isEmpty (map : MtlsConsumerMap) : Bool := map.byFingerprint.isEmpty && map.bySubjectCn.isEmpty

end MtlsConsumerMap

namespace CompositeAuthenticator
variable (env : Surroundings) (auth : CompositeAuthenticator)

def authenticateApiKeyOrBasic (selector presentedSecret : String) : Except AuthError Caller :=
  match env.lookup selector with
  | .error e => .error e
  | .ok candidates =>
    match candidates.find? fun cred => cred.kind = .apiKey && env.verifySecret cred.hash presentedSecret with
    | some cred => .ok ⟨cred.consumerName,.apiKey,none⟩
    | none => .error (.invalid "unknown api key or basic credentials")

/-- The user and the password of Basic credentials. -/
def readBasic (rest : String) : Except AuthError (String × String) :=
  match env.base64Decode (Text.trim rest) with
  | none => .error (.invalid "basic credentials are not valid base64")
  | some bytes =>
    match String.fromUTF8? bytes with
    | none => .error (.invalid "basic credentials are not utf-8")
    | some decoded =>
      match Text.splitOnce ':' decoded with
      | none => .error (.invalid "basic credentials lack a ':' separator")
      | some (user, pass) => if user = "" ∨ pass = "" then .error (.invalid "basic credentials are empty") else .ok (user,pass)

def authenticateBasic (rest : String) : Except AuthError Caller :=
  match readBasic env rest with
  | .error e => .error e
  | .ok (user, pass) => authenticateApiKeyOrBasic env (env.credentialSelector user) pass

/-- The verifiers in turn; one that is down counts for more than one that rejects. -/
def tryVerifiers (token alg : String) (lastInvalid : AuthError) (unavailable : Option AuthError) : List JwtVerifier → Except AuthError Caller
  | [] => .error (unavailable.getD lastInvalid)
  | verifier :: verifiers =>
    if ¬verifier.algorithms.contains alg then
      tryVerifiers token alg (.invalid "token algorithm is not allowed") unavailable verifiers
    else
      match verifier.verifyWith token with
      | .ok caller => .ok caller
      | .error (.invalid message) => tryVerifiers token alg (.invalid message) unavailable verifiers
      | .error (.unavailable message) => tryVerifiers token alg lastInvalid (some (.unavailable message)) verifiers

def authenticateJwt (token : String) : Except AuthError (Option Caller) :=
  if auth.jwt.isEmpty then
    if !auth.jwtConfigured then .ok none
    else .error (.unavailable "jwt providers are configured but disabled (verifier build failed); failing closed instead of proxying Bearer tokens unverified")
  else
    match env.decodeAlg token with
    | none => .error (.invalid "token header is malformed")
    | some alg => (tryVerifiers token alg (.invalid "token did not verify") none auth.jwt).map some

/-- The clients in turn: the first active result, or the last rejection. -/
def tryClients (token : String) (lastInvalid : AuthError) : List OidcClient → Except AuthError Caller
  | [] => .error lastInvalid
  | client :: clients =>
    match client.introspect token with
    | .ok resp => .ok ⟨(client.config.consumer.or resp.sub).getD "oidc-anonymous",.oidc,none⟩
    | .error .inactive => tryClients token (.invalid "token introspected as inactive") clients
    | .error _ => tryClients token (if client.config.failOpen then lastInvalid else .invalid "oidc introspection failed") clients

def authenticateOidc (token : String) : Except AuthError (Option Caller) :=
  if auth.oidc.isEmpty then
    if !auth.oidcConfigured then .ok none
    else .error (.unavailable "oidc providers are configured but disabled (client build failed); failing closed instead of proxying Bearer tokens unverified")
  else
    match tryClients token (.invalid "token did not introspect as active") auth.oidc with
    | .ok caller => .ok (some caller)
    | .error e => if auth.oidc.all (·.config.failOpen) then .ok none else .error e

/-- The two Bearer families; no result where neither interprets the token. -/
def authenticateBearer (token : String) : Option (Except AuthError Caller) :=
  if token = "" then some (.error (.invalid "empty bearer token"))
  else
    match auth.authenticateJwt env token with
    | .ok (some caller) => some (.ok caller)
    | .ok none =>
      match auth.authenticateOidc token with
      | .ok (some caller) => some (.ok caller)
      | .ok none => none
      | .error e => some (.error e)
    | .error (.unavailable e) => some (.error (.unavailable e))
    | .error (.invalid message) =>
      match auth.authenticateOidc token with
      | .ok (some caller) => some (.ok caller)
      | .ok none => some (.error (.invalid message))
      | .error e => some (.error e)

/-- The scheme of an `Authorization` value, and what follows it. -/
def schemeOf (value : String) : String × String := (Text.splitOnce ' ' value).getD (value,"")

def isScheme (value scheme : String) : Bool := Text.eqIgnoreAsciiCase (schemeOf value).1 scheme

def authenticateAuthorization (value : String) : Option (Except AuthError Caller) :=
  if isScheme value "basic" then some (authenticateBasic env (schemeOf value).2)
  else if isScheme value "bearer" then auth.authenticateBearer env (Text.trim (schemeOf value).2)
  else none

/-- The certificate through the gateway's map, when it has entries, or through the credentials. -/
def authenticateClientCert (cert : ClientCertificate) : Except AuthError Caller :=
  match env.mtlsConsumerMap.filter (!·.isEmpty) with
  | some map =>
    match map.resolve cert with
    | some consumerName => .ok ⟨consumerName,.mtls,none⟩
    | none => .error (.invalid "client certificate matches no mtls consumer mapping entry")
  | none => trySelectors (cert.subjectCn.toList ++ [cert.fingerprint])
where
  trySelectors : List String → Except AuthError Caller
    | [] => .error (.invalid "client certificate matches no credential")
    | selector :: selectors =>
      match env.lookup selector with
      | .error e => .error e
      | .ok candidates =>
        match candidates.find? (·.kind = .mtls) with
        | some cred => .ok ⟨cred.consumerName,.mtls,none⟩
        | none => trySelectors selectors

def hmacRequest (req : AuthnRequest) : HmacRequest where
  method := req.method
  path := req.path
  query := req.query
  keyId := req.keyId.bind toStr
  timestamp := req.timestamp.bind toStr
  nonce := req.nonce.bind toStr
  bodySha256 := req.bodySha256.bind toStr
  signature := req.signature.bind toStr

/-- The families behind the `Authorization` header. -/
def authenticateRest (cache : NonceCache) (req : AuthnRequest) (now : ℕ) : NonceCache × Except AuthError (Option Caller) :=
  if req.signature.isSome then
    let signed := env.hmac.authenticateHmac cache (hmacRequest req) now
    (signed.1,signed.2.map fun id => some ⟨id.consumerName,.hmac,some id.bodyDigest⟩)
  else
    match req.clientCert with
    | some cert => (cache,(authenticateClientCert env cert).map some)
    | none => (cache,.ok none)

/-- Anonymous is `ok none`. -/
def authenticate (cache : NonceCache) (req : AuthnRequest) (now : ℕ) : NonceCache × Except AuthError (Option Caller) :=
  if !auth.enabled then (cache,.ok none)
  else
    match req.apiKey.bind toStr with
    | some key =>
      (cache,if key = "" then .error (.invalid "empty api key")
        else (authenticateApiKeyOrBasic env (env.credentialSelector key) key).map some)
    | none =>
      match (req.authorization.bind toStr).bind (auth.authenticateAuthorization env) with
      | some result => (cache,result.map some)
      | none => authenticateRest env cache req now

variable {env auth}

theorem authenticateJwt_eq_none {token : String} (h : auth.authenticateJwt env token = .ok none) : auth.jwtConfigured = false := by
  rw [authenticateJwt] at h
  split at h
  case isTrue =>
    split at h
    case isTrue hconfigured => simpa using hconfigured
    case isFalse => cases h
  case isFalse =>
    split at h
    case h_1 => cases h
    case h_2 alg _ =>
      cases hverified : tryVerifiers token alg (.invalid "token did not verify") none auth.jwt with
      | error e => rw [hverified] at h; cases h
      | ok caller => rw [hverified] at h; cases h

theorem introspect_of_tryClients {token : String} {lastInvalid e : AuthError} {clients : List OidcClient}
    (h : tryClients token lastInvalid clients = .error e) : ∀ client ∈ clients, ∃ oidcError, client.introspect token = .error oidcError := by
  induction clients generalizing lastInvalid with
  | nil => simp
  | cons client clients ih =>
    rw [tryClients] at h
    cases hresult : client.introspect token with
    | ok resp => rw [hresult] at h; cases h
    | error oidcError =>
      refine List.forall_mem_cons.mpr ⟨⟨oidcError,hresult⟩,?_⟩
      rw [hresult] at h
      cases oidcError with
      | inactive => exact ih h
      | fetch => exact ih h
      | endpointStatus status => exact ih h
      | malformedResponse => exact ih h

theorem authenticateOidc_eq_none {token : String} (h : auth.authenticateOidc token = .ok none) :
    auth.oidcConfigured = false ∨ auth.oidc ≠ [] ∧
      ∀ client ∈ auth.oidc, client.config.failOpen = true ∧ ∃ oidcError, client.introspect token = .error oidcError := by
  rw [authenticateOidc] at h
  split at h
  case isTrue =>
    split at h
    case isTrue hconfigured => exact .inl (by simpa using hconfigured)
    case isFalse => cases h
  case isFalse hsome =>
    refine .inr ⟨fun hnil => hsome (by rw [hnil]; rfl),fun client hclient => ?_⟩
    split at h
    case h_1 => cases h
    case h_2 e htried =>
      split at h
      case isTrue hall => exact ⟨List.all_eq_true.mp hall client hclient,introspect_of_tryClients htried client hclient⟩
      case isFalse => cases h

theorem authenticateBearer_eq_none {token : String} (h : auth.authenticateBearer env token = none) :
    auth.jwtConfigured = false ∧ (auth.oidcConfigured = false ∨ auth.oidc ≠ [] ∧
      ∀ client ∈ auth.oidc, client.config.failOpen = true ∧ ∃ oidcError, client.introspect token = .error oidcError) := by
  rw [authenticateBearer] at h
  split at h
  case isTrue => cases h
  case isFalse =>
    split at h
    case h_1 => cases h
    case h_2 hjwt =>
      split at h
      case h_1 => cases h
      case h_2 hoidc => exact ⟨authenticateJwt_eq_none hjwt,authenticateOidc_eq_none hoidc⟩
      case h_3 => cases h
    case h_3 => cases h
    case h_4 => split at h <;> cases h

theorem authenticateRest_eq_none {cache : NonceCache} {req : AuthnRequest} {now : ℕ} (h : (authenticateRest env cache req now).2 = .ok none) :
    req.signature = none ∧ req.clientCert = none := by
  rw [authenticateRest] at h
  split at h
  case isTrue =>
    cases hsigned : (env.hmac.authenticateHmac cache (hmacRequest req) now).2 with
    | error e => simp only [hsigned] at h; cases h
    | ok id => simp only [hsigned] at h; cases h
  case isFalse hsignature =>
    refine ⟨Option.not_isSome_iff_eq_none.mp hsignature,?_⟩
    split at h
    case h_1 cert hcert =>
      cases hresult : authenticateClientCert env cert with
      | error e => simp only [hresult] at h; cases h
      | ok caller => simp only [hresult] at h; cases h
    case h_2 hcert => exact hcert

end CompositeAuthenticator

open CompositeAuthenticator

/-- A credential of a family that the configuration has interpreted. Header values that are no
visible ASCII text are read as absent. -/
structure PresentsNothing (g : AuthnGateway) (req : AuthnRequest) : Prop where
  apiKey : req.apiKey.bind toStr = none
  basic : ∀ value, req.authorization.bind toStr = some value → isScheme value "basic" = false
  bearer : ∀ value, req.authorization.bind toStr = some value → isScheme value "bearer" = true → g.jwtProviders = [] ∧ g.oidcProviders = []
  signature : req.signature = none
  clientCert : req.clientCert = none

/-- A Bearer token, and no credential of another family. -/
structure OnlyBearer (req : AuthnRequest) (token : String) : Prop where
  apiKey : req.apiKey.bind toStr = none
  bearer : ∃ value, req.authorization.bind toStr = some value ∧ isScheme value "basic" = false ∧ isScheme value "bearer" = true ∧
    token = Text.trim (schemeOf value).2
  signature : req.signature = none
  clientCert : req.clientCert = none

/-- What makes a request with a credential anonymous: the provider could not be reached. -/
def NeverDowngraded (env : Surroundings) (g : AuthnGateway) (cache : NonceCache) (req : AuthnRequest) (now : ℕ) : Prop :=
  ((build env g).authenticate env cache req now).2 = .ok none →
    PresentsNothing g req ∨ ∃ token, OnlyBearer req token ∧ g.jwtProviders = [] ∧ (build env g).oidc ≠ [] ∧
      ∀ client ∈ (build env g).oidc, client.config.failOpen = true ∧ client.introspect token = .error .fetch

section Examples

/-- Surroundings without credentials or keys. -/
def bare (buildJwt : JwtProvider → Option JwtVerifier) (introspect : String → Except OidcError IntrospectionResponse) : Surroundings where
  base64Decode _ := none
  credentialSelector key := key
  verifySecret _ _ := false
  lookup _ := .ok []
  decodeAlg _ := none
  buildJwt := buildJwt
  buildOidc config := some ⟨config,introspect⟩
  hmac := ⟨fun _ _ => [],fun _ => ⟨0,by decide⟩,4096,300,[]⟩
  mtlsConsumerMap := none

def withBearer (token : String) : AuthnRequest :=
  ⟨"GET","/",none,none,some ("Bearer " ++ token),none,none,none,none,none,none⟩

/-- One provider to introspect at, that fails open. -/
def failsOpen : AuthnGateway := ⟨[],[],[⟨"corporate",none,true⟩]⟩

/-- One provider of keys. -/
def keysOnly : AuthnGateway := ⟨[],[⟨"keys"⟩],[]⟩

end Examples

end Dwara.Security.Authenticate
