import Dwara.Dataplane.RequestBody

/-! The errors of a send to an upstream, and what health, breaker and retries make of them. -/

namespace Dwara.Dataplane

/-- The errors the gateway's own connector and handle raise. An I/O error may wrap the
failure of the request body. -/
inductive ConnectError where
  | noEndpoints
  | invalidRootCertificate (reason : String)
  | invalidHost (host : String)
  | connectTimeout (after : ℕ)
  | readTimeout (after : ℕ)
  | saturated
  | io (body : Option LimitedBodyError)
  | h3Unavailable
  deriving DecidableEq, Repr

/-- An error in the source chain of the pooled client's error. -/
inductive ErrorSource where
  | connect (e : ConnectError)
  | body (e : LimitedBodyError)
  | other
  deriving DecidableEq, Repr

/-- How an exchange of the pooled client fails. -/
inductive ClientError where
  | connector (e : ConnectError)
  | requestBody (e : LimitedBodyError)
  | transport
  deriving DecidableEq, Repr

/-- The source chain: the connector's error, or the request body's below the protocol error. -/
def ClientError.sources : ClientError → List ErrorSource
  | .connector e => [.connect e]
  | .requestBody e => [.other,.body e]
  | .transport => [.other]

/-- A connector error, or what the pooled client wraps. -/
inductive UpstreamError where
  | connect (e : ConnectError)
  | client (e : ClientError)
  deriving DecidableEq, Repr

/-- Whether an error says something of the health of the endpoint. -/
def healthReportableConnect : ConnectError → Bool
  | .saturated | .noEndpoints | .invalidRootCertificate _ | .invalidHost _ | .h3Unavailable => false
  | _ => true

def healthReportable : UpstreamError → Bool
  | .connect e => healthReportableConnect e
  | .client _ => true

/-- The first connector error of the chain decides; without one, it was the exchange that failed. -/
def healthReportableLegacy (e : ClientError) : Bool :=
  match e.sources.findSome? fun | .connect e => some e | _ => none with
  | some e => healthReportableConnect e
  | none => true

/-- Connector errors that callers tell apart come back out of the chain. -/
def UpstreamError.ofClient (e : ClientError) : UpstreamError :=
  match e.sources.findSome? fun
    | .connect (.connectTimeout after) => some (.connectTimeout after)
    | .connect (.invalidHost host) => some (.invalidHost host)
    | .connect .saturated => some ConnectError.saturated
    | _ => none with
  | some e => .connect e
  | none => .client e

/-- The request body crossed the route's cap. -/
def requestLimitExceeded : UpstreamError → Bool
  | .client e => e.sources.any fun | .body (.overLimit _) => true | _ => false
  | .connect _ => false

/-- The request body did not match its signed digest; the chain is looked into below the cap's wrapper. -/
def signatureBodyMismatch : UpstreamError → Bool
  | .client e => e.sources.any fun | .body (.inner .digestMismatch) => true | _ => false
  | .connect _ => false

/-- Whether an error feeds the breaker. -/
def breakerReportable : UpstreamError → Bool
  | .connect .saturated | .connect .noEndpoints | .connect (.invalidRootCertificate _) | .connect (.invalidHost _) => false
  | _ => true

def transportRetryable : UpstreamError → Bool
  | .connect (.io _) | .client _ | .connect (.connectTimeout _) | .connect (.readTimeout _) => true
  | _ => false

/-- What one dispatch to a picked endpoint comes to. -/
inductive Exchange where
  | headers (status : ℕ)
  | failed (e : ClientError)
  | timedOut (after : ℕ)
  | h3BodyFailed (e : LimitedBodyError)
  | h3Failed (e : ConnectError)
  deriving DecidableEq, Repr

namespace Exchange

/-- What the endpoint's health is told when the headers resolve or the dispatch fails. -/
def healthReport : Exchange → Option Bool
  | .headers status => some (500 ≤ status)
  | .failed e => if healthReportableLegacy e then some true else none
  | .timedOut _ => some true
  | .h3BodyFailed _ => some true
  | .h3Failed e => if healthReportableConnect e then some true else none

/-- The status, or the error the caller gets. -/
def result : Exchange → Except UpstreamError ℕ
  | .headers status => .ok status
  | .failed e => .error (.ofClient e)
  | .timedOut after => .error (.connect (.readTimeout after))
  | .h3BodyFailed e => .error (.connect (.io (some e)))
  | .h3Failed e => .error (.connect e)

/-- It failed because of the request body: the client's side of the exchange. -/
def clientFault : Exchange → Option LimitedBodyError
  | .failed (.requestBody e) => some e
  | .h3BodyFailed e => some e
  | _ => none

end Exchange

/-- What the breaker is told of an attempt. -/
def breakerReport : Except UpstreamError ℕ → Option Bool
  | .ok status => some (500 ≤ status)
  | .error e => if signatureBodyMismatch e then none else if breakerReportable e then some true else none

end Dwara.Dataplane
