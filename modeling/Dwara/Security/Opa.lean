import Dwara.Lib.Text
import Dwara.Lib.Utf8

/-! The callout to a policy server: its URL, one exchange over HTTP, the decision cache,
and the revision of a downloaded bundle. The network and serde_json are parameters. -/

namespace Dwara.Security.Opa
open Dwara.Lib Dwara.Lib.Utf8

inductive JsonValue where
  | null
  | bool (b : Bool)
  | number (text : String)
  | string (s : String)
  | array (items : List JsonValue)
  | object (fields : List (String × JsonValue))

namespace JsonValue

def get (v : JsonValue) (field : String) : Option JsonValue :=
  match v with
  | object fields => fields.lookup field
  | _ => none

def asBool : JsonValue → Option Bool
  | bool b => some b
  | _ => none

def asStr : JsonValue → Option String
  | string s => some s
  | _ => none

end JsonValue

/-- The reader and the writer of serde_json. -/
structure SerdeJson where
  fromStr : String → Except String JsonValue
  write : JsonValue → String

inductive OpaError where
  | http (message : String)
  | status (code : ℕ) (body : String)
  | responseParse (message : String)
  deriving DecidableEq, Repr

inductive OpaDecision where
  | allow
  | deny
  deriving DecidableEq, Repr

inductive Scheme where
  | http
  | https
  deriving DecidableEq, Repr

def Scheme.text : Scheme → String
  | http => "http"
  | https => "https"

def Scheme.port : Scheme → ℕ
  | http => 80
  | https => 443

def Scheme.ofText (text : String) : Option Scheme :=
  if text = "http" then some .http else if text = "https" then some .https else none

/-- The host and the port of an authority: the port is what follows the last colon. -/
def parseAuthority (scheme : Scheme) (authority : List Char) : Except OpaError (String × ℕ) :=
  match Text.splitLast ':' authority with
  | none => .ok (String.ofList authority,scheme.port)
  | some (host,port) =>
    match Text.parseU16 port with
    | none => .error (.http ("invalid port in URL: " ++ String.ofList port))
    | some port => .ok (String.ofList host,port)

/-- Scheme, host, port and path. -/
def parseUrl (url : String) : Except OpaError (Scheme × String × ℕ × String) :=
  match Text.splitOnceAt "://".toList url.toList with
  | none => .error (.http "URL must start with http:// or https://")
  | some (scheme,rest) =>
    match Scheme.ofText (String.ofList scheme) with
    | none => .error (.http ("unsupported scheme: " ++ String.ofList scheme ++ " (use http or https)"))
    | some scheme =>
      let (authority,path) := (Text.splitOnceAt ['/'] rest).getD (rest,[])
      let path := if path.isEmpty then "/" else String.ofList ('/' :: path)
      match parseAuthority scheme authority with
      | .error e => .error e
      | .ok (host,port) => .ok (scheme,host,port,path)

/-- The body of a response with status 200. -/
def parseHttpResponse (response : Bytes) : Except OpaError String :=
  let text := fromUtf8Lossy response
  match Text.splitOnceAt "\r\n\r\n".toList text with
  | none => .error (.http "no body in response")
  | some (_,body) =>
    let statusLine := Text.firstLine text
    if (Text.splitOnceAt " 200 ".toList statusLine).isSome then .ok (String.ofList body)
    else
      let code := ((Text.splitWhitespace (String.ofList statusLine))[1]?.bind fun s => Text.parseU16 s.toList).getD 0
      .error (.status code (String.ofList body))

abbrev IpAddr := String
abbrev Anchor := Bytes

/-- One host and port: its addresses, whether it takes a connection, the trust anchor of
its certificate chain, and all it sends to a request until it closes, in time. -/
structure Peer where
  lookup : Except String (List IpAddr)
  connect : Except String Unit
  anchor : Anchor
  respond : String → Except String Bytes

abbrev Network := String → ℕ → Peer

/-- The egress filter: nothing when it is off, else why an address is refused. -/
abbrev SsrfFilter := Option (IpAddr → Option String)

def SsrfFilter.check (filter : SsrfFilter) (peer : Peer) : Except OpaError Unit :=
  match filter with
  | none => .ok ()
  | some refuse =>
    match peer.lookup with
    | .error e => .error (.http ("DNS resolution failed: " ++ e))
    | .ok addrs =>
      match addrs.findSome? refuse with
      | none => .ok ()
      | some reason => .error (.http ("SSRF egress filter rejected OPA target: " ++ reason))

/-- The trust anchors the client is given. -/
def rootStore : List Anchor := []

/-- A handshake succeeds when the server's chain is anchored in the root store. -/
def tlsHandshake (peer : Peer) : Except OpaError Unit :=
  if peer.anchor ∈ rootStore then .ok () else .error (.http "TLS handshake: invalid peer certificate: UnknownIssuer")

def doHttpIo (peer : Peer) (request : String) : Except OpaError String :=
  match peer.respond request with
  | .error e => .error (.http e)
  | .ok response => parseHttpResponse response

/-- One exchange with a request made from host and path. -/
def asyncExchange (filter : SsrfFilter) (net : Network) (url : String) (request : String → String → String) : Except OpaError String :=
  match parseUrl url with
  | .error e => .error e
  | .ok (scheme,host,port,path) =>
    let peer := net host port
    match filter.check peer with
    | .error e => .error e
    | .ok () =>
      match peer.connect with
      | .error e => .error (.http ("connect: " ++ e))
      | .ok () =>
        match scheme with
        | .http => doHttpIo peer (request host path)
        | .https =>
          match tlsHandshake peer with
          | .error e => .error e
          | .ok () => doHttpIo peer (request host path)

def postRequest (body host path : String) : String :=
  "POST " ++ path ++ " HTTP/1.1\r\nHost: " ++ host ++ "\r\nContent-Type: application/json\r\nContent-Length: " ++
    toString body.utf8ByteSize ++ "\r\nConnection: close\r\n\r\n" ++ body

def getRequest (host path : String) : String :=
  "GET " ++ path ++ " HTTP/1.1\r\nHost: " ++ host ++ "\r\nConnection: close\r\n\r\n"

def asyncPost (filter : SsrfFilter) (net : Network) (url body : String) : Except OpaError String :=
  asyncExchange filter net url (postRequest body)

def asyncGet (filter : SsrfFilter) (net : Network) (url : String) : Except OpaError String :=
  asyncExchange filter net url getRequest

structure OpaClient where
  endpoint : String
  cacheTtl : ℕ
  ssrfFilter : SsrfFilter
  failOpen : Bool

namespace OpaClient
variable (c : OpaClient) (json : SerdeJson)

/-- What OPA decides on an input. -/
def callOpa (net : Network) (input : JsonValue) : Except OpaError OpaDecision :=
  match asyncPost c.ssrfFilter net c.endpoint (json.write (.object [("input",input)])) with
  | .error e => .error e
  | .ok response =>
    match json.fromStr response with
    | .error e => .error (.responseParse ("parse response: " ++ e))
    | .ok result =>
      match (result.get "result").bind JsonValue.asBool with
      | none => .error (.responseParse "missing 'result' field")
      | some allowed => .ok (if allowed then .allow else .deny)

def cacheKey (input : JsonValue) : String := c.endpoint ++ ":" ++ json.write input

/-- What a call returns for the outcome of its callout. -/
def outcome : Except OpaError OpaDecision → Except OpaError OpaDecision
  | .ok d => .ok d
  | .error e => if c.failOpen then .ok .allow else .error e

/-- The revision of a bundle, empty when it names none. -/
def fetchBundle (net : Network) (url : String) : Except OpaError String :=
  match asyncGet c.ssrfFilter net url with
  | .error e => .error e
  | .ok response =>
    match json.fromStr response with
    | .error e => .error (.responseParse ("parse bundle: " ++ e))
    | .ok bundle => .ok (((bundle.get "revision").bind JsonValue.asStr).getD "")

end OpaClient

structure CachedDecision where
  decision : Bool
  expiresAt : ℕ
  deriving DecidableEq, Repr

abbrev DecisionCache := String → Option CachedDecision

/-- The decision of a live entry. -/
def DecisionCache.lookup (cache : DecisionCache) (key : String) (now : ℕ) : Option OpaDecision :=
  match cache key with
  | none => none
  | some entry => if now < entry.expiresAt then some (if entry.decision then .allow else .deny) else none

namespace OpaClient
variable (c : OpaClient) (json : SerdeJson)

def insert (cache : DecisionCache) (key : String) (d : OpaDecision) (now : ℕ) : DecisionCache :=
  Function.update cache key (some ⟨d = .allow,now + c.cacheTtl⟩)

/-- A call that nothing interrupts: the cache first, then OPA, whose decision is cached. -/
def isAuthorized (cache : DecisionCache) (net : Network) (input : JsonValue) (now later : ℕ) :
    Except OpaError OpaDecision × DecisionCache :=
  match cache.lookup (c.cacheKey json input) now with
  | some d => (.ok d,cache)
  | none =>
    let decision := c.callOpa json net input
    match decision with
    | .error _ => (c.outcome decision,cache)
    | .ok d => (c.outcome decision,c.insert cache (c.cacheKey json input) d later)

end OpaClient
end Dwara.Security.Opa
