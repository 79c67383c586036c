import Dwara.Snapshot.RouteTable

/-! The criteria of a route beside its path, and the route the live pipeline selects. -/

namespace Dwara.Dataplane
open Dwara.Config Dwara.Lib Dwara.Snapshot

/-- The head of a request. -/
structure RequestHead where
  method : String
  path : String
  query : Option String
  headers : List (String × String)

namespace RequestHead
variable (req : RequestHead)

def headerAll (name : String) : List String :=
  (req.headers.filter (fun h => Text.eqIgnoreAsciiCase h.1 name)).map (·.2)

def header (name : String) : Option String := (req.headerAll name).head?

end RequestHead

/-- A header value as text, if it has only visible ASCII characters. -/
def toStr (value : String) : Option String :=
  if value.toList.all (fun c => (32 ≤ c.toNat && c.toNat < 127) || c = '\t') then some value else none

def nameValueHits (name value : String) (want : NameValueMatch) : Bool :=
  name = want.name && want.value.all (· = value)

/-- A `name=value` text; without the sign, the value is empty. -/
def nameValue (pair : String) : String × String := (Text.splitOnce '=' pair).getD (pair,"")

def queryParamMatches (query : Option String) (want : NameValueMatch) : Bool :=
  query.any (fun raw => (Text.split '&' raw).any (fun pair => nameValueHits (nameValue pair).1 (nameValue pair).2 want))

def parseCookies (header : String) : List (String × String) :=
  (((Text.split ';' header).map Text.trim).filter (· ≠ "")).map nameValue

def cookieMatches (req : RequestHead) (want : NameValueMatch) : Bool :=
  (req.headerAll "cookie").any (fun header =>
    (toStr header).any (fun raw => (parseCookies raw).any (fun c => nameValueHits c.1 c.2 want)))

/-- Whether an `Accept` value names the media type; parameters are read over. -/
def acceptListsMediaType (raw want : String) : Bool :=
  (Text.split ',' raw).any (fun entry =>
    let mediaType := Text.trim ((Text.split ';' entry).headD "")
    mediaType ≠ "" && Text.eqIgnoreAsciiCase mediaType want)

def acceptMatches (req : RequestHead) (mediaType : String) : Bool :=
  (req.headerAll "accept").any (fun value => (toStr value).any (acceptListsMediaType · mediaType))

/-- The `Host` header, with or without its port. -/
def hostMatches (req : RequestHead) (want : String) : Bool :=
  match (req.header "host").bind toStr with
  | none => false
  | some got =>
    Text.eqIgnoreAsciiCase got want || Text.eqIgnoreAsciiCase ((Text.beforeLast ':' got).getD got) want

/-- All criteria of a route hold; `accept` is its compiled media type. -/
def routeApplies (m : RouteMatch) (accept : Option String) (req : RequestHead) : Bool :=
  m.host.all (hostMatches req) &&
  (m.methods = [] || m.methods.any (fun want => Text.eqIgnoreAsciiCase req.method (Text.trim want))) &&
  m.headers.all (fun h => req.header h.1 = some h.2) &&
  accept.all (acceptMatches req) &&
  m.query.all (queryParamMatches req.query) &&
  m.cookies.all (cookieMatches req)

/-- The first candidate whose criteria hold. -/
def selectRoute (routes : List Route) (table : RouteTable) (req : RequestHead) : List (ℕ × Params) → Option Route
  | [] => none
  | (idx, _) :: candidates =>
    match routes[idx]? with
    | some route =>
      if routeApplies route.routeMatch (table.acceptMediaType idx) req then some route
      else selectRoute routes table req candidates
    | none => selectRoute routes table req candidates

end Dwara.Dataplane
