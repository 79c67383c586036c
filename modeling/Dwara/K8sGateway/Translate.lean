import Dwara.Config.Gateway
import Dwara.Lib.Text

/-! The translation of a Kubernetes Gateway and its HTTPRoutes into a configuration. -/

namespace Dwara.K8sGateway
open Dwara.Config

section Resources

structure ObjectMeta where
  name : String
  ns : Option String

structure SecretObjectReference where
  name : String
  ns : Option String

structure ListenerTlsConfig where
  mode : String
  certificateRefs : List SecretObjectReference

structure GatewayListener where
  name : String
  port : ℕ
  protocol : String
  hostname : Option String
  tls : Option ListenerTlsConfig

structure Gateway where
  metadata : ObjectMeta
  listeners : List GatewayListener

structure ParentReference where
  kind : String
  name : String
  ns : Option String

structure HttpPathMatch where
  matchType : String
  value : String

structure HttpHeaderMatch where
  matchType : String
  name : String
  value : String

structure HttpQueryParamMatch where
  matchType : String
  name : String
  value : String

structure HttpRouteMatch where
  path : Option HttpPathMatch
  headers : List HttpHeaderMatch
  queryParams : List HttpQueryParamMatch

structure HttpHeaderFilter where
  name : String
  value : String

inductive UrlRewritePath where
  | replaceFullPath (path : String)
  | replacePrefixMatch (path : String)

inductive HttpRouteFilter where
  | requestRedirect (scheme hostname path : Option String) (port : Option ℕ) (statusCode : ℕ)
  | requestHeaderModifier (add set : List HttpHeaderFilter) (remove : List String)
  | responseHeaderModifier (add set : List HttpHeaderFilter) (remove : List String)
  | urlRewrite (hostname : Option String) (path : Option UrlRewritePath)
  | extensionRef (group kind : String) (name : Option String)

structure HttpBackendRef where
  kind : String
  name : String
  ns : Option String
  port : Option ℕ
  weight : ℕ

structure HttpRouteRule where
  routeMatches : List HttpRouteMatch
  filters : List HttpRouteFilter
  backendRefs : List HttpBackendRef

structure HttpRoute where
  metadata : ObjectMeta
  parentRefs : List ParentReference
  hostnames : List String
  rules : List HttpRouteRule

end Resources

section Translated

inductive ListenerProtocol where
  | http
  | https
  deriving DecidableEq, Repr

inductive TlsMode where
  | terminate
  | passthrough
  deriving DecidableEq, Repr

structure TlsCertificate where
  serverNames : List String
  certFile : String
  keyFile : String

structure ListenerTls where
  mode : TlsMode
  certFile : Option String
  keyFile : Option String
  certificates : List TlsCertificate

structure Listener where
  name : String
  address : String
  port : ℕ
  protocol : ListenerProtocol
  tls : Option ListenerTls

inductive RouteAction where
  | proxy (rewrite : Option PathRewrite)
  | redirect (scheme host path : Option String) (status : ℕ)
  | respond (status : ℕ)

structure Route where
  name : String
  service : String
  routeMatch : RouteMatch
  action : RouteAction
  transforms : Option Transforms

structure Service where
  name : String
  upstream : Option String

structure Upstream (Endpoint : Type) where
  name : String
  endpoints : List Endpoint

structure TranslationResult (Endpoint : Type) where
  listeners : List Listener
  routes : List Route
  services : List Service
  upstreams : List (Upstream Endpoint)
  warnings : List String

end Translated

section Listeners

def translateTlsMode (listener : GatewayListener) (mode : String) : TlsMode × List String :=
  if mode = "Terminate" then (.terminate,[])
  else if mode = "Passthrough" then (.passthrough,[])
  else if mode = "Reencrypt" then
    (.terminate,["listener " ++ listener.name ++ " uses Reencrypt TLS; mapped to Terminate (backend TLS not yet wired)"])
  else (.terminate,["listener " ++ listener.name ++ " has unknown TLS mode '" ++ mode ++ "', defaulting to Terminate"])

def secretFile (r : SecretObjectReference) : String := "k8s-secret:" ++ r.ns.getD "default" ++ "/" ++ r.name

def translateListenerTls (listener : GatewayListener) : Option ListenerTls × List String :=
  match listener.tls with
  | none => (none,[])
  | some tls =>
    let (mode,warnings) := translateTlsMode listener tls.mode
    let certificates := tls.certificateRefs.map fun r => ⟨listener.hostname.toList,secretFile r,secretFile r⟩
    (some ⟨mode,certificates.head?.map TlsCertificate.certFile,certificates.head?.map TlsCertificate.keyFile,certificates⟩,warnings)

def translateProtocol (listener : GatewayListener) : ListenerProtocol × List String :=
  if listener.protocol = "HTTP" then (.http,[])
  else if listener.protocol = "HTTPS" ∨ listener.protocol = "TLS" then (.https,[])
  else (.http,["listener " ++ listener.name ++ " has unknown protocol '" ++ listener.protocol ++ "', defaulting to HTTP"])

def translateListener (listener : GatewayListener) : Listener × List String :=
  let (tls,tlsWarnings) := translateListenerTls listener
  let (protocol,protocolWarnings) := translateProtocol listener
  (⟨listener.name,"0.0.0.0",listener.port,protocol,tls⟩,tlsWarnings ++ protocolWarnings)

end Listeners

section Matches

/-- An entry put into a map; it takes the place of one with its key. -/
def putEntry (entries : List (String × String)) (name value : String) : List (String × String) :=
  entries.filter (fun e => e.1 ≠ name) ++ [(name,value)]

def pathMatchKind (matchType : String) : PathMatchKind :=
  if matchType = "Exact" then .exact
  else if matchType = "PathPrefix" ∨ matchType = "" then .prefixed
  else if matchType = "RegularExpression" then .regex
  else .prefixed

def translatePath : Option HttpPathMatch → PathMatch
  | some p => ⟨pathMatchKind p.matchType,p.value⟩
  | none => ⟨.prefixed,"/"⟩

def IsExact (matchType : String) : Prop := matchType = "Exact" ∨ matchType = ""

instance (matchType : String) : Decidable (IsExact matchType) := inferInstanceAs (Decidable (_ ∨ _))

def headerWarning (h : HttpHeaderMatch) : Option String :=
  if IsExact h.matchType then none
  else if h.matchType = "RegularExpression" then
    some ("RegularExpression header match on '" ++ h.name ++ "' is not natively supported; header match dropped")
  else some ("unknown header match type '" ++ h.matchType ++ "' on '" ++ h.name ++ "'; header match dropped")

def queryWarning (q : HttpQueryParamMatch) : Option String :=
  if IsExact q.matchType then none
  else if q.matchType = "RegularExpression" then
    some ("RegularExpression query param match on '" ++ q.name ++ "' is not natively supported; query match dropped")
  else some ("unknown query param match type '" ++ q.matchType ++ "' on '" ++ q.name ++ "'; query match dropped")

def headerMap (headers : List HttpHeaderMatch) : List (String × String) :=
  headers.foldl (fun entries h => if IsExact h.matchType then putEntry entries h.name h.value else entries) []

def queryMatches (params : List HttpQueryParamMatch) : List NameValueMatch :=
  params.filterMap fun q => if IsExact q.matchType then some ⟨q.name,some q.value⟩ else none

/-- A match becomes the criteria of a route; none matches every path. -/
def translateMatch (m : Option HttpRouteMatch) (host : Option String) : RouteMatch × List String :=
  match m with
  | none => (⟨translatePath none,host,[],[],[],[],none⟩,[])
  | some m =>
    (⟨translatePath m.path,host,[],headerMap m.headers,queryMatches m.queryParams,[],none⟩,
      m.headers.filterMap headerWarning ++ m.queryParams.filterMap queryWarning)

end Matches

section Filters

/-- What the filters of a rule add up to. -/
structure FilterState where
  action : Option RouteAction
  rewrite : Option PathRewrite
  reqHeaders : Option HeaderOps
  respHeaders : Option HeaderOps
  warnings : List String

def modifyHeaders (ops : Option HeaderOps) (add set : List HttpHeaderFilter) (remove : List String) : HeaderOps :=
  let ops := ops.getD ⟨[],[],[],[]⟩
  { ops with
    set := set.foldl (fun entries h => putEntry entries h.name h.value) ops.set
    add := add.foldl (fun entries h => putEntry entries h.name h.value) ops.add
    remove := ops.remove ++ remove }

def rewriteOf : UrlRewritePath → PathRewrite
  | .replaceFullPath path => .replacePrefix "/" path
  | .replacePrefixMatch path => .replacePrefix "/" path

def hostnameDropped : String :=
  "URLRewrite hostname filter is not natively supported on the upstream path; hostname rewrite dropped"

def translateFilter (s : FilterState) : HttpRouteFilter → FilterState
  | .requestRedirect scheme hostname path _ statusCode => { s with action := some (.redirect scheme hostname path statusCode) }
  | .requestHeaderModifier add set remove => { s with reqHeaders := some (modifyHeaders s.reqHeaders add set remove) }
  | .responseHeaderModifier add set remove => { s with respHeaders := some (modifyHeaders s.respHeaders add set remove) }
  | .urlRewrite hostname path =>
    if s.action.isNone then
      { s with
        rewrite := (path.map rewriteOf).or s.rewrite
        warnings := s.warnings ++ if hostname.isSome ∧ path.isNone then [hostnameDropped] else [] }
    else s
  | .extensionRef group kind _ =>
    { s with warnings := s.warnings ++ ["extension filter " ++ group ++ "/" ++ kind ++ " is not supported; filter dropped"] }

def filterState (filters : List HttpRouteFilter) : FilterState := filters.foldl translateFilter ⟨none,none,none,none,[]⟩

def FilterState.transforms (s : FilterState) : Option Transforms :=
  if s.reqHeaders.isSome ∨ s.respHeaders.isSome then
    some ⟨s.reqHeaders.map fun h => ⟨some h,none,false⟩,s.respHeaders.map fun h => ⟨some h,false⟩⟩
  else none

end Filters

def endpointKey (ns service : String) (port : ℕ) : String := ns ++ "/" ++ service ++ ":" ++ toString port

/-- Whether a route attaches to the Gateway of that name and namespace. -/
def routeAttachesTo (route : HttpRoute) (gatewayName : String) (gatewayNs : Option String) : Bool :=
  route.parentRefs = [] ∨
    route.parentRefs.any fun p => p.name = gatewayName ∧ p.kind = "Gateway" ∧ p.ns.getD "default" = gatewayNs.getD "default"

/-- What one match of a rule becomes. -/
structure Generated (Endpoint : Type) where
  route : Route
  service : Option Service
  upstream : Option (Upstream Endpoint)
  warnings : List String

section Routes
variable {Endpoint : Type} (endpoints : String → Option (List Endpoint))

def matchCount (rule : HttpRouteRule) : ℕ := max rule.routeMatches.length 1

def routeName (route : HttpRoute) (ruleIdx : ℕ) (rule : HttpRouteRule) (matchIdx : ℕ) : String :=
  if matchCount rule = 1 then route.metadata.name ++ "-rule-" ++ toString ruleIdx
  else route.metadata.name ++ "-rule-" ++ toString ruleIdx ++ "-match-" ++ toString matchIdx

def upstreamName (routeName : String) (b : HttpBackendRef) : String :=
  routeName ++ "-" ++ b.name ++ "-" ++ toString (b.port.getD 80)

def serviceName (routeName : String) (b : HttpBackendRef) : String :=
  routeName ++ "-svc-" ++ b.name ++ "-" ++ toString (b.port.getD 80)

def backendKey (route : HttpRoute) (b : HttpBackendRef) : String :=
  endpointKey ((b.ns.or route.metadata.ns).getD "default") b.name (b.port.getD 80)

/-- The endpoints of a backend, and a warning when there are none. -/
def backendEndpoints (route : HttpRoute) (name : String) (b : HttpBackendRef) : List Endpoint × List String :=
  match endpoints (backendKey route b) with
  | some eps => (eps,[])
  | none => ([],["no endpoints found for backend " ++ backendKey route b ++ " (route " ++ name ++ ")"])

/-- What the action, the service, the upstream and the warnings of a route come from: a
redirect goes before the backends, and of these the first is used. -/
def translateBackends (route : HttpRoute) (name : String) (filters : FilterState) (backendRefs : List HttpBackendRef) :
    RouteAction × Option Service × Option (Upstream Endpoint) × List String :=
  match filters.action, backendRefs with
  | some action, _ => (action,none,none,[])
  | none, b :: _ =>
    (.proxy filters.rewrite,some ⟨serviceName name b,some (upstreamName name b)⟩,
      some ⟨upstreamName name b,(backendEndpoints endpoints route name b).1⟩,(backendEndpoints endpoints route name b).2)
  | none, [] => (.respond 503,none,none,["route " ++ name ++ " has no backends"])

def translateRuleMatch (route : HttpRoute) (ruleIdx : ℕ) (rule : HttpRouteRule) (matchIdx : ℕ) : Generated Endpoint :=
  let name := routeName route ruleIdx rule matchIdx
  let (routeMatch,matchWarnings) := translateMatch rule.routeMatches[matchIdx]? route.hostnames.head?
  let filters := filterState rule.filters
  let (action,service,upstream,warnings) := translateBackends endpoints route name filters rule.backendRefs
  ⟨⟨name,service.elim "none" Service.name,routeMatch,action,filters.transforms⟩,service,upstream,
    matchWarnings ++ filters.warnings ++ warnings⟩

def translateRule (route : HttpRoute) (ruleIdx : ℕ) (rule : HttpRouteRule) : List (Generated Endpoint) :=
  (List.range (matchCount rule)).map (translateRuleMatch endpoints route ruleIdx rule)

def translateRoute (route : HttpRoute) : List (Generated Endpoint) :=
  route.rules.zipIdx.flatMap fun (rule,ruleIdx) => translateRule endpoints route ruleIdx rule

def attached (gateway : Gateway) (routes : List HttpRoute) : List HttpRoute :=
  routes.filter fun route => routeAttachesTo route gateway.metadata.name gateway.metadata.ns

def generated (gateway : Gateway) (routes : List HttpRoute) : List (Generated Endpoint) :=
  (attached gateway routes).flatMap (translateRoute endpoints)

def translate (gateway : Gateway) (routes : List HttpRoute) : TranslationResult Endpoint where
  listeners := gateway.listeners.map fun l => (translateListener l).1
  routes := (generated endpoints gateway routes).map Generated.route
  services := (generated endpoints gateway routes).filterMap Generated.service
  upstreams := (generated endpoints gateway routes).filterMap Generated.upstream
  warnings := gateway.listeners.flatMap (fun l => (translateListener l).2) ++ (generated endpoints gateway routes).flatMap Generated.warnings

end Routes
end Dwara.K8sGateway
