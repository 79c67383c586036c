import Dwara.Dataplane.RouteMatch
import Dwara.Lib.RollingWindow
import Dwara.Security.Authz

/-! Replay of captured requests: what a snapshot would decide, without side effects. -/

namespace Dwara.Dataplane.Replay
open Dwara.Config Dwara.Config.Net Dwara.Lib Dwara.Security Dwara.Snapshot
open Dwara.Dataplane.Balance (LoadBalancer)
open Dwara.Extensions.RateLimiter (Attachments RateLimitKeyContext RateLimitSelector)

/-- A compiled configuration; the routes are compiled with the matchers of a process. -/
structure Snapshot where
  gateway : Gateway
  matchers : Matchers

def Snapshot.routeTable (s : Snapshot) : RouteTable := compile s.gateway.routes

/-- A captured request; it has no query. -/
structure ReplayRequest where
  method : String
  path : String
  headers : List (String × String)
  authIdentity : Option String
  timestampMs : Int64

structure TransformSummary where
  requestHeaderOps : ℕ
  requestQueryOps : ℕ
  requestBodyTransform : Bool
  responseHeaderOps : ℕ
  responseBodyTransform : Bool
  deriving DecidableEq, Repr

structure UpstreamPick where
  upstream : String
  endpoint : String
  loadBalancer : String
  pathRewrite : String
  deriving DecidableEq, Repr

structure ReplayDecision where
  matchedRoute : Option String
  authzResult : Option Decision
  rateLimitResult : Option Bool
  transformResult : Option TransformSummary
  upstreamPick : Option UpstreamPick
  deriving DecidableEq, Repr

/-- The address replay takes for the peer. -/
def loopback : IpAddr := .v4 0x7f000001#32

section Authorization

def consumerByName (gateway : Gateway) (name : String) : Option Consumer :=
  gateway.consumers.find? (fun c => c.name = name)

def serviceOf (gateway : Gateway) (route : Route) : Option Service :=
  gateway.services.find? (fun s => s.name = route.service)

/-- The configured consumer, with its groups and no claims. -/
def replayIdentity (gateway : Gateway) (request : ReplayRequest) : Option Identity :=
  (request.authIdentity.bind (consumerByName gateway)).map (fun c => ⟨c.name,c.groups,[]⟩)

def consumerCfg (gateway : Gateway) (identity : Option Identity) : Option Consumer :=
  identity.bind (fun i => consumerByName gateway i.consumerName)

/-- The attachments of a request that came without a listener. -/
def authzChain (gateway : Gateway) (route : Route) (identity : Option Identity) : AuthzChain where
  consumer := (consumerCfg gateway identity).bind (·.authorization)
  route := route.authorization
  service := (serviceOf gateway route).bind (·.authorization)
  listener := none
  global := gateway.authorization

def evaluateAuthz (gateway : Gateway) (route : Route) (request : ReplayRequest) : Decision :=
  let identity := replayIdentity gateway request
  let chain := authzChain gateway route identity
  if chain.consumer.isNone && chain.route.isNone && chain.service.isNone && chain.global.isNone then .allow
  else (resolve chain ⟨identity,(identity.map (·.groups)).getD [],loopback,loopback,none⟩).decision

end Authorization

section RateLimit

abbrev SimulatedCounter := FixedWindow.Counts (String × UInt64) Int64

/-- A window of signed milliseconds is over when its end has come. -/
def elapsed (windowSeconds : UInt64) (now start : Int64) : Bool := start + windowSeconds.toInt64 * 1000 ≤ now

/-- One check of the simulated counter to make; a dry-run one is not made. -/
structure RateCheck where
  key : String
  requests : ℕ
  windowSeconds : UInt64
  dryRun : Bool

def RateCheck.charge (now : Int64) (c : RateCheck) : FixedWindow.Charge (String × UInt64) Int64 :=
  ⟨(c.key,c.windowSeconds),c.requests,now,elapsed c.windowSeconds now⟩

/-- The windows a rule stacks, with their lengths in seconds. -/
def windows (r : RateRequestsPer) : List (ℕ × UInt64) :=
  r.perSecond.toList.map (·,1) ++ r.minute.toList.map (·,60) ++ r.hour.toList.map (·,3600)

def policyByName (gateway : Gateway) (name : String) : Option Policy :=
  gateway.policies.find? (fun p => p.name = name)

def attachments (gateway : Gateway) (route : Route) (identity : Option Identity) : Attachments where
  consumer := ((consumerCfg gateway identity).map (·.policies)).getD []
  route := route.policies
  service := ((serviceOf gateway route).map (·.policies)).getD []
  listener := []
  global := gateway.globalPolicies

def keyContext (request : ReplayRequest) (route : Route) : RateLimitKeyContext :=
  ⟨"127.0.0.1",request.authIdentity,route.name⟩

/-- The components of a key. -/
def joinKey (ctx : RateLimitKeyContext) (selectors : List RateLimitSelector) : String :=
  ":".intercalate (selectors.map ctx.component)

/-- The key of a policy: of its first rule's selectors, or of the route. -/
def rateLimitKey (policy : Policy) (request : ReplayRequest) (route : Route) : String :=
  let selectors := (policy.rateLimits.head?.map (·.selector)).getD []
  joinKey (keyContext request route) (if selectors = [] then [.route] else selectors)

/-- The checks of one policy, all under one key. -/
def policyChecks (key : String) (policy : Policy) : List RateCheck :=
  policy.rateLimit.toList.map (fun rl => ⟨key,rl.requests,rl.windowSeconds,policy.dryRun⟩) ++
    policy.rateLimits.flatMap (fun rule =>
      (windows rule.requestsPer).map (fun w => ⟨key,w.1,w.2,policy.dryRun⟩))

/-- The checks of every attachment, most specific first. -/
def rateChecks (gateway : Gateway) (route : Route) (request : ReplayRequest) : List RateCheck :=
  (attachments gateway route (replayIdentity gateway request)).names.flatMap (fun name =>
    (policyByName gateway name).elim [] (fun policy => policyChecks (rateLimitKey policy request route) policy))

/-- The checks made, all of them whatever their verdicts. -/
def enforcedCharges (gateway : Gateway) (route : Route) (request : ReplayRequest) :
    List (FixedWindow.Charge (String × UInt64) Int64) :=
  ((rateChecks gateway route request).filter (fun c => !c.dryRun)).map (RateCheck.charge request.timestampMs)

def evaluateRateLimit (gateway : Gateway) (route : Route) (request : ReplayRequest) (counter : SimulatedCounter) :
    SimulatedCounter × Option Bool :=
  if (rateChecks gateway route request).isEmpty then (counter,none)
  else
    let (counter,admitted) := FixedWindow.checkAll counter (enforcedCharges gateway route request)
    (counter,some admitted)

end RateLimit

section Stages

def HeaderOps.count (ops : Option HeaderOps) : ℕ :=
  ops.elim 0 (fun h => h.set.length + h.add.length + h.remove.length + h.rename.length)

def summarizeTransforms (route : Route) : Option TransformSummary :=
  route.transforms.map (fun t =>
    { requestHeaderOps := t.request.elim 0 (fun r => HeaderOps.count r.headers)
      requestQueryOps := t.request.elim 0 (fun r => HeaderOps.count r.query)
      requestBodyTransform := t.request.any (·.body)
      responseHeaderOps := t.response.elim 0 (fun r => HeaderOps.count r.headers)
      responseBodyTransform := t.response.any (·.body) })

/-- The debug name in lower case. -/
def loadBalancerLabel : LoadBalancer → String
  | .roundRobin => "roundrobin"
  | .leastRequests => "leastrequests"
  | .random => "random"
  | .ipHash => "iphash"
  | .maglev => "maglev"
  | .peakEwma => "peakewma"

def pathRewriteLabel : Option PathRewrite → String
  | some .stripPrefix => "strip_prefix"
  | some (.replacePrefix _ _) => "replace_prefix"
  | some (.regex _ _) => "regex"
  | none => "none"

/-- The single target, or the first split target with a weight. -/
def resolveServiceUpstream (service : Service) : Option String :=
  service.upstream.or (service.split.bind (fun targets => (targets.find? (fun t => 0 < t.weight)).map (·.upstream)))

def pickUpstream (gateway : Gateway) (route : Route) : Option UpstreamPick :=
  match route.action with
  | .proxy rewrite => do
    let service ← serviceOf gateway route
    let name ← resolveServiceUpstream service
    let upstream ← gateway.upstreams.find? (fun u => u.name = name)
    let endpoint ← upstream.endpoints.head?
    return ⟨upstream.name,endpoint.address ++ ":" ++ toString endpoint.port.toNat,loadBalancerLabel upstream.loadBalancer,
      pathRewriteLabel rewrite⟩
  | _ => none

end Stages

/-- The route replay takes: the one the path resolves to, whatever its criteria. -/
def replayRoute (s : Snapshot) (path : String) : Option Route :=
  (s.routeTable.findFull s.matchers path).bind (fun found => s.gateway.routes[found.1]?)

def decide (s : Snapshot) (request : ReplayRequest) (counter : SimulatedCounter) : ReplayDecision × SimulatedCounter :=
  match replayRoute s request.path with
  | none => (⟨none,none,none,none,none⟩,counter)
  | some route =>
    let (counter,rateLimitResult) := evaluateRateLimit s.gateway route request counter
    ({ matchedRoute := some route.name
       authzResult := some (evaluateAuthz s.gateway route request)
       rateLimitResult := rateLimitResult
       transformResult := summarizeTransforms route
       upstreamPick := pickUpstream s.gateway route },counter)

end Dwara.Dataplane.Replay
