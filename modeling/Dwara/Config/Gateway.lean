import Dwara.Dataplane.Balance
import Dwara.Extensions.RateLimiter

/-! The configuration a request is decided by. -/

namespace Dwara.Config
open Dwara.Dataplane.Balance (LoadBalancer)
open Dwara.Extensions.RateLimiter (RateLimitSelector)

inductive IpAclDefault where
  | allow
  | deny
  deriving DecidableEq, Repr

structure IpAcl where
  allow : List String
  deny : List String
  default : IpAclDefault

structure GeoipRules where
  allowedCountries : List String
  deniedCountries : List String
  allowedAsns : List ℕ
  deniedAsns : List ℕ

/-- The authorization rules of one attachment. -/
structure Authz where
  allowedConsumers : List String
  deniedConsumers : List String
  allowedGroups : List String
  deniedGroups : List String
  requiredScopes : List String
  requiredClaims : List (String × String)
  ipAcl : Option IpAcl
  geoip : Option GeoipRules
  dryRun : Bool

/-- A query or cookie criterion; without a value, presence is enough. -/
structure NameValueMatch where
  name : String
  value : Option String

inductive PathMatchKind where
  | exact
  | prefixed
  | regex
  deriving DecidableEq, Repr

structure PathMatch where
  kind : PathMatchKind
  value : String

/-- The path of a route, and the criteria a request of it must meet. -/
structure RouteMatch where
  path : PathMatch
  host : Option String
  methods : List String
  headers : List (String × String)
  query : List NameValueMatch
  cookies : List NameValueMatch
  accept : Option String

/-- The operations on headers, or on a query. -/
structure HeaderOps where
  set : List (String × String)
  add : List (String × String)
  remove : List String
  rename : List (String × String)

structure RequestTransforms where
  headers : Option HeaderOps
  query : Option HeaderOps
  body : Bool

structure ResponseTransforms where
  headers : Option HeaderOps
  body : Bool

structure Transforms where
  request : Option RequestTransforms
  response : Option ResponseTransforms

inductive PathRewrite where
  | stripPrefix
  | replacePrefix (pfx replacement : String)
  | regex (pattern substitution : String)

/-- Only a proxy action has an upstream. -/
inductive RouteAction where
  | proxy (rewrite : Option PathRewrite)
  | redirect
  | respond
  | mock
  | ai
  | nanoService

structure Route where
  name : String
  routeMatch : RouteMatch
  service : String
  policies : List String
  authorization : Option Authz
  transforms : Option Transforms
  action : RouteAction

structure SplitTarget where
  upstream : String
  weight : ℕ

structure Service where
  name : String
  upstream : Option String
  split : Option (List SplitTarget)
  policies : List String
  authorization : Option Authz

structure Endpoint where
  address : String
  port : UInt16

structure Upstream where
  name : String
  loadBalancer : LoadBalancer
  endpoints : List Endpoint

structure Consumer where
  name : String
  policies : List String
  groups : List String
  authorization : Option Authz

/-- Sustained rates; each set field is a window. -/
structure RateRequestsPer where
  perSecond : Option ℕ
  minute : Option ℕ
  hour : Option ℕ

structure RateLimitRule where
  selector : List RateLimitSelector
  requestsPer : RateRequestsPer

structure RateLimit where
  requests : ℕ
  windowSeconds : UInt64

structure Policy where
  name : String
  rateLimit : Option RateLimit
  rateLimits : List RateLimitRule
  dryRun : Bool

structure Gateway where
  routes : List Route
  services : List Service
  upstreams : List Upstream
  consumers : List Consumer
  policies : List Policy
  globalPolicies : List String
  authorization : Option Authz
  trustedProxies : List String

end Dwara.Config
