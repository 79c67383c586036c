import Dwara.Extensions.RedisRateLimiter
import Mathlib.Logic.Function.Basic

/-! Rate limiters over stacked windows, and the engine that checks the rules of the
policies attached to a request. The cells of the local limiter are the governor
crate's: a parameter here. -/

namespace Dwara.Extensions.RateLimiter
open Dwara.Extensions.RedisRateLimiter

structure RateDecision where
  allowed : Bool
  remaining : ℕ
  retryAfterMs : Option ℕ
  deriving DecidableEq, Repr

/-- The result of one check across stacked windows, of the binding window. -/
structure GcraOutcome where
  decision : RateDecision
  limit : ℕ
  refillMs : ℕ
  deriving DecidableEq, Repr

def deniedOutcome (limit retryAfterMs : ℕ) : GcraOutcome := ⟨⟨false,0,some retryAfterMs⟩,limit,retryAfterMs⟩

def allowedOutcome (limit remaining refillMs : ℕ) : GcraOutcome := ⟨⟨true,remaining,none⟩,limit,refillMs⟩

/-- The binding window on success is the one with least left, the first of equals. -/
def tighter (binding candidate : GcraOutcome) : GcraOutcome :=
  if candidate.decision.remaining < binding.decision.remaining then candidate else binding

section Local

/-- What governor says to `check_key_n`. -/
inductive GovernorAnswer where
  | insufficientCapacity
  | notUntil (waitMs : ℕ)
  | snapshot (remaining refillMs : ℕ)
  deriving DecidableEq, Repr

/-- The keyed limiter of governor with its store, over the readings of its clocks. -/
structure Governor (γ : Type) where
  checkKeyN : γ → String → ℕ → ℕ → γ × GovernorAnswer

structure GcraWindow (γ : Type) where
  limiter : γ
  burst : ℕ
  fullRefillMs : ℕ

/-- A local limiter has at least one window; they are in order of length. -/
structure GcraRateLimiter (γ : Type) where
  shortest : GcraWindow γ
  longer : List (GcraWindow γ)

variable {γ : Type} (gov : Governor γ)

/-- One window: the outcome to return at once, or a candidate for the binding one. -/
def GcraWindow.ask (w : GcraWindow γ) (key : String) (cost instant : ℕ) : GcraWindow γ × Except GcraOutcome GcraOutcome :=
  let (limiter,answer) := gov.checkKeyN w.limiter key cost instant
  ({ w with limiter := limiter },
    match answer with
    | .insufficientCapacity => .error (deniedOutcome w.burst w.fullRefillMs)
    | .notUntil waitMs => .error (deniedOutcome w.burst waitMs)
    | .snapshot remaining refillMs => .ok (allowedOutcome w.burst remaining refillMs))

def askAll (key : String) (cost instant : ℕ) : GcraOutcome → List (GcraWindow γ) → List (GcraWindow γ) × GcraOutcome
  | binding, [] => ([],binding)
  | binding, w :: ws =>
    match w.ask gov key cost instant with
    | (w,.error denied) => (w :: ws,denied)
    | (w,.ok candidate) =>
      let (ws,outcome) := askAll key cost instant (tighter binding candidate) ws
      (w :: ws,outcome)

def GcraRateLimiter.check (l : GcraRateLimiter γ) (key : String) (cost instant : ℕ) : GcraRateLimiter γ × GcraOutcome :=
  let cost := max cost 1
  match l.shortest.ask gov key cost instant with
  | (w,.error denied) => (⟨w,l.longer⟩,denied)
  | (w,.ok candidate) =>
    let (ws,outcome) := askAll gov key cost instant candidate l.longer
    (⟨w,ws⟩,outcome)

end Local

section Redis

/-- What becomes of one run of the script; a lost reply comes after its effect. -/
inductive RedisFate where
  | answered
  | unreachable
  | lost
  deriving DecidableEq, Repr

/-- What one rule check meets: the readings of its clocks, and for each window the
server's clock and the fate of the script. -/
structure CheckEnv where
  instant : ℕ
  nowNs : ℕ
  epochS : ℕ
  serverNs : ℕ → ℕ
  fate : ℕ → RedisFate

abbrev RedisStore := String → Option Cell

structure RedisRateLimiter where
  shortest : RedisWindow
  longer : List RedisWindow
  failOpen : Bool
  keyPrefix : String
  keyTtlS : ℕ
  isCluster : Bool

namespace RedisRateLimiter
variable (l : RedisRateLimiter)

def windows : List RedisWindow := l.shortest :: l.longer

/-- The Redis key of window `i`; a cluster hashes only what stands in braces. -/
def redisKey (key : String) (i : ℕ) : String :=
  if l.isCluster then l.keyPrefix ++ "\x7b" ++ key ++ "\x7d:" ++ toString i
  else l.keyPrefix ++ key ++ ":" ++ toString i

/-- The script on one key of the server; only an admitted call writes. -/
def runScript (env : CheckEnv) (store : RedisStore) (redisKey : String) (i : ℕ) (w : RedisWindow) (cost : ℕ) :
    RedisStore × Reply :=
  match w.script l.keyTtlS ⟨env.nowNs,cost⟩ ((readable (env.serverNs i) (store redisKey)).map (·.tat)) with
  | (some write,reply) =>
    (Function.update store redisKey (some ⟨write.tat,env.serverNs i + write.expireS * 1000000000⟩),reply)
  | (none,reply) => (store,reply)

/-- One window's reply, if it comes. -/
def checkWindow (env : CheckEnv) (store : RedisStore) (redisKey : String) (i : ℕ) (w : RedisWindow) (cost : ℕ) :
    RedisStore × Option Reply :=
  match env.fate i with
  | .unreachable => (store,none)
  | .lost => ((l.runScript env store redisKey i w cost).1,none)
  | .answered => ((l.runScript env store redisKey i w cost).1,some (l.runScript env store redisKey i w cost).2)

/-- The windows from the `i`th on. -/
def checkFrom (env : CheckEnv) (key : String) (cost : ℕ) :
    ℕ → List RedisWindow → Option GcraOutcome → RedisStore → RedisStore × GcraOutcome
  | _, [], binding, store =>
    (store,binding.getD (allowedOutcome l.shortest.burst l.shortest.burst l.shortest.fullRefillMs))
  | i, w :: ws, binding, store =>
    match l.checkWindow env store (l.redisKey key i) i w cost with
    | (store,some reply) =>
      if reply.allowed then
        let candidate := allowedOutcome w.burst reply.remaining.toNat w.fullRefillMs
        checkFrom env key cost (i + 1) ws (some (binding.elim candidate (tighter · candidate))) store
      else
        (store,deniedOutcome w.burst reply.retryAfterMs.toNat)
    | (store,none) =>
      if l.failOpen then checkFrom env key cost (i + 1) ws binding store
      else (store,deniedOutcome w.burst w.fullRefillMs)

def check (env : CheckEnv) (store : RedisStore) (key : String) (cost : ℕ) : RedisStore × GcraOutcome :=
  l.checkFrom env key (max cost 1) 0 l.windows none store

end RedisRateLimiter
end Redis

section Engine
variable {γ : Type}

inductive RateLimitSelector where
  | ip
  | credential
  | route
  deriving DecidableEq, Repr

/-- The attributes of a request a rule key is built from. -/
structure RateLimitKeyContext where
  peer : String
  consumer : Option String
  route : String
  deriving DecidableEq, Repr

def RateLimitKeyContext.component (ctx : RateLimitKeyContext) : RateLimitSelector → String
  | .ip => ctx.peer
  | .credential => ctx.consumer.getD ctx.peer
  | .route => ctx.route

def buildKey (ctx : RateLimitKeyContext) (selectors : List RateLimitSelector) : String :=
  selectors.foldl (fun key s => (if key = "" then key else key ++ "|") ++ ctx.component s) ""

inductive EngineLimiter (γ : Type) where
  | localGcra (l : GcraRateLimiter γ)
  | redis (l : RedisRateLimiter)

/-- One compiled rule of a policy; `position` is its place in the configuration. -/
structure EngineRule (γ : Type) where
  policyName : String
  position : ℕ
  selectors : List RateLimitSelector
  limiter : EngineLimiter γ
  dryRun : Bool

structure RateLimitEngine (γ : Type) where
  rules : List (EngineRule γ)
  positions_nodup : (rules.map (·.position)).Nodup

/-- What a denial puts on a response. -/
structure Denial where
  limit : ℕ
  remaining : ℕ
  resetEpochS : ℕ
  retryAfterS : ℕ
  deriving DecidableEq, Repr

inductive RateLimitOutcome where
  | notLimited
  | allowed (limit remaining resetEpochS : ℕ)
  | denied (d : Denial)
  deriving DecidableEq, Repr

def ceilSeconds (ms : ℕ) : ℕ := (ms + 999) / 1000

def rateOutcome (epochS : ℕ) (result : GcraOutcome) : RateLimitOutcome :=
  if result.decision.allowed then
    .allowed result.limit (result.decision.remaining % 2 ^ 32) (epochS + ceilSeconds result.refillMs)
  else
    let wait := ceilSeconds (result.decision.retryAfterMs.getD 0)
    .denied ⟨result.limit,result.decision.remaining % 2 ^ 32,epochS + wait,max (if wait < 2 ^ 32 then wait else 1) 1⟩

/-- What one rule said when the request reached it. -/
structure Verdict where
  position : ℕ
  dryRun : Bool
  outcome : RateLimitOutcome
  deriving DecidableEq, Repr

/-- The denials seen so far and the tightest admission. -/
structure Sinks where
  acc : Option RateLimitOutcome
  denied : Option Denial
  dryDenied : Option Denial
  deriving DecidableEq, Repr

/-- The first denial binds; later ones only stretch its wait and its reset. -/
def stretch (sink : Option Denial) (d : Denial) : Denial :=
  match sink with
  | none => d
  | some first =>
    if first.retryAfterS < d.retryAfterS then { first with retryAfterS := d.retryAfterS, resetEpochS := d.resetEpochS }
    else first

def Sinks.absorb (s : Sinks) (v : Verdict) : Sinks :=
  match v.outcome with
  | .denied d =>
    if v.dryRun then { s with dryDenied := some (stretch s.dryDenied d) } else { s with denied := some (stretch s.denied d) }
  | .allowed limit remaining resetEpochS =>
    if s.denied.isSome || v.dryRun then s
    else
      match s.acc with
      | some (.allowed _ prev _) => if prev ≤ remaining then s else { s with acc := some (.allowed limit remaining resetEpochS) }
      | _ => { s with acc := some (.allowed limit remaining resetEpochS) }
  | .notLimited => s

structure RateLimitEvaluation where
  outcome : RateLimitOutcome
  dryDenied : Option Denial
  deriving DecidableEq, Repr

def Sinks.evaluation (s : Sinks) : RateLimitEvaluation where
  outcome := match s.denied with | some d => .denied d | none => s.acc.getD .notLimited
  dryDenied := s.dryDenied

/-- The five attachment lists of a request, in resolution order. -/
structure Attachments where
  consumer : List String
  route : List String
  service : List String
  listener : List String
  global : List String

/-- The attached names, most specific first. -/
def Attachments.names (a : Attachments) : List String := a.consumer ++ a.route ++ a.service ++ a.listener ++ a.global

/-- The positions the engine resolves: those no earlier position has the name of. -/
def resolved (names : List String) : List String :=
  (names.zipIdx.filter (fun p => p.1 ∉ names.take p.2)).map (·.1)

/-- What a request leaves behind and what every rule it met said, in order. -/
structure Pass (γ : Type) where
  rules : List (EngineRule γ)
  store : RedisStore
  verdicts : List Verdict

/-- One request: its attributes, its attachment lists, and the cost the adaptive factor
of a policy gives it. -/
structure Request where
  ctx : RateLimitKeyContext
  attached : Attachments
  cost : String → ℕ

-- What the check of the rule at a position meets.
variable (gov : Governor γ) (req : Request) (env : ℕ → CheckEnv)

/-- Check one rule under its own key and the cost of its policy. -/
def EngineRule.check (rule : EngineRule γ) (store : RedisStore) : EngineRule γ × RedisStore × Verdict :=
  let key := buildKey req.ctx rule.selectors
  let cost := req.cost rule.policyName
  let env := env rule.position
  match rule.limiter with
  | .localGcra l =>
    let (l,result) := l.check gov key cost env.instant
    ({ rule with limiter := .localGcra l },store,⟨rule.position,rule.dryRun,rateOutcome env.epochS result⟩)
  | .redis l =>
    let (store,result) := l.check env store key cost
    (rule,store,⟨rule.position,rule.dryRun,rateOutcome env.epochS result⟩)

/-- Check the rules of one policy. -/
def visitPolicy (name : String) : List (EngineRule γ) → RedisStore → Pass γ
  | [], store => ⟨[],store,[]⟩
  | rule :: rules, store =>
    if rule.policyName ≠ name then
      let p := visitPolicy name rules store
      ⟨rule :: p.rules,p.store,p.verdicts⟩
    else
      let (rule',store,verdict) := rule.check gov req env store
      let p := visitPolicy name rules store
      ⟨rule' :: p.rules,p.store,verdict :: p.verdicts⟩

def visitPolicies : List String → List (EngineRule γ) → RedisStore → Pass γ
  | [], rules, store => ⟨rules,store,[]⟩
  | name :: names, rules, store =>
    let p := visitPolicy gov req env name rules store
    let q := visitPolicies names p.rules p.store
    ⟨q.rules,q.store,p.verdicts ++ q.verdicts⟩

/-- The rules and the store after one request, with every verdict. -/
def pass (rules : List (EngineRule γ)) (store : RedisStore) : Pass γ :=
  visitPolicies gov req env (resolved req.attached.names) rules store

/-- The enforcement outcome and the dry-run report of one request. -/
def evaluate (rules : List (EngineRule γ)) (store : RedisStore) : RateLimitEvaluation :=
  ((pass gov req env rules store).verdicts.foldl Sinks.absorb ⟨none,none,none⟩).evaluation

end Engine
end Dwara.Extensions.RateLimiter
