import Mathlib.Algebra.Group.Nat.Defs
import Mathlib.Data.List.Basic
import Mathlib.Data.Nat.Notation
import Mathlib.Logic.Function.Basic
import Mathlib.Tactic.TypeStar

/-! The plugin chain of a request, with phases that pause for HTTP callouts of a guest. -/

namespace Dwara.Plugins

inductive PluginPhase where
  | requestHeaders
  | requestBody
  | responseHeaders
  | responseBody
  deriving DecidableEq, Repr

/-- What a phase hands from plugin to plugin. -/
abbrev PluginPhase.Payload : PluginPhase → Type
  | .requestHeaders | .responseHeaders => List (String × String)
  | .requestBody | .responseBody => List UInt8

def PluginPhase.noPayload : ∀ p : PluginPhase, p.Payload
  | .requestHeaders | .responseHeaders => []
  | .requestBody | .responseBody => []

def PluginPhase.label : PluginPhase → String
  | .requestHeaders => "request_headers"
  | .requestBody => "request_body"
  | .responseHeaders => "response_headers"
  | .responseBody => "response_body"

abbrev Payloads := ∀ p : PluginPhase, p.Payload

structure LocalResponse where
  status : ℕ
  headers : List (String × String)
  body : List UInt8
  deriving DecidableEq, Repr

section Guest

/-- A callout as it is registered, its request line and headers checked. -/
structure Callout where
  uri : String
  method : String
  headers : List (String × String)
  body : List UInt8
  timeoutMs : ℕ
  deriving DecidableEq, Repr

structure PendingCallout extends Callout where
  token : ℕ
  deriving DecidableEq, Repr

/-- A callout as the driver performs it. -/
structure CalloutRequest extends PendingCallout where
  plugin : String
  deriving DecidableEq, Repr

structure CalloutResponse where
  status : ℕ
  headers : List (String × String)
  body : List UInt8
  deriving DecidableEq, Repr

/-- What one call into a guest leaves behind, when it does not trap. Without the export only the
context of the request is created. -/
structure Ran (γ : Type*) where
  exported : Bool
  guest : γ
  payloads : Payloads
  dispatched : List Callout
  localResponse : Option LocalResponse
  endStream : Bool

/-- The exports of a guest. A call that traps says why. -/
structure Module (γ : Type*) where
  phase : PluginPhase → γ → Payloads → Except String (Ran γ)
  callback : γ → Payloads → ℕ → CalloutResponse → Except String (Ran γ)

inductive PhaseResult where
  | goOn
  | localResponse (r : LocalResponse)
  | trap (message : String)
  | pause
  deriving DecidableEq, Repr

/-- A guest of one request, with the callouts it has dispatched and the payloads as it left them. -/
structure Instance (γ : Type*) where
  code : Module γ
  guest : γ
  calloutTokenCounter : ℕ
  pendingCallouts : List PendingCallout
  payloads : Payloads
  localResponse : Option LocalResponse

namespace Instance
variable {γ : Type*}

def registerCallout (inst : Instance γ) (c : Callout) : Instance γ :=
  let token := if inst.calloutTokenCounter < 2^32 - 1 then inst.calloutTokenCounter + 1 else inst.calloutTokenCounter
  { inst with calloutTokenCounter := token, pendingCallouts := inst.pendingCallouts ++ [⟨c,token⟩] }

/-- The instance behind a call that did not trap. -/
def settle (inst : Instance γ) (ran : Ran γ) : Instance γ :=
  ran.dispatched.foldl registerCallout
    { inst with guest := ran.guest, payloads := ran.payloads, localResponse := ran.localResponse.or inst.localResponse }

/-- A guest that dispatched a callout pauses, whatever it returned. -/
def callPhaseExport (inst : Instance γ) (p : PluginPhase) (payload : p.Payload) : Instance γ × PhaseResult :=
  match inst.code.phase p inst.guest (Function.update inst.payloads p payload) with
  | .error message => (inst,.trap message)
  | .ok ran =>
    let inst := inst.settle ran
    if !ran.exported then (inst,.goOn)
    else
      match inst.localResponse with
      | some r => ({ inst with localResponse := none },.localResponse r)
      | none =>
        if ran.endStream then (inst,.localResponse ⟨200,[],[]⟩)
        else if inst.pendingCallouts ≠ [] then (inst,.pause)
        else (inst,.goOn)

def deliverCalloutResponse (inst : Instance γ) (token : ℕ) (resp : CalloutResponse) : Instance γ × PhaseResult :=
  match inst.code.callback inst.guest inst.payloads token resp with
  | .error message => (inst,.trap message)
  | .ok ran =>
    -- a guest without the export is told nothing
    if !ran.exported then (inst,.goOn)
    else
      let inst := inst.settle ran
      match inst.localResponse with
      | some r => ({ inst with localResponse := none },.localResponse r)
      | none => if inst.pendingCallouts ≠ [] then (inst,.pause) else (inst,.goOn)

/-- Those that were not performed go in front of those that were dispatched since. -/
def requeueCallouts (inst : Instance γ) (pending : List PendingCallout) : Instance γ :=
  { inst with pendingCallouts := pending ++ inst.pendingCallouts }

end Instance
end Guest

section Chain
variable (φ : Type*)

inductive FilterOutcome (α : Type*) where
  | goOn (payload : α)
  | localResponse (r : LocalResponse)
  | error (message : String)

/-- A native filter works on the state of the native filters of the request. -/
inductive ChainEntry (p : PluginPhase) where
  | native (name : String) (filter : φ → p.Payload → φ × FilterOutcome p.Payload)
  | wasm (name : String)

inductive ChainOutcome where
  | goOn
  | localResponse (r : LocalResponse)
  | error (plugin message : String)
  | calloutPending
  deriving DecidableEq, Repr

variable (γ : Type*)

/-- The chain of a request and the adapter of its guests. -/
structure PluginChain where
  phases : ∀ p : PluginPhase, List (ChainEntry φ p)
  natives : φ
  instances : String → Option (Instance γ)
  paused : Option (String × PluginPhase)
  pausedEntry : Option (PluginPhase × ℕ)

end Chain

namespace PluginChain
variable {φ γ : Type*} (c : PluginChain φ γ) (p : PluginPhase)

def setInstance (name : String) (inst : Instance γ) : PluginChain φ γ :=
  { c with instances := Function.update c.instances name (some inst) }

/-- What the adapter makes of a phase of one guest. A name without an instance is passed over. -/
def onPhase (name : String) (payload : p.Payload) : PluginChain φ γ × ChainOutcome × p.Payload :=
  match c.instances name with
  | none => (c,.goOn,payload)
  | some inst =>
    match inst.callPhaseExport p payload with
    | (inst,.goOn) => (c.setInstance name inst,.goOn,inst.payloads p)
    | (inst,.localResponse r) => (c.setInstance name inst,.localResponse r,p.noPayload)
    | (inst,.trap message) => (c.setInstance name inst,.error name message,p.noPayload)
    | (inst,.pause) => ({ c.setInstance name inst with paused := some (name,p) },.calloutPending,inst.payloads p)

/-- The entries from the one with number `idx` on. -/
def entriesFrom (c : PluginChain φ γ) (p : PluginPhase) :
    ℕ → List (ChainEntry φ p) → p.Payload → PluginChain φ γ × ChainOutcome × p.Payload
  | _, [], payload => (c,.goOn,payload)
  | idx, .native name filter :: entries, payload =>
    match filter c.natives payload with
    | (natives,.goOn payload) => entriesFrom { c with natives := natives } p (idx + 1) entries payload
    | (natives,.localResponse r) => ({ c with natives := natives },.localResponse r,payload)
    | (natives,.error message) => ({ c with natives := natives },.error name message,payload)
  | idx, .wasm name :: entries, payload =>
    match c.onPhase p name payload with
    | (c,.goOn,payload) => entriesFrom c p (idx + 1) entries payload
    | (c,.localResponse r,payload) => (c,.localResponse r,payload)
    | (c,.error plugin message,payload) => (c,.error plugin message,payload)
    | (c,.calloutPending,payload) => ({ c with pausedEntry := some (p,idx) },.calloutPending,payload)

def phaseFrom (payload : p.Payload) (start : ℕ) : PluginChain φ γ × ChainOutcome × p.Payload :=
  c.entriesFrom p start ((c.phases p).drop start) payload

def calloutResumeMismatch : ChainOutcome :=
  .error "plugin_chain" ("callout resume on " ++ p.label ++ " without a matching recorded pause; failing closed")

/-- Behind the entry that paused. A pause that is not of this phase is an error of the driver. -/
def resume (payload : p.Payload) : PluginChain φ γ × ChainOutcome × p.Payload :=
  let start := c.pausedEntry
  let c := { c with pausedEntry := none }
  match start with
  | some (q,idx) => if q = p then c.phaseFrom p payload (idx + 1) else (c,calloutResumeMismatch p,payload)
  | none => (c,calloutResumeMismatch p,payload)

section Adapter

/-- The callouts of the guest that paused, which has none any more. -/
def pendingCallouts : Option (String × List CalloutRequest × PluginChain φ γ) :=
  match c.paused with
  | none => none
  | some (name,_) =>
    match c.instances name with
    | none => some (name,[],c)
    | some inst => some (name,inst.pendingCallouts.map fun r => ⟨r,name⟩,c.setInstance name { inst with pendingCallouts := [] })

def requeueCallouts (requests : List CalloutRequest) : PluginChain φ γ :=
  match c.paused with
  | none => c
  | some (name,_) =>
    match c.instances name with
    | none => c
    | some inst => c.setInstance name (inst.requeueCallouts (requests.map (·.toPendingCallout)))

/-- The pause ends with an outcome that ends the phase. -/
def deliverCallout (token : ℕ) (resp : CalloutResponse) : PluginChain φ γ × ChainOutcome :=
  match c.paused with
  | none => (c,.goOn)
  | some (name,_) =>
    match c.instances name with
    | none => (c,.goOn)
    | some inst =>
      match inst.deliverCalloutResponse token resp with
      | (inst,.goOn) => (c.setInstance name inst,.goOn)
      | (inst,.localResponse r) => ({ c.setInstance name inst with paused := none },.localResponse r)
      | (inst,.trap message) => ({ c.setInstance name inst with paused := none },.error name message)
      | (inst,.pause) => (c.setInstance name inst,.calloutPending)

/-- The payload of the guest that paused, as its callbacks left it. -/
def pausedPayload : p.Payload :=
  match c.paused with
  | none => p.noPayload
  | some (name,_) => ((c.instances name).map fun inst => inst.payloads p).getD p.noPayload

def clearPause : PluginChain φ γ := { c with paused := none }

end Adapter
end PluginChain

section Driver
variable {φ γ : Type*}

def maxCalloutRounds : ℕ := 8

/-- Why a phase answers the request itself. -/
inductive Exit where
  | decided (r : LocalResponse)
  | pluginError (plugin message : String)
  | calloutLoop (plugin : String)
  | calloutFailed (plugin outcome : String)
  deriving DecidableEq, Repr

/-- A phase under way: its rounds of callouts, and those that were performed. -/
structure Drive (φ γ : Type*) where
  chain : PluginChain φ γ
  rounds : ℕ
  performed : List CalloutRequest

/-- An exit keeps no chain, only what was performed before it. -/
abbrev Outcome (α : Type*) := Except (List CalloutRequest × Exit) α

/-- How the exchanges go: the exchange of a round completes with a response or fails. -/
abbrev Exchanges := ℕ → CalloutRequest → Except String CalloutResponse

variable (perform : Exchanges)

/-- Callouts one after the other, until one of the callbacks dispatches more. -/
def performQueue (name : String) : List CalloutRequest → Drive φ γ → Outcome (Drive φ γ)
  | [], d => .ok d
  | request :: queue, d =>
    let rounds := d.rounds + 1
    if rounds > maxCalloutRounds then .error (d.performed,.calloutLoop ((d.chain.paused.map (·.1)).getD "unknown"))
    else
      let performed := d.performed ++ [request]
      match perform rounds request with
      | .error outcome => .error (performed,.calloutFailed name outcome)
      | .ok resp =>
        match d.chain.deliverCallout request.token resp with
        | (chain,.goOn) => performQueue name queue ⟨chain,rounds,performed⟩
        | (chain,.calloutPending) => .ok ⟨if queue = [] then chain else chain.requeueCallouts queue,rounds,performed⟩
        | (_,.localResponse r) => .error (performed,.decided r)
        | (_,.error plugin message) => .error (performed,.pluginError plugin message)

/-- Until the guest that paused has nothing pending. -/
def resolveCallouts : ℕ → Drive φ γ → Option (Outcome (Drive φ γ))
  | 0, _ => none
  | fuel + 1, d =>
    match d.chain.pendingCallouts with
    | none => some (.ok d)
    | some (name,requests,chain) =>
      if requests = [] then some (.ok { d with chain := chain })
      else
        match performQueue perform name requests { d with chain := chain } with
        | .error e => some (.error e)
        | .ok d => resolveCallouts fuel d

/-- What the driver does with what the chain answers. -/
def drive (p : PluginPhase) : ℕ → Drive φ γ → ChainOutcome → p.Payload → Option (Outcome (Drive φ γ × p.Payload))
  | _, d, .goOn, payload => some (.ok (d,payload))
  | _, d, .localResponse r, _ => some (.error (d.performed,.decided r))
  | _, d, .error plugin message, _ => some (.error (d.performed,.pluginError plugin message))
  | 0, _, .calloutPending, _ => none
  | fuel + 1, d, .calloutPending, _ =>
    match resolveCallouts perform (maxCalloutRounds + 2) d with
    | none => none
    | some (.error e) => some (.error e)
    | some (.ok d) =>
      let (chain,outcome,payload) := d.chain.clearPause.resume p (d.chain.pausedPayload p)
      drive p fuel { d with chain := chain } outcome payload

/-- A phase of a request. -/
def runPhase (c : PluginChain φ γ) (p : PluginPhase) (payload : p.Payload) : Option (Outcome (Drive φ γ × p.Payload)) :=
  let (chain,outcome,payload) := c.phaseFrom p payload 0
  drive perform p (c.phases p).length ⟨chain,0,[]⟩ outcome payload

end Driver

section Straight
variable {φ γ : Type*} (perform : Exchanges)

/-- The callouts of one guest as a queue: those that a callback dispatches go to its end. So many
rounds are left. -/
def serve (name : String) : ℕ → List PendingCallout → Instance γ → List CalloutRequest → Outcome (Instance γ × List CalloutRequest)
  | _, [], inst, performed => .ok (inst,performed)
  | 0, _ :: _, _, performed => .error (performed,.calloutLoop name)
  | left + 1, request :: queue, inst, performed =>
    let performed := performed ++ [⟨request,name⟩]
    match perform performed.length ⟨request,name⟩ with
    | .error outcome => .error (performed,.calloutFailed name outcome)
    | .ok resp =>
      match inst.deliverCalloutResponse request.token resp with
      | (_,.localResponse r) => .error (performed,.decided r)
      | (_,.trap message) => .error (performed,.pluginError name message)
      | (inst,_) => serve name left (queue ++ inst.pendingCallouts) { inst with pendingCallouts := [] } performed

/-- A phase without pauses: entry after entry, each with its callouts behind it. -/
def straight (p : PluginPhase) : List (ChainEntry φ p) → Drive φ γ → p.Payload → Outcome (Drive φ γ × p.Payload)
  | [], d, payload => .ok (d,payload)
  | .native name filter :: entries, d, payload =>
    match filter d.chain.natives payload with
    | (natives,.goOn payload) => straight p entries { d with chain := { d.chain with natives := natives } } payload
    | (_,.localResponse r) => .error (d.performed,.decided r)
    | (_,.error message) => .error (d.performed,.pluginError name message)
  | .wasm name :: entries, d, payload =>
    match d.chain.instances name with
    | none => straight p entries d payload
    | some inst =>
      match inst.callPhaseExport p payload with
      | (inst,.goOn) => straight p entries { d with chain := d.chain.setInstance name inst } (inst.payloads p)
      | (_,.localResponse r) => .error (d.performed,.decided r)
      | (_,.trap message) => .error (d.performed,.pluginError name message)
      | (inst,.pause) =>
        match serve perform name (maxCalloutRounds - d.rounds) inst.pendingCallouts { inst with pendingCallouts := [] } d.performed with
        | .error e => .error e
        | .ok (inst,performed) => straight p entries ⟨d.chain.setInstance name inst,performed.length,performed⟩ (inst.payloads p)

end Straight

section Sample

/-- A guest that asks twice before it lets the headers of a request through. -/
def askTwice : Module ℕ where
  phase _ asked payloads := .ok ⟨true,asked + 1,payloads,[⟨"http://auth/",("GET"),[],[],500⟩],none,false⟩
  callback asked payloads _ resp :=
    if asked < 2 then .ok ⟨true,asked + 1,payloads,[⟨"http://auth/",("GET"),[],[],500⟩],none,false⟩
    else .ok ⟨true,asked,Function.update payloads .requestHeaders (payloads .requestHeaders ++ [("x-auth",toString resp.status)]),[],none,false⟩

def noPayloads : Payloads := fun p => p.noPayload

/-- A native filter counts the headers in front of the guest, and another behind it. -/
def counted : ChainEntry ℕ .requestHeaders := .native "count" fun n headers => (n + headers.length,.goOn headers)

def sampleChain : PluginChain ℕ ℕ where
  phases p := match p with
    | .requestHeaders => [counted,.wasm "auth",counted]
    | _ => []
  natives := 0
  instances name := if name = "auth" then some ⟨askTwice,0,0,[],noPayloads,none⟩ else none
  paused := none
  pausedEntry := none

def answered : Exchanges := fun _ _ => .ok ⟨204,[],[]⟩

end Sample

section Refines
variable {φ γ : Type*} {perform : Exchanges} {name : String} {p : PluginPhase}

theorem Instance.deliver_goOn {inst inst' : Instance γ} {token : ℕ} {resp : CalloutResponse} (hnone : inst.pendingCallouts = [])
    (h : inst.deliverCalloutResponse token resp = (inst',.goOn)) : inst'.pendingCallouts = [] := by
  unfold Instance.deliverCalloutResponse at h
  split at h
  · cases h
  · split at h
    · obtain ⟨rfl,-⟩ := Prod.mk.inj h
      exact hnone
    · simp only at h
      split at h
      · cases h
      · split at h
        · cases h
        · rename_i hpending
          obtain ⟨rfl,-⟩ := Prod.mk.inj h
          exact not_not.mp hpending

@[simp] theorem PluginChain.setInstance_setInstance (c : PluginChain φ γ) (inst inst' : Instance γ) :
    (c.setInstance name inst).setInstance name inst' = c.setInstance name inst' := by
  simp [PluginChain.setInstance]

@[simp] theorem PluginChain.instances_setInstance (c : PluginChain φ γ) (inst : Instance γ) :
    (c.setInstance name inst).instances name = some inst := by
  simp [PluginChain.setInstance]

@[simp] theorem PluginChain.paused_setInstance (c : PluginChain φ γ) (inst : Instance γ) :
    (c.setInstance name inst).paused = c.paused := rfl

/-- The drive of a chain whose guest `name` is `inst`, one round for each callout performed. -/
def PluginChain.driven (c : PluginChain φ γ) (name : String) (inst : Instance γ) (performed : List CalloutRequest) : Drive φ γ :=
  ⟨c.setInstance name inst,performed.length,performed⟩

theorem Instance.drained_self {inst : Instance γ} (hnone : inst.pendingCallouts = []) : { inst with pendingCallouts := [] } = inst := by
  cases inst
  cases hnone
  rfl

theorem PluginChain.deliverCallout_setInstance {c : PluginChain φ γ} (hpaused : c.paused = some (name,p)) (inst : Instance γ)
    (token : ℕ) (resp : CalloutResponse) :
    (c.setInstance name inst).deliverCallout token resp =
      match inst.deliverCalloutResponse token resp with
      | (inst,.goOn) => (c.setInstance name inst,.goOn)
      | (inst,.localResponse r) => ({ c.setInstance name inst with paused := none },.localResponse r)
      | (inst,.trap message) => ({ c.setInstance name inst with paused := none },.error name message)
      | (inst,.pause) => (c.setInstance name inst,.calloutPending) := by
  simp only [PluginChain.deliverCallout, PluginChain.paused_setInstance, hpaused, PluginChain.instances_setInstance,
    PluginChain.setInstance_setInstance]

theorem PluginChain.requeueCallouts_setInstance {c : PluginChain φ γ} (hpaused : c.paused = some (name,p)) (inst : Instance γ)
    (queue : List PendingCallout) :
    (c.setInstance name inst).requeueCallouts (queue.map fun r => ⟨r,name⟩) = c.setInstance name (inst.requeueCallouts queue) := by
  have hback : (queue.map fun r => (⟨r,name⟩ : CalloutRequest)).map (·.toPendingCallout) = queue := by
    rw [List.map_map]
    exact List.map_id queue
  simp only [PluginChain.requeueCallouts, hback, PluginChain.paused_setInstance, hpaused, PluginChain.instances_setInstance,
    PluginChain.setInstance_setInstance]

/-- A queue is performed as far as it goes without a callback that dispatches more, which leaves the
same callouts to serve. -/
theorem performQueue_eq_serve (perform : Exchanges) {c : PluginChain φ γ} (hpaused : c.paused = some (name,p))
    (queue : List PendingCallout) {inst : Instance γ} (performed : List CalloutRequest) (hnone : inst.pendingCallouts = []) :
    (∃ e, performQueue perform name (queue.map fun r => ⟨r,name⟩) (c.driven name inst performed) = .error e ∧
      serve perform name (maxCalloutRounds - performed.length) queue inst performed = .error e) ∨
    ∃ inst' performed',
      performQueue perform name (queue.map fun r => ⟨r,name⟩) (c.driven name inst performed) = .ok (c.driven name inst' performed') ∧
      serve perform name (maxCalloutRounds - performed.length) queue inst performed =
        serve perform name (maxCalloutRounds - performed'.length) inst'.pendingCallouts { inst' with pendingCallouts := [] } performed' ∧
      performed.length ≤ performed'.length ∧ performed'.length ≤ max performed.length maxCalloutRounds ∧
      (queue ≠ [] → performed.length < performed'.length ∧ performed'.length ≤ maxCalloutRounds) := by
  induction queue generalizing inst performed with
  | nil =>
    right
    refine ⟨inst,performed,rfl,?_,Nat.le_refl _,Nat.le_max_left _ _,fun h => absurd rfl h⟩
    rw [hnone,Instance.drained_self hnone]
  | cons request queue ih =>
    simp only [List.map_cons, performQueue, PluginChain.driven, PluginChain.paused_setInstance, hpaused, Option.map_some, Option.getD_some,
      PluginChain.deliverCallout_setInstance hpaused]
    by_cases hfull : performed.length + 1 > maxCalloutRounds
    · left
      have hleft : maxCalloutRounds - performed.length = 0 := by omega
      exact ⟨_,if_pos hfull,by rw [hleft,serve]⟩
    rw [if_neg hfull]
    obtain ⟨left,hleft⟩ : ∃ left, maxCalloutRounds - performed.length = left + 1 := ⟨maxCalloutRounds - performed.length - 1,by omega⟩
    have hlen : (performed ++ [(⟨request,name⟩ : CalloutRequest)]).length = performed.length + 1 := by simp
    have hleft' : left = maxCalloutRounds - (performed ++ [(⟨request,name⟩ : CalloutRequest)]).length := by omega
    rw [hleft]
    simp only [serve, hlen]
    cases hresp : perform (performed.length + 1) ⟨request,name⟩ with
    | error outcome => exact .inl ⟨_,rfl,rfl⟩
    | ok resp =>
      simp only
      rcases hd : inst.deliverCalloutResponse request.token resp with ⟨inst',(_ | r | message | _)⟩
      · have hnone' := Instance.deliver_goOn hnone hd
        simp only [hnone', List.append_nil, Instance.drained_self hnone', ← hlen, hleft']
        rcases ih _ hnone' with ⟨e,hq,hs⟩ | ⟨inst₂,performed₂,hq,hs,hle,hmax,-⟩
        · exact .inl ⟨e,hq,hs⟩
        · exact .inr ⟨inst₂,performed₂,hq,hs,by omega,by omega,fun _ => by omega⟩
      · exact .inl ⟨_,rfl,rfl⟩
      · exact .inl ⟨_,rfl,rfl⟩
      · refine .inr ⟨inst'.requeueCallouts queue,performed ++ [⟨request,name⟩],?_,?_,by omega,by omega,fun _ => by omega⟩
        · cases queue with
          | nil => simp [Instance.requeueCallouts]
          | cons => simp [← PluginChain.requeueCallouts_setInstance hpaused]
        · rw [← hleft']
          rfl

/-- The driver resolves the callouts of the guest that paused as one queue. -/
theorem resolveCallouts_eq_serve {c : PluginChain φ γ} (hpaused : c.paused = some (name,p)) (fuel : ℕ) {inst : Instance γ}
    {performed : List CalloutRequest} (hfuel : maxCalloutRounds < fuel + performed.length) (hpos : 0 < fuel) :
    resolveCallouts perform fuel (c.driven name inst performed) =
      some ((serve perform name (maxCalloutRounds - performed.length) inst.pendingCallouts { inst with pendingCallouts := [] } performed).map
        fun q => c.driven name q.1 q.2) := by
  induction fuel generalizing inst performed with
  | zero => omega
  | succ fuel ih =>
    simp only [resolveCallouts, PluginChain.driven, PluginChain.pendingCallouts, PluginChain.paused_setInstance, hpaused,
      PluginChain.instances_setInstance, PluginChain.setInstance_setInstance]
    cases hreq : inst.pendingCallouts with
    | nil => simp only [List.map_nil, if_true, serve, Except.map]
    | cons request queue =>
      simp only [List.map_cons, reduceCtorEq, if_false]
      have hdrained : ({ inst with pendingCallouts := [] } : Instance γ).pendingCallouts = [] := rfl
      have hone := performQueue_eq_serve perform hpaused (request :: queue) performed hdrained
      rw [List.map_cons,PluginChain.driven] at hone
      rcases hone with ⟨e,hq,hs⟩ | ⟨inst',performed',hq,hs,-,-,hlt⟩
      · rw [hq,hs]
        rfl
      · rw [hq,hs]
        obtain ⟨hlt,hmax⟩ := hlt (List.cons_ne_nil request queue)
        exact ih (by omega) (by omega)

/-- A chain at a pause: the guest `name` has stopped the phase at the entry `idx`. -/
def PluginChain.pausedAt (c : PluginChain φ γ) (name : String) (p : PluginPhase) (idx : ℕ) : PluginChain φ γ :=
  { c with paused := some (name,p), pausedEntry := some (p,idx) }

/-- Behind a pause the driver goes on where the chain stopped, with the payload of the guest. -/
theorem resume_driven {c : PluginChain φ γ} {idx : ℕ} (hpaused : c.paused = none) (hentry : c.pausedEntry = none) (inst : Instance γ) :
    ((c.pausedAt name p idx).setInstance name inst).clearPause.resume p (((c.pausedAt name p idx).setInstance name inst).pausedPayload p) =
      (c.setInstance name inst).phaseFrom p (inst.payloads p) (idx + 1) := by
  have hpayload : ((c.pausedAt name p idx).setInstance name inst).pausedPayload p = inst.payloads p := by
    simp only [PluginChain.pausedPayload, PluginChain.paused_setInstance, PluginChain.pausedAt, PluginChain.instances_setInstance,
      Option.map_some, Option.getD_some]
  rw [hpayload]
  cases c
  cases hpaused
  cases hentry
  exact if_pos rfl

/-- One pause: the callouts of the guest are served, and the phase goes on behind it. -/
theorem drive_pausedAt {c : PluginChain φ γ} {idx fuel : ℕ} (hpaused : c.paused = none) (hentry : c.pausedEntry = none)
    (inst : Instance γ) (performed : List CalloutRequest) (payload : p.Payload) :
    drive perform p (fuel + 1) ((c.pausedAt name p idx).driven name inst performed) .calloutPending payload =
      match serve perform name (maxCalloutRounds - performed.length) inst.pendingCallouts { inst with pendingCallouts := [] } performed with
      | .error e => some (.error e)
      | .ok (inst,performed) =>
        let (chain,outcome,payload) := (c.setInstance name inst).phaseFrom p (inst.payloads p) (idx + 1)
        drive perform p fuel ⟨chain,performed.length,performed⟩ outcome payload := by
  rw [drive,resolveCallouts_eq_serve rfl _ (by omega) (by omega)]
  rcases serve perform name _ _ _ performed with e | ⟨inst',performed'⟩
  · rfl
  · simp only [Except.map, PluginChain.driven, resume_driven hpaused hentry]

/-- From an entry on, the chain and its driver do what the entries do one after the other. -/
theorem drive_eq_straight (perform : Exchanges) (entries : List (ChainEntry φ p)) {c : PluginChain φ γ} {start fuel : ℕ}
    (performed : List CalloutRequest) (payload : p.Payload) (hpaused : c.paused = none) (hentry : c.pausedEntry = none) (hdrop : (c.phases p).drop start = entries)
    (hfuel : entries.length ≤ fuel) :
    drive perform p fuel ⟨(c.entriesFrom p start entries payload).1,performed.length,performed⟩
        (c.entriesFrom p start entries payload).2.1 (c.entriesFrom p start entries payload).2.2 =
      some (straight perform p entries ⟨c,performed.length,performed⟩ payload) := by
  induction entries generalizing c start fuel performed payload with
  | nil =>
    cases fuel <;> rfl
  | cons entry entries ih =>
    have hnext : (c.phases p).drop (start + 1) = entries := by
      rw [← List.tail_drop, hdrop]
      rfl
    rw [List.length_cons] at hfuel
    cases entry with
    | native plugin filter =>
      simp only [PluginChain.entriesFrom, straight]
      rcases filter c.natives payload with ⟨natives,(payload' | r | message)⟩
      · exact ih _ _ hpaused hentry hnext (by omega)
      · cases fuel <;> rfl
      · cases fuel <;> rfl
    | wasm plugin =>
      simp only [PluginChain.entriesFrom, PluginChain.onPhase, straight]
      cases hinst : c.instances plugin with
      | none => exact ih _ _ hpaused hentry hnext (by omega)
      | some inst =>
        simp only
        rcases inst.callPhaseExport p payload with ⟨inst',(_ | r | message | _)⟩
        · exact ih _ _ hpaused hentry hnext (by omega)
        · cases fuel <;> rfl
        · cases fuel <;> rfl
        · obtain ⟨fuel,rfl⟩ : ∃ k, fuel = k + 1 := ⟨fuel - 1,by omega⟩
          refine (drive_pausedAt hpaused hentry inst' performed (inst'.payloads p)).trans ?_
          simp only
          rcases serve perform plugin _ _ _ performed with e | ⟨inst₂,performed₂⟩
          · rfl
          · have hdrop₂ : ((c.setInstance plugin inst₂).phases p).drop (start + 1) = entries := hnext
            simp only [PluginChain.phaseFrom, hdrop₂]
            exact ih _ _ hpaused hentry hnext (by omega)

/-- A phase whose guests pause for callouts does what its entries do one after the other: no pause
runs an entry twice or passes one over, and the driver never runs forever. -/
theorem runPhase_eq_straight (perform : Exchanges) {c : PluginChain φ γ} (hpaused : c.paused = none) (hentry : c.pausedEntry = none)
    (p : PluginPhase) (payload : p.Payload) : runPhase perform c p payload = some (straight perform p (c.phases p) ⟨c,0,[]⟩ payload) :=
  drive_eq_straight perform (c.phases p) [] payload hpaused hentry List.drop_zero (Nat.le_refl _)

theorem runPhase_eq_straight_asked :
    runPhase answered sampleChain .requestHeaders [(":method","GET")] =
      some (straight answered .requestHeaders (sampleChain.phases .requestHeaders) ⟨sampleChain,0,[]⟩ [(":method","GET")]) :=
  runPhase_eq_straight answered rfl rfl .requestHeaders [(":method","GET")]

end Refines

section Ledger
variable {φ γ : Type*} {perform : Exchanges} {name : String} {p : PluginPhase}

/-- The callouts of a guest between two of its states: what was performed, then what is pending,
is what was pending, then all that the guest dispatched. -/
structure Ledger (before after : Instance γ) (tokens : List ℕ) : Prop where
  counter_le : before.calloutTokenCounter ≤ after.calloutTokenCounter
  balance : after.calloutTokenCounter < 2^32 - 1 →
    tokens ++ after.pendingCallouts.map (·.token) = before.pendingCallouts.map (·.token) ++
      List.range' (before.calloutTokenCounter + 1) (after.calloutTokenCounter - before.calloutTokenCounter)

namespace Ledger
variable {a b c : Instance γ} {ts us : List ℕ}

/-- No callout is dispatched or performed between states that agree on the callouts. -/
theorem same (hcounter : b.calloutTokenCounter = a.calloutTokenCounter) (hpending : b.pendingCallouts = a.pendingCallouts) :
    Ledger a b [] where
  counter_le := Nat.le_of_eq hcounter.symm
  balance _ := by rw [hcounter,hpending,Nat.sub_self,List.range'_zero,List.append_nil,List.nil_append]

theorem trans (hab : Ledger a b ts) (hbc : Ledger b c us) : Ledger a c (ts ++ us) where
  counter_le := Nat.le_trans hab.counter_le hbc.counter_le
  balance hmax := by
    have hle := hab.counter_le
    have hle' := hbc.counter_le
    have hstart : b.calloutTokenCounter + 1 = a.calloutTokenCounter + 1 + (b.calloutTokenCounter - a.calloutTokenCounter) := by omega
    have hlen : c.calloutTokenCounter - a.calloutTokenCounter =
        (b.calloutTokenCounter - a.calloutTokenCounter) + (c.calloutTokenCounter - b.calloutTokenCounter) := by omega
    rw [List.append_assoc,hbc.balance hmax,← List.append_assoc,hab.balance (by omega),List.append_assoc,hstart,List.range'_append_1,hlen]

theorem registerCallout (inst : Instance γ) (r : Callout) : Ledger inst (inst.registerCallout r) [] where
  counter_le := by
    simp only [Instance.registerCallout]
    split <;> omega
  balance hmax := by
    have hroom : inst.calloutTokenCounter < 2^32 - 1 := by
      simp only [Instance.registerCallout] at hmax
      split at hmax <;> omega
    simp only [Instance.registerCallout, if_pos hroom]
    simp

theorem foldl_registerCallout (dispatched : List Callout) (inst : Instance γ) :
    Ledger inst (dispatched.foldl Instance.registerCallout inst) [] := by
  induction dispatched generalizing inst with
  | nil => exact same rfl rfl
  | cons r dispatched ih => exact (registerCallout inst r).trans (ih (inst.registerCallout r))

theorem settle (inst : Instance γ) (ran : Ran γ) : Ledger inst (inst.settle ran) [] := by
  have hstart : Ledger inst { inst with guest := ran.guest, payloads := ran.payloads, localResponse := ran.localResponse.or inst.localResponse } [] :=
    same rfl rfl
  exact hstart.trans (foldl_registerCallout ran.dispatched _)

theorem callPhaseExport {inst inst' : Instance γ} {payload : p.Payload} {result : PhaseResult}
    (h : inst.callPhaseExport p payload = (inst',result)) : Ledger inst inst' [] := by
  unfold Instance.callPhaseExport at h
  split at h
  · obtain ⟨rfl,-⟩ := Prod.mk.inj h
    exact same rfl rfl
  · rename_i ran _
    have hsettle := settle inst ran
    simp only at h
    split at h
    · obtain ⟨rfl,-⟩ := Prod.mk.inj h
      exact hsettle
    · split at h
      · obtain ⟨rfl,-⟩ := Prod.mk.inj h
        exact hsettle.trans (same rfl rfl)
      · split at h
        · obtain ⟨rfl,-⟩ := Prod.mk.inj h
          exact hsettle
        · split at h <;> obtain ⟨rfl,-⟩ := Prod.mk.inj h <;> exact hsettle

theorem deliverCalloutResponse {inst inst' : Instance γ} {token : ℕ} {resp : CalloutResponse} {result : PhaseResult}
    (h : inst.deliverCalloutResponse token resp = (inst',result)) : Ledger inst inst' [] := by
  unfold Instance.deliverCalloutResponse at h
  split at h
  · obtain ⟨rfl,-⟩ := Prod.mk.inj h
    exact same rfl rfl
  · rename_i ran _
    have hsettle := settle inst ran
    split at h
    · obtain ⟨rfl,-⟩ := Prod.mk.inj h
      exact same rfl rfl
    · simp only at h
      split at h
      · obtain ⟨rfl,-⟩ := Prod.mk.inj h
        exact hsettle.trans (same rfl rfl)
      · split at h <;> obtain ⟨rfl,-⟩ := Prod.mk.inj h <;> exact hsettle

/-- Callouts that wait in front of the pending ones keep their place. -/
theorem behind (queue : List PendingCallout) (hnone : a.pendingCallouts = []) (h : Ledger a b []) :
    Ledger { a with pendingCallouts := queue } { b with pendingCallouts := queue ++ b.pendingCallouts } [] where
  counter_le := h.counter_le
  balance hmax := by
    have hb := h.balance hmax
    rw [hnone,List.map_nil,List.nil_append,List.nil_append] at hb
    simp only [List.map_append, List.nil_append, hb]

theorem take (inst : Instance γ) (request : PendingCallout) (queue : List PendingCallout) :
    Ledger { inst with pendingCallouts := request :: queue } { inst with pendingCallouts := queue } [request.token] where
  counter_le := Nat.le_refl _
  balance _ := by simp

end Ledger

/-- What is served of a queue is a ledger of the guest, and all of it is performed. -/
theorem serve_ledger {left : ℕ} {queue : List PendingCallout} {inst inst' : Instance γ} {performed performed' : List CalloutRequest}
    (hnone : inst.pendingCallouts = []) (h : serve perform name left queue inst performed = .ok (inst',performed')) :
    ∃ new : List PendingCallout, performed' = performed ++ new.map (fun r => ⟨r,name⟩) ∧ new.length ≤ left ∧
      Ledger { inst with pendingCallouts := queue } inst' (new.map (·.token)) := by
  induction left generalizing queue inst performed with
  | zero =>
    cases queue with
    | nil =>
      obtain ⟨rfl,rfl⟩ : inst = inst' ∧ performed = performed' := by simpa [serve] using h
      exact ⟨[],by simp,by simp,.same rfl hnone⟩
    | cons => simp [serve] at h
  | succ left ih =>
    cases queue with
    | nil =>
      obtain ⟨rfl,rfl⟩ : inst = inst' ∧ performed = performed' := by simpa [serve] using h
      exact ⟨[],by simp,by simp,.same rfl hnone⟩
    | cons request queue =>
      simp only [serve] at h
      split at h
      · cases h
      · split at h
        · cases h
        · cases h
        · rename_i inst₁ _ _ _ hd
          obtain ⟨new,rfl,hnew,hledger⟩ := ih rfl h
          refine ⟨request :: new,by simp,by simpa using hnew,?_⟩
          have hcall := (Ledger.deliverCalloutResponse hd).behind queue hnone
          exact ((Ledger.take inst request queue).trans hcall).trans hledger

/-- The ledgers of all guests, over the callouts performed since. -/
def Ledgers (before after : String → Option (Instance γ)) (performed : List CalloutRequest) : Prop :=
  ∀ name, Option.Rel (fun inst inst' => Ledger inst inst' ((performed.filter (·.plugin = name)).map (·.token))) (before name) (after name)

namespace Ledgers
variable {a b c : String → Option (Instance γ)} {performed performed' : List CalloutRequest}

theorem refl (a : String → Option (Instance γ)) : Ledgers a a [] := by
  intro name
  cases a name with
  | none => exact .none
  | some inst => exact .some (.same rfl rfl)

theorem trans (hab : Ledgers a b performed) (hbc : Ledgers b c performed') : Ledgers a c (performed ++ performed') := by
  intro name
  have hab := hab name
  have hbc := hbc name
  rw [List.filter_append,List.map_append]
  generalize a name = x, b name = y, c name = z at *
  cases hab with
  | none =>
    cases hbc
    exact .none
  | some hxy =>
    cases hbc with
    | some hyz => exact .some (hxy.trans hyz)

/-- The callouts of one guest leave the ledgers of the others as they were. -/
theorem update {inst inst' : Instance γ} (new : List PendingCallout) (hinst : a name = some inst) (h : Ledger inst inst' (new.map (·.token))) :
    Ledgers a (Function.update a name (some inst')) (new.map fun r => ⟨r,name⟩) := by
  intro other
  by_cases hother : other = name
  · subst hother
    have hall : (new.map fun r => (⟨r,other⟩ : CalloutRequest)).filter (·.plugin = other) = new.map fun r => ⟨r,other⟩ := by
      simp [List.filter_eq_self]
    rw [Function.update_self,hinst,hall,List.map_map]
    exact .some h
  · have hnone : (new.map fun r => (⟨r,name⟩ : CalloutRequest)).filter (·.plugin = other) = [] := by
      simp [List.filter_eq_nil_iff, Ne.symm hother]
    rw [Function.update_of_ne hother,hnone]
    exact refl a other

end Ledgers

theorem straight_ledgers {entries : List (ChainEntry φ p)} {d d' : Drive φ γ} {payload out : p.Payload} (hrounds : d.rounds = d.performed.length)
    (h : straight perform p entries d payload = .ok (d',out)) :
    ∃ new, d'.performed = d.performed ++ new ∧ d'.performed.length ≤ max d.performed.length maxCalloutRounds ∧
      Ledgers d.chain.instances d'.chain.instances new := by
  induction entries generalizing d payload with
  | nil =>
    obtain ⟨rfl,rfl⟩ : d = d' ∧ payload = out := by simpa [straight] using h
    exact ⟨[],by simp,Nat.le_max_left _ _,.refl _⟩
  | cons entry entries ih =>
    cases entry with
    | native plugin filter =>
      simp only [straight] at h
      split at h
      · rename_i natives _ _
        exact ih (d := ⟨{ d.chain with natives := natives },d.rounds,d.performed⟩) hrounds h
      · cases h
      · cases h
    | wasm plugin =>
      simp only [straight] at h
      cases hinst : d.chain.instances plugin with
      | none =>
        rw [hinst] at h
        exact ih hrounds h
      | some inst =>
        rw [hinst] at h
        simp only at h
        rcases hcall : inst.callPhaseExport p payload with ⟨inst',(_ | r | message | _)⟩ <;> rw [hcall] at h <;> simp only [reduceCtorEq] at h
        · obtain ⟨new,hnew,hlen,hledgers⟩ := ih (d := ⟨d.chain.setInstance plugin inst',d.rounds,d.performed⟩) hrounds h
          exact ⟨new,hnew,hlen,(Ledgers.update [] hinst (Ledger.callPhaseExport hcall)).trans hledgers⟩
        · split at h
          · cases h
          · rename_i inst₂ performed₂ hserve
            obtain ⟨served,rfl,hleft,hserved⟩ := serve_ledger rfl hserve
            obtain ⟨new,hnew,hlen,hledgers⟩ := ih rfl h
            have hguest := (Ledger.callPhaseExport hcall).trans hserved
            rw [List.length_append,List.length_map] at hlen
            refine ⟨served.map (fun r => ⟨r,plugin⟩) ++ new,by rw [hnew,List.append_assoc],by omega,?_⟩
            exact (Ledgers.update served hinst hguest).trans hledgers

/-- In a phase that goes through, every callout that a guest dispatched is performed or still
pending, none twice, in the order of dispatch. -/
theorem runPhase_ledgers {c : PluginChain φ γ} {d : Drive φ γ} {payload out : p.Payload} (hpaused : c.paused = none)
    (hentry : c.pausedEntry = none) (h : runPhase perform c p payload = some (.ok (d,out))) :
    d.performed.length ≤ maxCalloutRounds ∧ Ledgers c.instances d.chain.instances d.performed := by
  have hrun := drive_eq_straight perform (c.phases p) [] payload hpaused hentry List.drop_zero (Nat.le_refl _)
  have hstraight : straight perform p (c.phases p) ⟨c,0,[]⟩ payload = .ok (d,out) := Option.some.inj (hrun.symm.trans h)
  obtain ⟨new,hnew,hlen,hledgers⟩ := straight_ledgers rfl hstraight
  rw [List.nil_append] at hnew
  rw [hnew] at hlen ⊢
  exact ⟨by simpa using hlen,hledgers⟩

theorem runPhase_ledgers_asked : ∃ d, runPhase answered sampleChain .requestHeaders [(":method","GET")] =
      some (.ok (d,[(":method","GET"),("x-auth","204")])) ∧ d.performed.map (·.token) = [1,2] ∧ d.chain.natives = 3 ∧
    d.performed.length ≤ maxCalloutRounds ∧ Ledgers sampleChain.instances d.chain.instances d.performed :=
  have h : ∃ d, runPhase answered sampleChain .requestHeaders [(":method","GET")] = some (.ok (d,[(":method","GET"),("x-auth","204")])) ∧
    d.performed.map (·.token) = [1,2] ∧ d.chain.natives = 3 := ⟨_,rfl,rfl,rfl⟩
  match h with
  | ⟨d,hrun,htokens,hcount⟩ => ⟨d,hrun,htokens,hcount,runPhase_ledgers rfl rfl hrun⟩

end Ledger

end Dwara.Plugins
