import Dwara.Lib.System
import Mathlib.Algebra.Group.Nat.Defs
import Mathlib.Data.Nat.Basic
import Mathlib.Data.List.Basic
import Mathlib.Data.List.Sort

/-! The event bus and its write-ahead log over restarts: critical events are logged before they are
queued, replayed when a process starts, and acknowledged when the deliverer has handed them on. -/

namespace Dwara.Events.Durability
open Lib

inductive EventKind where
  | breakerOpened
  | breakerHalfOpen
  | breakerClosed
  | endpointEjected
  | endpointRecovered
  | configPublished
  | configRejected
  | quotaNearLimit
  | canaryPromoted
  | canaryRolledBack
  | probeFailed
  | probeRecovered
  deriving DecidableEq, Repr

namespace EventKind

def all : List EventKind :=
  [breakerOpened,breakerHalfOpen,breakerClosed,endpointEjected,endpointRecovered,configPublished,configRejected,quotaNearLimit,
    canaryPromoted,canaryRolledBack,probeFailed,probeRecovered]

/-- All but those of the probes. -/
def isCritical : EventKind → Bool
  | breakerOpened | breakerHalfOpen | breakerClosed | endpointEjected | endpointRecovered | configPublished | configRejected
  | quotaNearLimit | canaryPromoted | canaryRolledBack => true
  | _ => false

def asStr : EventKind → String
  | breakerOpened => "breaker_opened"
  | breakerHalfOpen => "breaker_half_open"
  | breakerClosed => "breaker_closed"
  | endpointEjected => "endpoint_ejected"
  | endpointRecovered => "endpoint_recovered"
  | configPublished => "config_published"
  | configRejected => "config_rejected"
  | quotaNearLimit => "quota_near_limit"
  | canaryPromoted => "canary_promoted"
  | canaryRolledBack => "canary_rolled_back"
  | probeFailed => "probe_failed"
  | probeRecovered => "probe_recovered"

def fromConfig (value : String) : Option EventKind := all.find? (·.asStr = value)

theorem fromConfig_asStr (k : EventKind) : fromConfig k.asStr = some k := by
  cases k <;> decide

end EventKind

structure Event (π : Type*) where
  id : String
  kind : EventKind
  timestampMs : ℕ
  gateway : String
  payload : π

/-- A payload as JSON. Reading one back need not give the payload that was written. -/
structure PayloadJson (π : Type*) where
  toString : π → Option String
  fromStr : String → Option π
  default : π

section Wal

/-- A row of the table `event_wal`, whose key is `id`. -/
structure EventWalRow where
  id : String
  kind : String
  gateway : String
  timestampMs : ℕ
  payload : String
  acked : Bool
  deriving DecidableEq, Repr

/-- A row with the same key is replaced. -/
def appendEventWal (wal : List EventWalRow) (id kind gateway : String) (timestampMs : ℕ) (payloadJson : String) : List EventWalRow :=
  wal.filter (·.id ≠ id) ++ [⟨id,kind,gateway,timestampMs,payloadJson,false⟩]

def ackEventWal (wal : List EventWalRow) (id : String) : List EventWalRow :=
  wal.map fun r => if r.id = id ∧ r.acked = false then { r with acked := true } else r

/-- The oldest first. -/
def unackedEventsWal (wal : List EventWalRow) : List EventWalRow :=
  (wal.filter (! ·.acked)).mergeSort fun a b => a.timestampMs ≤ b.timestampMs

def purgeAckedEventsWal (wal : List EventWalRow) (olderThanMs : ℕ) : List EventWalRow :=
  wal.filter fun r => ! (r.acked && r.timestampMs < olderThanMs)

variable {π : Type*} (json : PayloadJson π)

def append (wal : List EventWalRow) (event : Event π) : List EventWalRow :=
  appendEventWal wal event.id event.kind.asStr event.gateway event.timestampMs ((json.toString event.payload).getD "\x7b\x7d")

/-- A row of a kind that is not known is passed over. -/
def replayed (row : EventWalRow) : Option (Event π) :=
  (EventKind.fromConfig row.kind).map fun kind => ⟨row.id,kind,row.timestampMs,row.gateway,(json.fromStr row.payload).getD json.default⟩

def unacked (wal : List EventWalRow) : List (Event π) := (unackedEventsWal wal).filterMap (replayed json)

end Wal

section Bus
variable {π : Type*}

/-- Who reads the queue: nobody yet, the deliverer with or without the log, nobody any more. -/
inductive Receiver where
  | held
  | taken (durability : Bool)
  | gone
  deriving DecidableEq, Repr

/-- The bus of one process, with the events that are logged and not yet queued, and what the
deliverer has in hand and whether it has handed it on. -/
structure EventBus (π : Type*) where
  capacity : ℕ
  sending : List (Event π)
  queue : List (Event π)
  receiver : Receiver
  durability : Bool
  instanceId : String
  nextId : ℕ
  emittedTotal : ℕ
  droppedTotal : ℕ
  hand : Option (Event π × Bool)
  inFlight : ℕ

namespace EventBus

def withCapacity (capacity : ℕ) (instanceId : String) : EventBus π where
  capacity := max capacity 1
  sending := []
  queue := []
  receiver := .held
  durability := false
  instanceId := instanceId
  nextId := 0
  emittedTotal := 0
  droppedTotal := 0
  hand := none
  inFlight := 0

/-- None if the queue is full or closed. -/
def trySend (b : EventBus π) (event : Event π) : Option (EventBus π) :=
  if b.receiver = .gone ∨ b.capacity ≤ b.queue.length then none else some { b with queue := b.queue ++ [event] }

def replay (b : EventBus π) (events : List (Event π)) : EventBus π := events.foldl (fun b event => (b.trySend event).getD b) b

def hex (n : ℕ) : String := String.ofList (Nat.toDigits 16 n)

/-- Hexadecimal, at least six digits. -/
def hex6 (n : ℕ) : String := String.ofList (List.replicate (6 - (Nat.toDigits 16 n).length) '0') ++ hex n

/-- The event that is emitted now. The clock is read once for its id and once for its time. -/
def stamped (b : EventBus π) (idMs now : ℕ) (kind : EventKind) (payload : π) : Event π :=
  ⟨"evt-" ++ hex idMs ++ "-" ++ hex6 (b.nextId % 2^24),kind,now,b.instanceId,payload⟩

end EventBus

def maxEnvelopeBytes : ℕ := 16 * 1024
def maxConcurrentDeliveries : ℕ := 32

structure WebhookTarget where
  url : String
  events : List EventKind

def WebhookTarget.wants (t : WebhookTarget) (kind : EventKind) : Bool := kind ∈ t.events

/-- The log outlives the processes. What was appended, handed on and started is kept for the record. -/
structure World (π : Type*) where
  wal : List EventWalRow
  bus : EventBus π
  appended : List String
  handled : List String
  started : List (String × String)

inductive Action (π : Type*) where
  /-- A process starts, with the one before it gone. -/
  | boot (capacity : ℕ) (instanceId : String)
  /-- The log is attached; reading it may fail. -/
  | attach (loads : Bool)
  | spawn
  /-- Writing the log may fail. -/
  | emit (idMs now : ℕ) (kind : EventKind) (payload : π) (appends : Bool)
  /-- One of the events logged goes on. -/
  | send (i : ℕ)
  | recv
  | dispatch (targets : List WebhookTarget)
  | ack (acks : Bool)
  /-- A delivery ends. -/
  | finish
  | shutdown
  | purge (olderThanMs : ℕ)

variable (json : PayloadJson π) (envelopeLen : Event π → ℕ)

/-- One more delivery, if there is a permit for it. -/
def startDelivery (event : Event π) (acc : ℕ × List (String × String)) (t : WebhookTarget) : ℕ × List (String × String) :=
  if acc.1 < maxConcurrentDeliveries then (acc.1 + 1,acc.2 ++ [(event.id,t.url)]) else acc

/-- The deliveries of an event to the targets that want it. -/
def startDeliveries (event : Event π) (targets : List WebhookTarget) (inFlight : ℕ) : ℕ × List (String × String) :=
  (targets.filter (·.wants event.kind)).foldl (startDelivery event) (inFlight,[])

def step (w : World π) : Action π → Option (World π)
  | .boot capacity instanceId => some { w with bus := .withCapacity capacity instanceId }
  | .attach loads =>
    if w.bus.durability then some w
    else some { w with bus := { w.bus.replay (if loads then unacked json w.wal else []) with durability := true } }
  | .spawn => if w.bus.receiver = .held then some { w with bus := { w.bus with receiver := .taken w.bus.durability } } else none
  | .emit idMs now kind payload appends =>
    let event := w.bus.stamped idMs now kind payload
    let logged := kind.isCritical && w.bus.durability && appends
    some { w with
      bus := { w.bus with nextId := w.bus.nextId + 1, sending := w.bus.sending ++ [event] }
      wal := if logged then append json w.wal event else w.wal
      appended := if logged then w.appended ++ [event.id] else w.appended }
  | .send i =>
    match w.bus.sending[i]? with
    | none => none
    | some event =>
      let bus := { w.bus with sending := w.bus.sending.eraseIdx i }
      match bus.trySend event with
      | some bus => some { w with bus := { bus with emittedTotal := bus.emittedTotal + 1 } }
      | none => some { w with bus := { bus with droppedTotal := bus.droppedTotal + 1 } }
  | .recv =>
    match w.bus.receiver, w.bus.hand, w.bus.queue with
    | .taken _, none, event :: queue => some { w with bus := { w.bus with queue := queue, hand := some (event,false) } }
    | _, _, _ => none
  | .dispatch targets =>
    match w.bus.hand with
    | some (event,false) =>
      if maxEnvelopeBytes < envelopeLen event then
        some { w with bus := { w.bus with hand := some (event,true) }, handled := w.handled ++ [event.id] }
      else
        let (inFlight,started) := startDeliveries event targets w.bus.inFlight
        some { w with
          bus := { w.bus with hand := some (event,true), inFlight := inFlight }
          handled := w.handled ++ [event.id]
          started := w.started ++ started }
    | _ => none
  | .ack acks =>
    match w.bus.hand, w.bus.receiver with
    | some (event,true), .taken durability =>
      some { w with
        bus := { w.bus with hand := none }
        wal := if durability && acks then ackEventWal w.wal event.id else w.wal }
    | _, _ => none
  | .finish => if 0 < w.bus.inFlight then some { w with bus := { w.bus with inFlight := w.bus.inFlight - 1 } } else none
  | .shutdown =>
    match w.bus.receiver, w.bus.hand with
    | .taken _, none => some { w with bus := { w.bus with receiver := .gone, queue := [] } }
    | _, _ => none
  | .purge olderThanMs => some { w with wal := purgeAckedEventsWal w.wal olderThanMs }

/-- An empty log, and no process yet that uses it. -/
def world : System (World π) (Action π) where
  init := ⟨[],.withCapacity 0 "",[],[],[]⟩
  step := step json envelopeLen

end Bus

section Log
variable {π : Type*} {json : PayloadJson π} {wal : List EventWalRow} {id : String}

/-- Some row under the key waits for its event to be handed on. -/
def Waits (wal : List EventWalRow) (id : String) : Prop := ∃ r ∈ wal, r.id = id ∧ r.acked = false

/-- A logged event waits, and no other event that did stops. -/
theorem waits_append (event : Event π) : Waits (append json wal event) event.id :=
  ⟨_,List.mem_append_right _ List.mem_cons_self,rfl,rfl⟩

theorem Waits.append (h : Waits wal id) (event : Event π) : Waits (append json wal event) id := by
  obtain ⟨r,hr,rfl,hacked⟩ := h
  by_cases hid : r.id = event.id
  · rw [hid]
    exact waits_append event
  · exact ⟨r,List.mem_append_left _ (List.mem_filter.mpr ⟨hr,by simpa using hid⟩),rfl,hacked⟩

theorem Waits.ack (h : Waits wal id) {other : String} (hother : other ≠ id) : Waits (ackEventWal wal other) id := by
  obtain ⟨r,hr,rfl,hacked⟩ := h
  refine ⟨r,List.mem_map.mpr ⟨r,hr,if_neg fun hid => hother hid.1.symm⟩,rfl,hacked⟩

/-- Only what is acknowledged is purged. -/
theorem Waits.purge (h : Waits wal id) (olderThanMs : ℕ) : Waits (purgeAckedEventsWal wal olderThanMs) id := by
  obtain ⟨r,hr,hid,hacked⟩ := h
  exact ⟨r,List.mem_filter.mpr ⟨hr,by simp [hacked]⟩,hid,hacked⟩

theorem mem_append {event : Event π} {r : EventWalRow} (h : r ∈ append json wal event) :
    r ∈ wal ∨ r.kind = event.kind.asStr ∧ r.acked = false := by
  rcases List.mem_append.mp h with hr | hr
  · exact .inl (List.mem_of_mem_filter hr)
  · rw [List.mem_singleton.mp hr]
    exact .inr ⟨rfl,rfl⟩

theorem mem_ack {other : String} {r : EventWalRow} (h : r ∈ ackEventWal wal other) :
    ∃ r' ∈ wal, r.id = r'.id ∧ r.kind = r'.kind ∧ (r.acked = true → r'.acked = true ∨ r.id = other) ∧
      (r.acked = false → r'.acked = false ∧ r.id ≠ other) := by
  obtain ⟨r',hr',rfl⟩ := List.mem_map.mp h
  refine ⟨r',hr',?_⟩
  split
  · rename_i hid
    exact ⟨rfl,rfl,fun _ => .inr hid.1,fun h => absurd h (by simp)⟩
  · rename_i hid
    exact ⟨rfl,rfl,.inl,fun hacked => ⟨hacked,fun heq => hid ⟨heq,hacked⟩⟩⟩

theorem waits_of_ack {other : String} (h : Waits (ackEventWal wal other) id) : Waits wal id ∧ id ≠ other := by
  obtain ⟨r,hr,rfl,hacked⟩ := h
  obtain ⟨r',hr',hid,-,-,hold⟩ := mem_ack hr
  exact ⟨⟨r',hr',hid.symm,(hold hacked).1⟩,(hold hacked).2⟩

/-- Every row that waits is replayed, where all rows are of a known kind. -/
theorem mem_unacked (hkinds : ∀ r ∈ wal, ∃ k : EventKind, r.kind = k.asStr) (h : Waits wal id) :
    id ∈ (unacked json wal).map (·.id) := by
  obtain ⟨r,hr,rfl,hacked⟩ := h
  obtain ⟨k,hk⟩ := hkinds r hr
  have hmem : r ∈ unackedEventsWal wal := List.mem_mergeSort.mpr (List.mem_filter.mpr ⟨hr,by simp [hacked]⟩)
  refine List.mem_map.mpr ⟨⟨r.id,k,r.timestampMs,r.gateway,(json.fromStr r.payload).getD json.default⟩,?_,rfl⟩
  exact List.mem_filterMap.mpr ⟨r,hmem,by rw [replayed,hk,EventKind.fromConfig_asStr]; rfl⟩

end Log

section Runs
variable {π : Type*} {json : PayloadJson π} {envelopeLen : Event π → ℕ}

/-- What was logged is handed on or waits, and only what was handed on is acknowledged. -/
structure Durable (w : World π) : Prop where
  kinds : ∀ r ∈ w.wal, ∃ k : EventKind, r.kind = k.asStr
  handedOn : ∀ event, w.bus.hand = some (event,true) → event.id ∈ w.handled
  acked : ∀ r ∈ w.wal, r.acked = true → r.id ∈ w.handled
  kept : ∀ id ∈ w.appended, id ∈ w.handled ∨ Waits w.wal id
  permits : w.bus.inFlight ≤ maxConcurrentDeliveries

theorem startDelivery_le (event : Event π) (t : WebhookTarget) {acc : ℕ × List (String × String)} (h : acc.1 ≤ maxConcurrentDeliveries) :
    (startDelivery event acc t).1 ≤ maxConcurrentDeliveries := by
  rw [startDelivery]
  split
  · assumption
  · exact h

theorem startDeliveries_le (event : Event π) (targets : List WebhookTarget) {inFlight : ℕ} (h : inFlight ≤ maxConcurrentDeliveries) :
    (startDeliveries event targets inFlight).1 ≤ maxConcurrentDeliveries := by
  have hfold : ∀ (wanting : List WebhookTarget) (acc : ℕ × List (String × String)), acc.1 ≤ maxConcurrentDeliveries →
      (wanting.foldl (startDelivery event) acc).1 ≤ maxConcurrentDeliveries := by
    intro wanting
    induction wanting with
    | nil => exact fun _ h => h
    | cons t wanting ih => exact fun acc h => ih _ (startDelivery_le event t h)
  exact hfold _ _ h

theorem trySend_eq_some {b b' : EventBus π} {event : Event π} (h : b.trySend event = some b') : b' = { b with queue := b.queue ++ [event] } := by
  unfold EventBus.trySend at h
  split at h
  · cases h
  · exact (Option.some.inj h).symm

/-- A replay only fills the queue. -/
theorem replay_frame (b : EventBus π) (events : List (Event π)) : ∃ queue, b.replay events = { b with queue := queue } := by
  induction events generalizing b with
  | nil => exact ⟨b.queue,rfl⟩
  | cons event events ih =>
    rw [EventBus.replay,List.foldl_cons,← EventBus.replay]
    cases hsend : b.trySend event with
    | none => exact ih b
    | some b' =>
      obtain rfl := trySend_eq_some hsend
      obtain ⟨queue,hqueue⟩ := ih { b with queue := b.queue ++ [event] }
      exact ⟨queue,hqueue⟩

/-- What is kept by a step that leaves the log and the hand of the deliverer. -/
theorem Durable.of_same {w w' : World π} (h : Durable w) (hwal : w'.wal = w.wal) (happended : w'.appended = w.appended)
    (hhandled : w'.handled = w.handled) (hhand : w'.bus.hand = w.bus.hand) (hpermits : w'.bus.inFlight ≤ w.bus.inFlight) : Durable w' where
  kinds := hwal ▸ h.kinds
  handedOn := by rw [hhand,hhandled]; exact h.handedOn
  acked := by rw [hwal,hhandled]; exact h.acked
  kept := by rw [hwal,happended,hhandled]; exact h.kept
  permits := Nat.le_trans hpermits h.permits

theorem Durable.emit {w w' : World π} {idMs now : ℕ} {kind : EventKind} {payload : π} {appends : Bool} (h : Durable w)
    (hs : Durability.step json envelopeLen w (.emit idMs now kind payload appends) = some w') : Durable w' := by
  simp only [Durability.step] at hs
  obtain rfl := Option.some.inj hs
  by_cases hlogged : (kind.isCritical && w.bus.durability && appends) = true
  · refine ⟨?_,h.handedOn,?_,?_,h.permits⟩
    · intro r hr
      simp only [hlogged, if_true] at hr
      rcases mem_append hr with hr | ⟨hkind,-⟩
      · exact h.kinds r hr
      · exact ⟨_,hkind⟩
    · intro r hr hacked
      simp only [hlogged, if_true] at hr
      rcases mem_append hr with hr | ⟨-,hfresh⟩
      · exact h.acked r hr hacked
      · rw [hfresh] at hacked
        cases hacked
    · intro id hid
      simp only [hlogged, if_true] at hid ⊢
      rcases List.mem_append.mp hid with hid | hid
      · exact (h.kept id hid).imp_right fun hwaits => hwaits.append _
      · rw [List.mem_singleton.mp hid]
        exact .inr (waits_append _)
  · simp only [if_neg hlogged]
    exact h.of_same rfl rfl rfl rfl (Nat.le_refl _)

theorem Durable.dispatch {w w' : World π} {targets : List WebhookTarget} (h : Durable w)
    (hs : Durability.step json envelopeLen w (.dispatch targets) = some w') : Durable w' := by
  simp only [Durability.step] at hs
  split at hs
  · rename_i event hhand
    have hhanded : ∀ event', some (event,true) = some (event',true) → event'.id ∈ w.handled ++ [event.id] := by
      intro event' heq
      cases heq
      exact List.mem_append_right _ List.mem_cons_self
    split at hs
    · obtain rfl := Option.some.inj hs
      exact ⟨h.kinds,hhanded,fun r hr hacked => List.mem_append_left _ (h.acked r hr hacked),
        fun id hid => (h.kept id hid).imp_left (List.mem_append_left _),h.permits⟩
    · obtain rfl := Option.some.inj hs
      exact ⟨h.kinds,hhanded,fun r hr hacked => List.mem_append_left _ (h.acked r hr hacked),
        fun id hid => (h.kept id hid).imp_left (List.mem_append_left _),startDeliveries_le event targets h.permits⟩
  · cases hs

theorem Durable.ack {w w' : World π} {acks : Bool} (h : Durable w) (hs : Durability.step json envelopeLen w (.ack acks) = some w') :
    Durable w' := by
  simp only [Durability.step] at hs
  split at hs
  · rename_i event durability hhand _
    obtain rfl := Option.some.inj hs
    have hhanded : event.id ∈ w.handled := h.handedOn event hhand
    by_cases hacks : (durability && acks) = true
    · refine ⟨?_,by simp,?_,?_,h.permits⟩
      · intro r hr
        simp only [hacks, if_true] at hr
        obtain ⟨r',hr',-,hkind,-⟩ := mem_ack hr
        rw [hkind]
        exact h.kinds r' hr'
      · intro r hr hacked
        simp only [hacks, if_true] at hr
        obtain ⟨r',hr',hid,-,hold,-⟩ := mem_ack hr
        rcases hold hacked with hold | hold
        · rw [hid]
          exact h.acked r' hr' hold
        · rw [hold]
          exact hhanded
      · intro id hid
        simp only [hacks, if_true]
        by_cases hsame : event.id = id
        · exact .inl (hsame ▸ hhanded)
        · exact (h.kept id hid).imp_right fun hwaits => hwaits.ack hsame
    · simp only [if_neg hacks]
      exact ⟨h.kinds,by simp,h.acked,h.kept,h.permits⟩
  · cases hs

theorem Durable.step {w w' : World π} {a : Action π} (h : Durable w) (hs : Durability.step json envelopeLen w a = some w') : Durable w' := by
  cases a with
  | boot capacity instanceId =>
    obtain rfl := Option.some.inj hs
    exact ⟨h.kinds,by simp [EventBus.withCapacity],h.acked,h.kept,Nat.zero_le _⟩
  | attach loads =>
    simp only [Durability.step] at hs
    split at hs
    · obtain rfl := Option.some.inj hs
      exact h
    · obtain rfl := Option.some.inj hs
      obtain ⟨queue,hqueue⟩ := replay_frame w.bus (if loads then unacked json w.wal else [])
      rw [hqueue]
      exact h.of_same rfl rfl rfl rfl (Nat.le_refl _)
  | spawn =>
    simp only [Durability.step] at hs
    split at hs
    · obtain rfl := Option.some.inj hs
      exact h.of_same rfl rfl rfl rfl (Nat.le_refl _)
    · cases hs
  | emit idMs now kind payload appends => exact h.emit hs
  | send i =>
    simp only [Durability.step] at hs
    split at hs
    · cases hs
    · split at hs
      · rename_i hsend
        obtain rfl := trySend_eq_some hsend
        obtain rfl := Option.some.inj hs
        exact h.of_same rfl rfl rfl rfl (Nat.le_refl _)
      · obtain rfl := Option.some.inj hs
        exact h.of_same rfl rfl rfl rfl (Nat.le_refl _)
  | recv =>
    simp only [Durability.step] at hs
    split at hs
    · obtain rfl := Option.some.inj hs
      exact ⟨h.kinds,by simp,h.acked,h.kept,h.permits⟩
    · cases hs
  | dispatch targets => exact h.dispatch hs
  | ack acks => exact h.ack hs
  | finish =>
    simp only [Durability.step] at hs
    split at hs
    · obtain rfl := Option.some.inj hs
      exact h.of_same rfl rfl rfl rfl (Nat.sub_le _ _)
    · cases hs
  | shutdown =>
    simp only [Durability.step] at hs
    split at hs
    · obtain rfl := Option.some.inj hs
      exact h.of_same rfl rfl rfl rfl (Nat.le_refl _)
    · cases hs
  | purge olderThanMs =>
    obtain rfl := Option.some.inj hs
    refine ⟨fun r hr => h.kinds r (List.mem_of_mem_filter hr),h.handedOn,fun r hr => h.acked r (List.mem_of_mem_filter hr),?_,h.permits⟩
    exact fun id hid => (h.kept id hid).imp_right fun hwaits => hwaits.purge olderThanMs

theorem durable_init : Durable (world json envelopeLen).init where
  kinds := by simp [world]
  handedOn := by simp [world, EventBus.withCapacity]
  acked := by simp [world]
  kept := by simp [world]
  permits := Nat.zero_le _

/-- Payloads that say nothing. -/
def noPayload : PayloadJson Unit := ⟨fun _ => some "null",fun _ => some (),()⟩

/-- Of two events that were logged the process hands on one, and is gone before it acknowledges it. -/
def crash : List (Action Unit) :=
  [.boot 4 "dwara-1-0",.attach false,.spawn,.emit 10 10 .breakerOpened () true,.emit 11 12 .breakerClosed () true,.send 1,.recv,.dispatch []]

theorem crash_run : ∃ w, (world noPayload fun _ => 0).run crash = some w ∧ w.appended = ["evt-a-000000","evt-b-000001"] ∧
    w.handled = ["evt-b-000001"] ∧ w.wal.length = 2 :=
  ⟨_,rfl,rfl,rfl,rfl⟩

theorem durable_run {as : List (Action π)} {w : World π} (hr : (world json envelopeLen).run as = some w) : Durable w :=
  System.run_inv Durable durable_init (fun _ _ _ h hs => h.step hs) hr

theorem durable_run_crash : ∃ w, (world noPayload fun _ => 0).run crash = some w ∧ w.handled = ["evt-b-000001"] ∧ Durable w := by
  obtain ⟨w,hr,-,hhandled,-⟩ := crash_run
  exact ⟨w,hr,hhandled,durable_run hr⟩

/-- One event after the other is received, handed on and acknowledged. -/
def rounds (targets : List WebhookTarget) (n : ℕ) : List (Action π) :=
  (List.replicate n [.recv,.dispatch targets,.ack true]).flatten

section Drain
variable (json envelopeLen)

theorem dispatch_enabled (targets : List WebhookTarget) {w : World π} {event : Event π} (hhand : w.bus.hand = some (event,false)) :
    ∃ w', Durability.step json envelopeLen w (.dispatch targets) = some w' ∧ w'.wal = w.wal ∧ w'.appended = w.appended ∧
      w'.bus.queue = w.bus.queue ∧ w'.bus.receiver = w.bus.receiver ∧ w'.bus.hand = some (event,true) := by
  simp only [Durability.step, hhand]
  split
  · exact ⟨_,rfl,rfl,rfl,rfl,rfl,rfl⟩
  · exact ⟨_,rfl,rfl,rfl,rfl,rfl,rfl⟩

/-- A round of a deliverer with the log acknowledges the event in front. -/
theorem round_enabled (targets : List WebhookTarget) {event : Event π} {queue : List (Event π)} {w : World π}
    (hqueue : w.bus.queue = event :: queue) (hreceiver : w.bus.receiver = .taken true) (hhand : w.bus.hand = none) :
    ∃ w', [Action.recv,.dispatch targets,.ack true].foldlM (Durability.step json envelopeLen) w = some w' ∧
      w'.wal = ackEventWal w.wal event.id ∧ w'.appended = w.appended ∧ w'.bus.queue = queue ∧ w'.bus.receiver = .taken true ∧
      w'.bus.hand = none := by
  have hrecv : Durability.step json envelopeLen w .recv = some { w with bus := { w.bus with queue := queue, hand := some (event,false) } } := by
    simp only [Durability.step, hqueue, hreceiver, hhand]
  obtain ⟨w₂,hdispatch,hwal,happended,hqueue₂,hreceiver₂,hhand₂⟩ := dispatch_enabled json envelopeLen targets
    (w := { w with bus := { w.bus with queue := queue, hand := some (event,false) } }) rfl
  have hack : Durability.step json envelopeLen w₂ (.ack true) =
      some { w₂ with bus := { w₂.bus with hand := none }, wal := ackEventWal w₂.wal event.id } := by
    simp only [Durability.step, hhand₂, hreceiver₂, hreceiver, Bool.and_self, if_true]
  refine ⟨{ w₂ with bus := { w₂.bus with hand := none }, wal := ackEventWal w₂.wal event.id },?_,congrArg (ackEventWal · event.id) hwal,
    happended,hqueue₂,hreceiver₂.trans hreceiver,rfl⟩
  simp only [List.foldlM_cons, List.foldlM_nil, hrecv, hdispatch, hack, Option.bind_eq_bind, Option.bind_some, Option.pure_def]

/-- A deliverer with the log that works off its queue acknowledges all that waits in it. -/
theorem rounds_drain (targets : List WebhookTarget) (queue : List (Event π)) {w : World π} (hqueue : w.bus.queue = queue)
    (hreceiver : w.bus.receiver = .taken true) (hhand : w.bus.hand = none) (hwaits : ∀ id, Waits w.wal id → id ∈ queue.map (·.id)) :
    ∃ w', (rounds targets queue.length).foldlM (Durability.step json envelopeLen) w = some w' ∧ w'.appended = w.appended ∧
      ∀ id, ¬ Waits w'.wal id := by
  induction queue generalizing w with
  | nil => exact ⟨w,rfl,rfl,fun id hid => by simpa using hwaits id hid⟩
  | cons event queue ih =>
    obtain ⟨w₁,hround,hwal,happended,hqueue₁,hreceiver₁,hhand₁⟩ := round_enabled json envelopeLen targets
      hqueue hreceiver hhand
    have hwaits₁ : ∀ id, Waits w₁.wal id → id ∈ queue.map (·.id) := by
      intro id hid
      rw [hwal] at hid
      obtain ⟨hold,hother⟩ := waits_of_ack hid
      exact (List.mem_cons.mp (hwaits id hold)).resolve_left hother
    obtain ⟨w',hrest,happended',hnone⟩ := ih hqueue₁ hreceiver₁ hhand₁ hwaits₁
    refine ⟨w',?_,happended'.trans happended,hnone⟩
    rw [List.length_cons,rounds,List.replicate_succ,List.flatten_cons,List.foldlM_append,hround]
    exact hrest

end Drain

theorem replay_room {b : EventBus π} (events : List (Event π)) (hopen : b.receiver ≠ .gone)
    (hroom : b.queue.length + events.length ≤ b.capacity) : b.replay events = { b with queue := b.queue ++ events } := by
  induction events generalizing b with
  | nil => rw [List.append_nil]; rfl
  | cons event events ih =>
    rw [List.length_cons] at hroom
    have hsend : b.trySend event = some { b with queue := b.queue ++ [event] } := if_neg (by rw [not_or]; exact ⟨hopen,by omega⟩)
    have hroom' : (b.queue ++ [event]).length + events.length ≤ b.capacity := by
      rw [List.length_append,List.length_singleton]
      omega
    have hrest := ih (b := { b with queue := b.queue ++ [event] }) hopen hroom'
    rw [EventBus.replay,List.foldl_cons,hsend]
    rw [EventBus.replay] at hrest
    rw [Option.getD_some,hrest,List.append_assoc]
    rfl

/-- After a restart that reads the log, with room for what waits, the deliverer hands on every event
that was ever logged, whatever happened before. -/
theorem restart_hands_on {as : List (Action π)} {w : World π} (hr : (world json envelopeLen).run as = some w) {capacity : ℕ}
    (hroom : (unackedEventsWal w.wal).length ≤ capacity) (instanceId : String) (targets : List WebhookTarget) :
    ∃ n w', (world json envelopeLen).run (as ++ ([.boot capacity instanceId,.attach true,.spawn] ++ rounds targets n)) = some w' ∧
      w'.appended = w.appended ∧ ∀ id ∈ w.appended, id ∈ w'.handled := by
  have hreached : ∀ {as w}, (world json envelopeLen).run as = some w → Durable w :=
    fun hr => System.run_inv Durable durable_init (fun _ _ _ h hs => h.step hs) hr
  have hdurable := hreached hr
  let bus : EventBus π := { EventBus.withCapacity capacity instanceId with
    queue := unacked json w.wal, durability := true, receiver := .taken true }
  have hlen : (unacked json w.wal).length ≤ max capacity 1 :=
    Nat.le_trans (List.length_filterMap_le _ _) (Nat.le_trans hroom (Nat.le_max_left _ _))
  have hstart : [Action.boot capacity instanceId,.attach true,.spawn].foldlM (Durability.step json envelopeLen) w = some { w with bus := bus } := by
    have hreplay := replay_room (b := (EventBus.withCapacity capacity instanceId : EventBus π)) (unacked json w.wal)
      (by simp [EventBus.withCapacity]) (by simpa [EventBus.withCapacity] using hlen)
    simp only [List.foldlM_cons, List.foldlM_nil, Durability.step, hreplay, Option.bind_eq_bind, Option.bind_some, if_true]
    rfl
  obtain ⟨w',hdrain,happended,hnone⟩ := rounds_drain json envelopeLen targets (unacked json w.wal)
    (w := { w with bus := bus }) rfl rfl rfl (fun id hid => mem_unacked hdurable.kinds hid)
  have hrun : (world json envelopeLen).run (as ++ ([.boot capacity instanceId,.attach true,.spawn] ++ rounds targets (unacked json w.wal).length)) =
      some w' := by
    rw [System.run_append,hr,Option.bind_some,List.foldlM_append]
    change ([Action.boot capacity instanceId,.attach true,.spawn].foldlM (Durability.step json envelopeLen) w).bind _ = _
    rw [hstart]
    exact hdrain
  refine ⟨_,w',hrun,happended,?_⟩
  intro id hid
  exact ((hreached hrun).kept id (happended ▸ hid)).resolve_right (hnone id)

theorem restart_hands_on_crash : ∃ n w', (world noPayload fun _ => 0).run
      (crash ++ ([.boot 2 "dwara-2-0",.attach true,.spawn] ++ rounds [⟨"http://alerts/",[.breakerOpened]⟩] n)) = some w' ∧
    ∀ id ∈ ["evt-a-000000","evt-b-000001"], id ∈ w'.handled := by
  obtain ⟨w,hr,happended,-,hlen⟩ := crash_run
  have hroom : (unackedEventsWal w.wal).length ≤ 2 := by
    rw [unackedEventsWal,List.length_mergeSort,← hlen]
    exact List.length_filter_le _ _
  obtain ⟨n,w',hr',-,hall⟩ := restart_hands_on hr hroom "dwara-2-0" [⟨"http://alerts/",[.breakerOpened]⟩]
  exact ⟨n,w',hr',happended ▸ hall⟩

end Runs
end Dwara.Events.Durability
