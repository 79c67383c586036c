import Dwara.Lib.System
import Dwara.State.CredentialTable
import Mathlib.Logic.Function.Basic

/-! Lookups and updates of credentials through one store handle. Every cache lock
acquisition and every SQL statement is a step; the connection mutex is held from a
`SELECT` to the `UPDATE` it decides. -/

namespace Dwara.State
open Dwara.Lib

/-- What a call does next. `dead` are the rows whose revocation had returned when the
lookup started, `since` counts the updates before the lookup's disk read or the call's own
update. -/
inductive StoreCall where
  | idle
  | read (selector : String) (dead : List ℤ)
  | fill (selector : String) (entry : List CredentialRecord) (dead : List ℤ) (since : ℕ)
  | revoke (id now : ℤ) (selector : String)
  | revokeSource (consumerId : ℤ) (kind : CredentialKind) (sourceRef : String) (now : ℤ) (rows : List CredentialRow)
  | retire (id t : ℤ) (selector : String)
  | invalidate (selectors : List String) (revoked : List ℤ) (since : ℕ)
  deriving DecidableEq, Repr

/-- The database, the cache and the calls; for the statements, the number of updates made,
how many of them preceded or were the last one whose invalidation of a selector is over,
the rows whose revocation returned, and what every lookup returned. -/
structure StoreState where
  table : CredentialTable
  cache : String → Option (List CredentialRecord)
  conn : Option ℕ
  calls : ℕ → StoreCall
  now : ℤ
  writes : ℕ
  finished : String → ℕ
  dead : List ℤ
  returned : List (List ℤ × List CredentialRecord)

inductive StoreLabel where
  | lookupCredential (t : ℕ) (selector : String)
  | revokeCredential (t : ℕ) (id : ℤ)
  | revokeCredentialsBySource (t : ℕ) (consumerId : ℤ) (kind : CredentialKind) (sourceRef : String)
  | retireCredential (t : ℕ) (id atEpochSecs : ℤ)
  | rehashCredential (t : ℕ) (id : ℤ) (selector hash : String)
  | call (t : ℕ)
  | fail (t : ℕ)
  | tick (seconds : ℕ)
  deriving DecidableEq, Repr

namespace StoreState

def goto (s : StoreState) (t : ℕ) (next : StoreCall) : StoreState := { s with calls := Function.update s.calls t next }

/-- `t` takes the connection for a second statement. -/
def hold (s : StoreState) (t : ℕ) (next : StoreCall) : StoreState := { s with conn := some t }.goto t next

/-- `t` gives the connection back without an update. -/
def release (s : StoreState) (t : ℕ) : StoreState := { s with conn := none }.goto t .idle

/-- An update is made, the connection given back, and the selectors wait for their invalidation. -/
def update (s : StoreState) (t : ℕ) (table : CredentialTable) (selectors : List String) (revoked : List ℤ) : StoreState :=
  { s with
    table := table
    conn := none
    writes := s.writes + 1 }.goto t (.invalidate selectors revoked s.writes)

def invalidate (s : StoreState) (selector : String) (since : ℕ) : StoreState :=
  { s with
    cache := Function.update s.cache selector none
    finished := Function.update s.finished selector (max (s.finished selector) (since + 1)) }

def answer (s : StoreState) (dead : List ℤ) (entry : List CredentialRecord) : StoreState :=
  { s with returned := s.returned ++ [(dead,entry)] }

def insert (s : StoreState) (selector : String) (entry : List CredentialRecord) : StoreState :=
  { s with cache := Function.update s.cache selector (some entry) }

/-- The next step of call `t`. -/
def callStep (s : StoreState) (t : ℕ) : Option StoreState :=
  match s.calls t with
  | .idle => none
  | .read selector dead =>
    if s.conn = none then
      some (s.goto t (.fill selector (s.table.lookupCredentialsBySelector selector s.now) dead s.writes))
    else none
  | .fill selector entry dead _ => some (((s.insert selector entry).answer dead entry).goto t .idle)
  | .revoke id now selector => some (s.update t (s.table.revoke id now) [selector] [id])
  | .revokeSource consumerId kind sourceRef now rows =>
    some (s.update t (s.table.revokeSource consumerId kind sourceRef now) (rows.map (·.selector)) (rows.map (·.id)))
  | .retire id u selector => some (s.update t (s.table.retire id u) [selector] [])
  | .invalidate [] revoked _ => some ({ s with dead := s.dead ++ revoked }.goto t .idle)
  | .invalidate (selector :: selectors) revoked since =>
    some ((s.invalidate selector since).goto t (.invalidate selectors revoked since))

/-- A statement fails; an update that failed changed nothing. -/
def failStep (s : StoreState) (t : ℕ) : Option StoreState :=
  match s.calls t with
  | .read _ _ => some (s.goto t .idle)
  | .revoke _ _ _ | .revokeSource _ _ _ _ _ | .retire _ _ _ => some (s.release t)
  | .idle | .fill _ _ _ _ | .invalidate _ _ _ => none

def step (s : StoreState) : StoreLabel → Option StoreState
  | .lookupCredential t selector =>
    if s.calls t = .idle then
      match s.cache selector with
      | some entry => some (s.answer s.dead entry)
      | none => some (s.goto t (.read selector s.dead))
    else none
  | .revokeCredential t id =>
    if s.calls t = .idle ∧ s.conn = none then
      match s.table.unrevokedSelector id with
      | some selector => some (s.hold t (.revoke id s.now selector))
      | none => some s
    else none
  | .revokeCredentialsBySource t consumerId kind sourceRef =>
    if s.calls t = .idle ∧ s.conn = none then
      match s.table.sourceRows consumerId kind sourceRef with
      | [] => some s
      | r :: rows => some (s.hold t (.revokeSource consumerId kind sourceRef s.now (r :: rows)))
    else none
  | .retireCredential t id u =>
    if s.calls t = .idle ∧ s.conn = none then
      match s.table.retirableSelector id u with
      | some selector => some (s.hold t (.retire id u selector))
      | none => some s
    else none
  | .rehashCredential t id selector hash =>
    if s.calls t = .idle ∧ s.conn = none then
      some (s.update t (s.table.rehash id selector hash) [selector] [])
    else none
  | .call t => s.callStep t
  | .fail t => s.failStep t
  | .tick seconds => some { s with now := s.now + seconds }

def init (table : CredentialTable) (now : ℤ) : StoreState := ⟨table,fun _ => none,none,fun _ => .idle,now,0,fun _ => 0,[],[]⟩

@[simp] theorem goto_calls (s : StoreState) (t : ℕ) (next : StoreCall) : (s.goto t next).calls = Function.update s.calls t next := rfl

theorem goto_calls_self (s : StoreState) (t : ℕ) (next : StoreCall) : (s.goto t next).calls t = next := by
  rw [goto_calls,Function.update_self]

theorem goto_calls_of_ne (s : StoreState) {t t' : ℕ} (h : t' ≠ t) (next : StoreCall) : (s.goto t next).calls t' = s.calls t' := by
  rw [goto_calls,Function.update_of_ne h]

theorem of_goto_calls {s : StoreState} {t t' : ℕ} {next c : StoreCall} (h : (s.goto t next).calls t' = c) :
    t' = t ∧ next = c ∨ t' ≠ t ∧ s.calls t' = c := by
  by_cases htt : t' = t
  · rw [htt,goto_calls_self] at h
    exact .inl ⟨htt,h⟩
  · rw [goto_calls_of_ne s htt] at h
    exact .inr ⟨htt,h⟩

end StoreState

/-- The call holds the connection between two statements. -/
def StoreCall.Holding : StoreCall → Prop
  | .revoke _ _ _ | .revokeSource _ _ _ _ _ | .retire _ _ _ => True
  | .idle | .read _ _ | .fill _ _ _ _ | .invalidate _ _ _ => False

/-- What a call read before it took the connection for its update still stands. -/
def StoreCall.Held (s : StoreState) (t : ℕ) : StoreCall → Prop
  | .revoke id _ selector => s.conn = some t ∧ s.table.unrevokedSelector id = some selector
  | .revokeSource consumerId kind sourceRef _ rows => s.conn = some t ∧ rows = s.table.sourceRows consumerId kind sourceRef
  | .retire id u selector => s.conn = some t ∧ s.table.retirableSelector id u = some selector
  | .idle | .read _ _ | .fill _ _ _ _ | .invalidate _ _ _ => True

theorem StoreCall.Held.conn {s : StoreState} {t : ℕ} {c : StoreCall} (h : c.Held s t) (hc : c.Holding) : s.conn = some t := by
  cases c with
  | revoke => exact h.1
  | revokeSource => exact h.1
  | retire => exact h.1
  | _ => exact hc.elim

theorem StoreCall.held_of_not_holding {s : StoreState} {t : ℕ} {c : StoreCall} (h : ¬ c.Holding) : c.Held s t := by
  cases c with
  | revoke => exact absurd trivial h
  | revokeSource => exact absurd trivial h
  | retire => exact absurd trivial h
  | _ => trivial

theorem StoreCall.Held.of_eq {s s' : StoreState} {t : ℕ} {c : StoreCall} (h : c.Held s t) (hconn : s'.conn = s.conn)
    (htable : s'.table = s.table) : c.Held s' t := by
  cases c with
  | revoke => rwa [StoreCall.Held,hconn,htable]
  | revokeSource => rwa [StoreCall.Held,hconn,htable]
  | retire => rwa [StoreCall.Held,hconn,htable]
  | _ => trivial

namespace StoreState

/-- Everything a step can do, given that held calls stand. -/
inductive Move (s : StoreState) : StoreLabel → StoreState → Prop
  | stay {a : StoreLabel} : Move s a s
  | hit {t : ℕ} {selector : String} {entry : List CredentialRecord} (hc : s.cache selector = some entry) :
      Move s (.lookupCredential t selector) (s.answer s.dead entry)
  | miss {t : ℕ} {selector : String} (ht : s.calls t = .idle) : Move s (.lookupCredential t selector) (s.goto t (.read selector s.dead))
  | read {t : ℕ} {selector : String} {dead : List ℤ} (ht : s.calls t = .read selector dead) :
      Move s (.call t) (s.goto t (.fill selector (s.table.lookupCredentialsBySelector selector s.now) dead s.writes))
  | fill {t : ℕ} {selector : String} {entry : List CredentialRecord} {dead : List ℤ} {since : ℕ}
      (ht : s.calls t = .fill selector entry dead since) : Move s (.call t) (((s.insert selector entry).answer dead entry).goto t .idle)
  | hold {a : StoreLabel} {t : ℕ} {next : StoreCall} (ht : s.calls t = .idle) (hconn : s.conn = none) (hnext : next.Holding)
      (hheld : next.Held { s with conn := some t } t) : Move s a (s.hold t next)
  | giveUp {t : ℕ} {selector : String} {dead : List ℤ} (ht : s.calls t = .read selector dead) : Move s (.fail t) (s.goto t .idle)
  | release {t : ℕ} (ht : (s.calls t).Holding) : Move s (.fail t) (s.release t)
  | update {a : StoreLabel} {t : ℕ} {table : CredentialTable} {selectors : List String} {revoked : List ℤ}
      (ht : s.calls t = .idle ∧ s.conn = none ∨ (s.calls t).Holding)
      (hw : (s.calls t).Held s t → s.table.Writes table selectors revoked) : Move s a (s.update t table selectors revoked)
  | invalidate {t : ℕ} {selector : String} {selectors : List String} {revoked : List ℤ} {since : ℕ}
      (ht : s.calls t = .invalidate (selector :: selectors) revoked since) :
      Move s (.call t) ((s.invalidate selector since).goto t (.invalidate selectors revoked since))
  | done {t : ℕ} {revoked : List ℤ} {since : ℕ} (ht : s.calls t = .invalidate [] revoked since) :
      Move s (.call t) ({ s with dead := s.dead ++ revoked }.goto t .idle)
  | tick {seconds : ℕ} : Move s (.tick seconds) { s with now := s.now + seconds }

private theorem callStep_move {s s' : StoreState} {t : ℕ} (h : s.callStep t = some s') : Move s (.call t) s' := by
  rw [callStep] at h
  split at h
  · cases h
  · rename_i selector dead ht
    obtain ⟨-,h⟩ := Option.ite_none_right_eq_some.mp h
    cases h
    exact .read ht
  · rename_i selector entry dead since ht
    cases h
    exact .fill ht
  · rename_i id now selector ht
    cases h
    refine .update (.inr (by rw [ht]; trivial)) fun hheld => ?_
    rw [ht] at hheld
    exact CredentialTable.writes_revoke now hheld.2
  · rename_i consumerId kind sourceRef now rows ht
    cases h
    refine .update (.inr (by rw [ht]; trivial)) fun hheld => ?_
    rw [ht] at hheld
    rw [hheld.2]
    exact CredentialTable.writes_revokeSource s.table consumerId kind sourceRef now
  · rename_i id u selector ht
    cases h
    refine .update (.inr (by rw [ht]; trivial)) fun hheld => ?_
    rw [ht] at hheld
    exact CredentialTable.writes_retire hheld.2
  · rename_i revoked since ht
    cases h
    exact .done ht
  · rename_i selector selectors revoked since ht
    cases h
    exact .invalidate ht

theorem step_move {s s' : StoreState} {a : StoreLabel} (h : s.step a = some s') : Move s a s' := by
  cases a with
  | lookupCredential t selector =>
    obtain ⟨ht,h⟩ := Option.ite_none_right_eq_some.mp h
    split at h
    · rename_i entry hc
      cases h
      exact .hit hc
    · cases h
      exact .miss ht
  | revokeCredential t id =>
    obtain ⟨⟨ht,hconn⟩,h⟩ := Option.ite_none_right_eq_some.mp h
    split at h
    · rename_i selector hselector
      cases h
      exact .hold ht hconn trivial ⟨rfl,hselector⟩
    · cases h
      exact .stay
  | revokeCredentialsBySource t consumerId kind sourceRef =>
    obtain ⟨⟨ht,hconn⟩,h⟩ := Option.ite_none_right_eq_some.mp h
    split at h
    · cases h
      exact .stay
    · rename_i r rows hrows
      cases h
      exact .hold ht hconn trivial ⟨rfl,hrows.symm⟩
  | retireCredential t id u =>
    obtain ⟨⟨ht,hconn⟩,h⟩ := Option.ite_none_right_eq_some.mp h
    split at h
    · rename_i selector hselector
      cases h
      exact .hold ht hconn trivial ⟨rfl,hselector⟩
    · cases h
      exact .stay
  | rehashCredential t id selector hash =>
    obtain ⟨⟨ht,hconn⟩,h⟩ := Option.ite_none_right_eq_some.mp h
    cases h
    exact .update (.inl ⟨ht,hconn⟩) fun _ => CredentialTable.writes_rehash s.table id selector hash
  | call t => exact callStep_move h
  | fail t =>
    rw [step,failStep] at h
    split at h
    · rename_i selector dead ht
      cases h
      exact .giveUp ht
    · rename_i id now selector ht
      cases h
      exact .release (by rw [ht]; trivial)
    · rename_i consumerId kind sourceRef now rows ht
      cases h
      exact .release (by rw [ht]; trivial)
    · rename_i id u selector ht
      cases h
      exact .release (by rw [ht]; trivial)
    all_goals cases h
  | tick seconds =>
    cases h
    exact .tick

end StoreState

def store (table : CredentialTable) (now : ℤ) : System StoreState StoreLabel := ⟨StoreState.init table now,StoreState.step⟩

end Dwara.State
