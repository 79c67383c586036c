import Dwara.Ai.BudgetLedger

/-! Requests that check and spend budgets of one ledger, each call of it one step. -/

namespace Dwara.Ai
open Dwara.Lib

inductive BudgetKind where
  | tokens
  | cost
  deriving DecidableEq, Repr

inductive BudgetVerdict where
  | allowed
  | denied (kind : BudgetKind) (retryAfterS : UInt64)
  deriving DecidableEq, Repr

/-- Whose spend a window holds: a consumer's, or that of a policy's team. -/
structure BudgetHolder where
  scope : TokenBudgetScope
  name : String
  deriving DecidableEq, Repr

namespace BudgetGuard
variable (guard : BudgetGuard)

def minuteIndex (nowS : UInt64) : UInt64 := nowS / 60

def dayIndex (nowS : UInt64) : UInt64 := nowS / 86400

def holder : BudgetHolder := ⟨guard.scope,guard.key⟩

/-- The wall that is further off denies. -/
def laterWall (denial : Option (BudgetKind × UInt64)) (kind : BudgetKind) (wait : UInt64) : Option (BudgetKind × UInt64) :=
  match denial with
  | some (k, w) => if wait ≤ w then some (k,w) else some (kind,wait)
  | none => some (kind,wait)

def check (ledger : BudgetLedger) (nowS : UInt64) : BudgetVerdict :=
  let overTokens := guard.tokensPerMin.any (· ≤ (ledger.spent guard.key .minute (minuteIndex nowS)).tokens)
  let overCost := guard.costPerDayMicros.any (· ≤ (ledger.spent guard.key .day (dayIndex nowS)).costMicros)
  let minuteWall := if overTokens then laterWall none .tokens (60 - nowS % 60) else none
  match if overCost then laterWall minuteWall .cost (86400 - nowS % 86400) else minuteWall with
  | some (kind, retryAfterS) => .denied kind retryAfterS
  | none => .allowed

/-- The reported usage is spent, then the cost when there is one. -/
def spend (ledger : BudgetLedger) (nowS : UInt64) (usage : Usage) (costMicros : UInt64) : BudgetLedger × Bool :=
  let spent := ledger.spendTokens guard.key (minuteIndex nowS) usage.total guard.tokensPerMin
  (if 0 < costMicros then spent.1.spendCost guard.key (dayIndex nowS) costMicros else spent.1,spent.2.2)

end BudgetGuard

/-- One call of one request; its reading of the clock may be older than that of a call before it. -/
inductive LedgerCall where
  | check (guard : BudgetGuard) (nowS : UInt64)
  | spendTokens (guard : BudgetGuard) (nowS : UInt64) (usage : Usage)
  | spendCost (guard : BudgetGuard) (nowS : UInt64) (costMicros : UInt64)
  deriving DecidableEq, Repr

/-- What one spend charges to a window of its holder. -/
structure Charge where
  holder : BudgetHolder
  kind : WindowKind
  windowIndex : UInt64
  amount : UInt64
  deriving DecidableEq, Repr

structure Ledgers where
  ledger : BudgetLedger
  holders : List BudgetHolder
  charges : List Charge

def Spent.amount (spent : Spent) : WindowKind → UInt64
  | .minute => spent.tokens
  | .day => spent.costMicros

namespace LedgerCall
open BudgetGuard (minuteIndex dayIndex)

def guard : LedgerCall → BudgetGuard
  | check guard _ => guard
  | spendTokens guard _ _ => guard
  | spendCost guard _ _ => guard

def charge : LedgerCall → Option Charge
  | check _ _ => none
  | spendTokens guard nowS usage => some ⟨guard.holder,.minute,minuteIndex nowS,usage.total⟩
  | spendCost guard nowS costMicros => some ⟨guard.holder,.day,dayIndex nowS,costMicros⟩

/-- The ledger behind a call. A cost of zero is not spent. -/
def perform (ledger : BudgetLedger) : LedgerCall → Option BudgetLedger
  | check _ _ => some ledger
  | spendTokens guard nowS usage => some (ledger.spendTokens guard.key (minuteIndex nowS) usage.total guard.tokensPerMin).1
  | spendCost guard nowS costMicros => if 0 < costMicros then some (ledger.spendCost guard.key (dayIndex nowS) costMicros) else none

end LedgerCall

/-- The calls a request's spend is made of. -/
def BudgetGuard.spendCalls (guard : BudgetGuard) (nowS : UInt64) (usage : Usage) (costMicros : UInt64) : List LedgerCall :=
  .spendTokens guard nowS usage :: if 0 < costMicros then [.spendCost guard nowS costMicros] else []

theorem BudgetGuard.performed_spendCalls (guard : BudgetGuard) (ledger : BudgetLedger) (nowS : UInt64) (usage : Usage) (costMicros : UInt64) :
    (guard.spendCalls nowS usage costMicros).foldlM LedgerCall.perform ledger = some (guard.spend ledger nowS usage costMicros).1 := by
  rw [spendCalls,spend]
  by_cases hcost : 0 < costMicros
  · simp only [if_pos hcost,List.foldlM_cons,List.foldlM_nil,LedgerCall.perform]
    rfl
  · simp only [if_neg hcost,List.foldlM_cons,List.foldlM_nil,LedgerCall.perform]
    rfl

/-- The calls of any number of requests on one ledger, in the order they lock it. -/
def spending : System Ledgers LedgerCall where
  init := ⟨BudgetLedger.empty,[],[]⟩
  step s call := (call.perform s.ledger).map fun ledger => ⟨ledger,s.holders ++ [call.guard.holder],s.charges ++ call.charge.toList⟩

namespace Ledgers

/-- The charges of one holder to one window. -/
def chargesTo (s : Ledgers) (holder : BudgetHolder) (kind : WindowKind) (windowIndex : UInt64) : List Charge :=
  s.charges.filter fun c => c.holder = holder ∧ c.kind = kind ∧ c.windowIndex = windowIndex

/-- No charge of the holder is to a later window. -/
def newest (s : Ledgers) (holder : BudgetHolder) (kind : WindowKind) (windowIndex : UInt64) : Prop :=
  ∀ c ∈ s.charges, c.holder = holder → c.kind = kind → c.windowIndex ≤ windowIndex

/-- No holder has the call's key for its name but the one that calls, and the window a spend goes
to is not before the one the key stands in. -/
def InOrder (s : Ledgers) (call : LedgerCall) : Prop :=
  (∀ holder ∈ s.holders, holder.name = call.guard.key → holder = call.guard.holder) ∧
    ∀ c ∈ call.charge, ∀ found ∈ s.ledger call.guard.key c.kind, found.1 ≤ c.windowIndex

instance (s : Ledgers) (holder : BudgetHolder) (kind : WindowKind) (windowIndex : UInt64) : Decidable (s.newest holder kind windowIndex) :=
  inferInstanceAs (Decidable (∀ c ∈ s.charges, _))

instance (s : Ledgers) (call : LedgerCall) : Decidable (s.InOrder call) := inferInstanceAs (Decidable (_ ∧ _))

/-- The total of each newest window is that of its own holder's charges. -/
def Conserved (s : Ledgers) : Prop :=
  (∀ holder ∈ s.holders, ∀ other ∈ s.holders, holder ≠ other → holder.name ≠ other.name) ∧
    ∀ holder ∈ s.holders, ∀ kind windowIndex, s.newest holder kind windowIndex →
      (s.ledger.spent holder.name kind windowIndex).amount kind =
        U64.saturatingSum ((s.chargesTo holder kind windowIndex).map (·.amount))

/-- What the ledger holds for a holder: the newest window, and its total. -/
structure Accounted (s : Ledgers) : Prop where
  apart : ∀ holder ∈ s.holders, ∀ other ∈ s.holders, holder.name = other.name → holder = other
  known : ∀ c ∈ s.charges, c.holder ∈ s.holders
  charged : ∀ key kind found, s.ledger key kind = some found → ∃ c ∈ s.charges, c.holder.name = key ∧ c.kind = kind ∧ c.windowIndex = found.1
  unspent : ∀ holder kind, s.ledger holder.name kind = none → ∀ c ∈ s.charges, c.holder = holder → c.kind ≠ kind
  total : ∀ holder ∈ s.holders, ∀ kind found, s.ledger holder.name kind = some found →
    s.newest holder kind found.1 ∧ found.2.amount kind = U64.saturatingSum ((s.chargesTo holder kind found.1).map (·.amount))

end Ledgers

namespace BudgetLedger
variable (ledger : BudgetLedger) (key : String) (windowIndex : UInt64)

theorem spendTokens_fst (tokens : UInt64) (limit : Option UInt64) : (ledger.spendTokens key windowIndex tokens limit).1 =
    ledger.insert key .minute (windowIndex,{ ledger.spent key .minute windowIndex with
      tokens := U64.saturatingAdd (ledger.spent key .minute windowIndex).tokens tokens }) := by
  rw [spendTokens,entry_eq]

theorem spendCost_eq (costMicros : UInt64) : ledger.spendCost key windowIndex costMicros =
    ledger.insert key .day (windowIndex,{ ledger.spent key .day windowIndex with
      costMicros := U64.saturatingAdd (ledger.spent key .day windowIndex).costMicros costMicros }) := by
  rw [spendCost,entry_eq]

theorem spent_of_eq_some {kind : WindowKind} {found : UInt64 × Spent} (h : ledger key kind = some found) :
    ledger.spent key kind windowIndex = if found.1 = windowIndex then found.2 else Spent.default := by
  rw [spent,h]
  by_cases hw : found.1 = windowIndex
  · simp [Option.filter,hw]
  · simp [Option.filter,hw]

theorem spent_of_eq_none {kind : WindowKind} (h : ledger key kind = none) : ledger.spent key kind windowIndex = Spent.default := by
  rw [spent,h]
  rfl

end BudgetLedger

@[simp] theorem Spent.amount_default (kind : WindowKind) : Spent.default.amount kind = 0 := by
  cases kind <;> rfl

/-- A spend adds its amount to the window it goes to. -/
theorem LedgerCall.perform_cases {ledger ledger' : BudgetLedger} {call : LedgerCall} (h : call.perform ledger = some ledger') :
    call.charge = none ∧ ledger' = ledger ∨
      ∃ c total, call.charge = some c ∧ c.holder = call.guard.holder ∧
        ledger' = ledger.insert call.guard.key c.kind (c.windowIndex,total) ∧
        total.amount c.kind = U64.saturatingAdd ((ledger.spent call.guard.key c.kind c.windowIndex).amount c.kind) c.amount := by
  cases call with
  | check guard nowS => exact .inl ⟨rfl,(Option.some.inj h).symm⟩
  | spendTokens guard nowS usage =>
    rw [perform,BudgetLedger.spendTokens_fst] at h
    exact .inr ⟨_,_,rfl,rfl,(Option.some.inj h).symm,rfl⟩
  | spendCost guard nowS costMicros =>
    rw [perform,BudgetLedger.spendCost_eq] at h
    split at h
    · exact .inr ⟨_,_,rfl,rfl,(Option.some.inj h).symm,rfl⟩
    · cases h

namespace Ledgers
variable {s : Ledgers}

theorem Accounted.conserved (h : s.Accounted) : s.Conserved := by
  refine ⟨fun holder hh other ho hne hname => hne (h.apart holder hh other ho hname),?_⟩
  intro holder hholder kind windowIndex hnewest
  have hnone : (∀ c ∈ s.charges, c.holder = holder → c.kind = kind → c.windowIndex ≠ windowIndex) →
      (0 : UInt64) = U64.saturatingSum ((s.chargesTo holder kind windowIndex).map (·.amount)) := by
    intro hout
    have hnil : s.chargesTo holder kind windowIndex = [] := by
      refine List.filter_eq_nil_iff.mpr fun c hc hto => ?_
      obtain ⟨hholder,hkind,hindex⟩ := of_decide_eq_true hto
      exact hout c hc hholder hkind hindex
    rw [hnil]
    rfl
  cases hfound : s.ledger holder.name kind with
  | none =>
    rw [BudgetLedger.spent_of_eq_none _ _ _ hfound,Spent.amount_default]
    exact hnone fun c hc hh hk => absurd hk (h.unspent holder kind hfound c hc hh)
  | some found =>
    obtain ⟨hbound,htotal⟩ := h.total holder hholder kind found hfound
    rw [BudgetLedger.spent_of_eq_some _ _ _ hfound]
    split
    case isTrue heq => rw [htotal,heq]
    case isFalse hne =>
      rw [Spent.amount_default]
      obtain ⟨last,hlast,hname,hlastKind,hindex⟩ := h.charged _ _ _ hfound
      have hlastHolder := h.apart _ (h.known last hlast) _ hholder hname
      have hle := hnewest last hlast hlastHolder hlastKind
      refine hnone fun c hc hh hk heq => hne ?_
      exact UInt64.le_antisymm (hindex ▸ hle) (heq ▸ hbound c hc hh hk)

theorem Accounted.join (h : s.Accounted) {caller : BudgetHolder} (hcaller : ∀ holder ∈ s.holders, holder.name = caller.name → holder = caller) :
    Accounted { s with holders := s.holders ++ [caller] } where
  apart := by
    intro holder hholder other hother hname
    rcases List.mem_append.mp hholder with hin | hnew
    · rcases List.mem_append.mp hother with hin' | hnew'
      · exact h.apart holder hin other hin' hname
      · obtain rfl := List.mem_singleton.mp hnew'
        exact hcaller holder hin hname
    · obtain rfl := List.mem_singleton.mp hnew
      rcases List.mem_append.mp hother with hin' | hnew'
      · exact (hcaller other hin' hname.symm).symm
      · exact (List.mem_singleton.mp hnew').symm
  known c hc := List.mem_append_left _ (h.known c hc)
  charged := h.charged
  unspent := h.unspent
  total := by
    intro holder hholder kind found hfound
    rcases List.mem_append.mp hholder with hin | hnew
    · exact h.total holder hin kind found hfound
    · obtain rfl := List.mem_singleton.mp hnew
      obtain ⟨c,hc,hname,-⟩ := h.charged _ _ _ hfound
      have hin := h.known c hc
      rw [hcaller c.holder hin hname] at hin
      exact h.total holder hin kind found hfound

theorem chargesTo_concat (s : Ledgers) (ledger : BudgetLedger) (c : Charge) (holder : BudgetHolder) (kind : WindowKind) (windowIndex : UInt64) :
    Ledgers.chargesTo ⟨ledger,s.holders,s.charges ++ [c]⟩ holder kind windowIndex =
      s.chargesTo holder kind windowIndex ++ if c.holder = holder ∧ c.kind = kind ∧ c.windowIndex = windowIndex then [c] else [] := by
  rw [chargesTo,chargesTo,List.filter_append]
  by_cases hc : c.holder = holder ∧ c.kind = kind ∧ c.windowIndex = windowIndex
  · rw [if_pos hc,List.filter_cons,if_pos (decide_eq_true hc),List.filter_nil]
  · rw [if_neg hc,List.filter_cons,if_neg (by simpa using hc),List.filter_nil]

/-- A charge to the window its key stands in, or to a later one. -/
theorem Accounted.charge (h : s.Accounted) {c : Charge} (hholder : c.holder ∈ s.holders)
    (horder : ∀ found, s.ledger c.holder.name c.kind = some found → found.1 ≤ c.windowIndex) {total : Spent}
    (htotal : total.amount c.kind = U64.saturatingAdd ((s.ledger.spent c.holder.name c.kind c.windowIndex).amount c.kind) c.amount) :
    Accounted ⟨s.ledger.insert c.holder.name c.kind (c.windowIndex,total),s.holders,s.charges ++ [c]⟩ where
  apart := h.apart
  known c' hc' := by
    rcases List.mem_append.mp hc' with hold | hnew
    · exact h.known c' hold
    · obtain rfl := List.mem_singleton.mp hnew
      exact hholder
  charged := by
    intro key kind found hfound
    by_cases hself : key = c.holder.name ∧ kind = c.kind
    · obtain ⟨rfl,rfl⟩ := hself
      obtain rfl := Option.some.inj ((BudgetLedger.insert_self ..).symm.trans hfound)
      exact ⟨c,List.mem_append_right _ (List.mem_singleton_self c),rfl,rfl,rfl⟩
    · obtain ⟨c',hc',hrest⟩ := h.charged key kind found ((BudgetLedger.insert_of_ne _ _ _ _ hself).symm.trans hfound)
      exact ⟨c',List.mem_append_left _ hc',hrest⟩
  unspent := by
    intro holder kind hnone c' hc' hc'holder hc'kind
    by_cases hself : holder.name = c.holder.name ∧ kind = c.kind
    · obtain ⟨hname,rfl⟩ := hself
      rw [hname] at hnone
      exact nomatch (BudgetLedger.insert_self ..).symm.trans hnone
    · replace hnone := (BudgetLedger.insert_of_ne _ _ _ _ hself).symm.trans hnone
      rcases List.mem_append.mp hc' with hold | hnew
      · exact h.unspent holder kind hnone c' hold hc'holder hc'kind
      · obtain rfl := List.mem_singleton.mp hnew
        exact hself ⟨congrArg _ hc'holder.symm,hc'kind.symm⟩
  total := by
    intro holder hin kind found hfound
    by_cases hself : holder.name = c.holder.name ∧ kind = c.kind
    · obtain ⟨hname,rfl⟩ := hself
      obtain rfl := h.apart holder hin c.holder hholder hname
      obtain rfl := Option.some.inj ((BudgetLedger.insert_self ..).symm.trans hfound)
      have hnewest : s.newest c.holder c.kind c.windowIndex := by
        intro c' hc' hc'holder hc'kind
        cases hledger : s.ledger c.holder.name c.kind with
        | none => exact absurd hc'kind (h.unspent _ _ hledger c' hc' hc'holder)
        | some found =>
          exact UInt64.le_trans ((h.total _ hin _ found hledger).1 c' hc' hc'holder hc'kind) (horder found hledger)
      constructor
      · intro c' hc' hc'holder hc'kind
        rcases List.mem_append.mp hc' with hold | hnew
        · exact hnewest c' hold hc'holder hc'kind
        · obtain rfl := List.mem_singleton.mp hnew
          exact UInt64.le_refl _
      · rw [chargesTo_concat,if_pos ⟨rfl,rfl,rfl⟩,List.map_append,List.map_singleton,U64.saturatingSum_concat,htotal,
          h.conserved.2 c.holder hin c.kind c.windowIndex hnewest]
    · obtain ⟨hbound,hsum⟩ := h.total holder hin kind found ((BudgetLedger.insert_of_ne _ _ _ _ hself).symm.trans hfound)
      have hother : ¬(c.holder = holder ∧ c.kind = kind) := by
        rintro ⟨rfl,rfl⟩
        exact hself ⟨rfl,rfl⟩
      constructor
      · intro c' hc' hc'holder hc'kind
        rcases List.mem_append.mp hc' with hold | hnew
        · exact hbound c' hold hc'holder hc'kind
        · obtain rfl := List.mem_singleton.mp hnew
          exact absurd ⟨hc'holder,hc'kind⟩ hother
      · rw [chargesTo_concat,if_neg (fun hc => hother ⟨hc.1,hc.2.1⟩),List.append_nil]
        exact hsum

theorem Accounted.step (h : s.Accounted) {s' : Ledgers} {call : LedgerCall} (horder : s.InOrder call)
    (hs : spending.step s call = some s') : s'.Accounted := by
  obtain ⟨ledger,hledger,rfl⟩ := Option.map_eq_some_iff.mp hs
  have hjoin : Ledgers.Accounted ⟨s.ledger,s.holders ++ [call.guard.holder],s.charges⟩ := h.join horder.1
  rcases LedgerCall.perform_cases hledger with ⟨hnone,rfl⟩ | ⟨c,total,hc,hholder,rfl,htotal⟩
  · rw [hnone,Option.toList_none,List.append_nil]
    exact hjoin
  · have hname : call.guard.key = c.holder.name := by rw [hholder]; rfl
    have hin : c.holder ∈ s.holders ++ [call.guard.holder] := by
      rw [hholder]
      exact List.mem_append_right _ (List.mem_singleton_self _)
    rw [hc,Option.toList_some]
    rw [hname] at htotal ⊢
    refine hjoin.charge hin (fun found hfound => ?_) htotal
    exact horder.2 c hc found (hname ▸ hfound)

theorem accounted_init : spending.init.Accounted where
  apart _ h := nomatch h
  known _ h := nomatch h
  charged _ _ _ h := nomatch h
  unspent _ _ _ _ h := nomatch h
  total _ h := nomatch h

end Ledgers

/-- No spend is lost or shared in a run whose readings of the clock come in order, of holders of
different names. -/
theorem spends_conserved {calls : List LedgerCall} {s : Ledgers} (hrun : spending.run calls = some s)
    (horder : spending.Along Ledgers.InOrder calls) : s.Conserved :=
  (System.guarded_inv Ledgers.Accounted Ledgers.accounted_init (fun _ _ _ h hG hs => h.step hG hs) horder hrun).conserved

/-- The consumer `acme` spends 5 tokens in minute 1 and 7 more in minute 2. -/
def acmeSpends : List LedgerCall :=
  [.spendTokens ⟨"acme",some 10,none,.consumer⟩ 60 ⟨none,none,some 5,none⟩,
    .check ⟨"acme",some 10,none,.consumer⟩ 119, .spendTokens ⟨"acme",some 10,none,.consumer⟩ 120 ⟨none,none,some 7,none⟩]

theorem spends_conserved_acme : ∃ s, spending.run acmeSpends = some s ∧ s.Conserved :=
  ⟨_,rfl,spends_conserved rfl (System.along_of_alongFrom (by decide : System.AlongFrom spending Ledgers.InOrder spending.init acmeSpends))⟩

/-- A spend of minute 1 that comes late wipes what is spent in minute 2. -/
theorem spends_lost : ¬∀ calls s, spending.run calls = some s → s.Conserved := by
  intro h
  have hlate := h (acmeSpends ++ [.spendTokens ⟨"acme",some 10,none,.consumer⟩ 119 ⟨none,none,some 1,none⟩]) _ rfl
  exact absurd (hlate.2 ⟨.consumer,"acme"⟩ (by decide) .minute 2 (by decide)) (by decide)

end Dwara.Ai
