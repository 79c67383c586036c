import Dwara.Lib.System
import Mathlib.Algebra.Group.Nat.Defs
import Mathlib.Data.List.Basic
import Mathlib.Data.List.Rotate
import Mathlib.Logic.Function.Basic

/-! The keys of a provider: their rotation, and those kept out of it for a while. -/

namespace Dwara.Ai
open Dwara.Lib

structure AiProviderAuth where
  header : String
  value : String

inductive AiPoolStrategy where
  | roundRobin
  | weighted
  deriving DecidableEq, Repr

structure AiCredentialPool where
  credentials : List AiProviderAuth
  strategy : AiPoolStrategy
  quarantineSecs : ℕ

/-- A key with its place in the configured list. -/
structure PoolEntry where
  header : String
  value : String
  index : ℕ
  deriving DecidableEq, Repr

structure QuarantineState where
  untilAt : ℕ
  count : ℕ

/-- What the headers of a response say of a key; times are in nanoseconds. -/
structure KeyHealth where
  remainingRequests : Option ℕ
  remainingTokens : Option ℕ
  resetAt : Option ℕ
  lastStatus : Option ℕ
  updatedAt : Option ℕ

structure CredentialPool where
  entries : List PoolEntry
  strategy : AiPoolStrategy
  quarantineSecs : ℕ
  quarantined : ℕ → Option QuarantineState
  health : ℕ → Option KeyHealth
  rrCounter : ℕ

def fromSecs (secs : ℕ) : ℕ := secs * 10 ^ 9

def asSecs (nanos : ℕ) : ℕ := nanos / 10 ^ 9

/-- FNV-1a over the bytes. -/
def weightedHash (s : String) : ℕ :=
  (s.toUTF8.toList.foldl (fun hash b => (hash ^^^ b.toUInt64) * 0x100000001b3) (0xcbf29ce484222325 : UInt64)).toNat

/-- The keys of a configured list; one that cannot be resolved is left out. -/
def compileEntries (resolve : String → Except String String) (credentials : List AiProviderAuth) : List PoolEntry :=
  credentials.zipIdx.filterMap fun c =>
    match resolve c.1.value with
    | .ok value => some ⟨c.1.header,value,c.2⟩
    | .error _ => none

namespace CredentialPool
variable (pool : CredentialPool)

def new (entries : List PoolEntry) (cfg : AiCredentialPool) : CredentialPool :=
  ⟨entries,cfg.strategy,cfg.quarantineSecs,fun _ => none,fun _ => none,0⟩

/-- Out of the rotation, as the table of quarantines has it. -/
def IsQuarantined (now i : ℕ) : Prop := ∃ q ∈ pool.quarantined i, now < q.untilAt

instance (now i : ℕ) : Decidable (pool.IsQuarantined now i) := inferInstanceAs (Decidable (∃ q ∈ pool.quarantined i, _))

def availableIndices (now : ℕ) : List ℕ := (List.range pool.entries.length).filter fun i => ¬ pool.IsQuarantined now i

def pick (now : ℕ) (requestId : String) : Option PoolEntry × CredentialPool :=
  let available := pool.availableIndices now
  if available.isEmpty then (none,pool)
  else
    match pool.strategy with
    | .roundRobin =>
      ((available[pool.rrCounter % available.length]?).bind (pool.entries[·]?),
        { pool with rrCounter := (pool.rrCounter + 1) % max available.length 1 })
    | .weighted => ((available[weightedHash requestId % available.length]?).bind (pool.entries[·]?),pool)

def quarantine (now index : ℕ) (retryAfterSecs : Option ℕ) : CredentialPool :=
  let untilAt := now + fromSecs (min (retryAfterSecs.getD pool.quarantineSecs) 600)
  let count := ((pool.quarantined index).map (·.count)).getD 0
  { pool with quarantined := Function.update pool.quarantined index (some ⟨untilAt,count + 1⟩) }

end CredentialPool

def KeyHealth.exhausted (health : KeyHealth) : Bool := health.remainingRequests = some 0 || health.remainingTokens = some 0

/-- The clock as one report reads it, one reading after the other. -/
structure ReportTimes where
  first : ℕ
  second : ℕ
  third : ℕ
  first_le : first ≤ second
  second_le : second ≤ third

namespace CredentialPool
variable (pool : CredentialPool)

/-- When the window of a key ends that has nothing left. -/
def resetOf (times : ReportTimes) (health : KeyHealth) : ℕ := health.resetAt.getD (times.first + fromSecs pool.quarantineSecs)

def recordHealth (times : ReportTimes) (index : ℕ) (health : KeyHealth) : CredentialPool :=
  let reset := pool.resetOf times health
  let cooled :=
    if health.exhausted ∧ times.second < reset then pool.quarantine times.third index (some (min (asSecs (reset - times.second)) 600))
    else pool
  { cooled with health := Function.update pool.health index (some health) }

end CredentialPool

inductive PoolCall where
  | pick (now : ℕ) (requestId : String)
  | quarantine (now index : ℕ) (retryAfterSecs : Option ℕ)
  | recordHealth (times : ReportTimes) (index : ℕ) (health : KeyHealth)

/-- When a call begins, and when it ends. -/
def PoolCall.span : PoolCall → ℕ × ℕ
  | pick now _ => (now,now)
  | quarantine now _ _ => (now,now)
  | recordHealth times _ _ => (times.first,times.third)

/-- A pool with the expiries its reports gave to keys, and its answers. -/
structure Pooling where
  pool : CredentialPool
  clock : ℕ
  given : List (ℕ × ℕ)
  picked : List (Option PoolEntry)

namespace Pooling
variable (s : Pooling)

/-- The expiry a report gives to a key, at most 600 seconds away. -/
def gives : PoolCall → List (ℕ × ℕ)
  | .pick _ _ => []
  | .quarantine now index retryAfterSecs => [(index,now + fromSecs (min (retryAfterSecs.getD s.pool.quarantineSecs) 600))]
  | .recordHealth times index health =>
    if health.exhausted then [(index,min (s.pool.resetOf times health) (times.second + fromSecs 600))] else []

def apply : PoolCall → CredentialPool
  | .pick now requestId => (s.pool.pick now requestId).2
  | .quarantine now index retryAfterSecs => s.pool.quarantine now index retryAfterSecs
  | .recordHealth times index health => s.pool.recordHealth times index health

def answers : PoolCall → List (Option PoolEntry)
  | .pick now requestId => [(s.pool.pick now requestId).1]
  | .quarantine _ _ _ => []
  | .recordHealth _ _ _ => []

def step (call : PoolCall) : Option Pooling :=
  if s.clock ≤ call.span.1 then some ⟨s.apply call,call.span.2,s.given ++ s.gives call,s.picked ++ s.answers call⟩ else none

end Pooling

/-- Calls to one pool, one after the other. -/
def pooling (pool : CredentialPool) : System Pooling PoolCall := ⟨⟨pool,0,[],[]⟩,Pooling.step⟩

namespace CredentialPool
variable {pool : CredentialPool} {now : ℕ}

/-- Every key is at its place of the configured list: none before it was left out. -/
def WellIndexed (pool : CredentialPool) : Prop := ∀ (i : ℕ) (e : PoolEntry), pool.entries[i]? = some e → e.index = i

/-- When the quarantine of a key ends. -/
def expiry (pool : CredentialPool) (i : ℕ) : Option ℕ := (pool.quarantined i).map (·.untilAt)

theorem isQuarantined_iff {i : ℕ} : pool.IsQuarantined now i ↔ ∃ t ∈ pool.expiry i, now < t := by
  rw [IsQuarantined,expiry]
  cases pool.quarantined i with
  | none => simp
  | some q => simp

theorem mem_availableIndices {i : ℕ} : i ∈ pool.availableIndices now ↔ i < pool.entries.length ∧ ¬ pool.IsQuarantined now i := by
  rw [availableIndices,List.mem_filter,List.mem_range,decide_eq_true_eq]

private theorem getElem?_mod {available : List ℕ} (h : available ≠ []) (k : ℕ) :
    ∃ i ∈ available, available[k % available.length]? = some i :=
  have hlt : k % available.length < available.length := Nat.mod_lt _ (List.length_pos_of_ne_nil h)
  ⟨_,List.getElem_mem hlt,List.getElem?_eq_getElem hlt⟩

/-- A pick is one of the keys that are available, when there is one. -/
theorem pick_eq (pool : CredentialPool) (now : ℕ) (requestId : String) :
    pool.availableIndices now = [] ∧ (pool.pick now requestId).1 = none ∨
      ∃ i ∈ pool.availableIndices now, ∃ e, pool.entries[i]? = some e ∧ (pool.pick now requestId).1 = some e := by
  by_cases hnil : pool.availableIndices now = []
  · refine .inl ⟨hnil,?_⟩
    rw [pick,hnil]
    rfl
  · have hempty : (pool.availableIndices now).isEmpty = false := by simpa using hnil
    have hentry : ∀ k, ∃ i ∈ pool.availableIndices now, ∃ e, pool.entries[i]? = some e ∧
        ((pool.availableIndices now)[k % (pool.availableIndices now).length]?).bind (pool.entries[·]?) = some e := by
      intro k
      obtain ⟨i,hi,hk⟩ := getElem?_mod hnil k
      have hlt := (mem_availableIndices.mp hi).1
      exact ⟨i,hi,_,List.getElem?_eq_getElem hlt,by rw [hk,Option.bind_some,List.getElem?_eq_getElem hlt]⟩
    refine .inr ?_
    rw [pick,hempty,if_neg Bool.false_ne_true]
    cases pool.strategy with
    | roundRobin => exact hentry pool.rrCounter
    | weighted => exact hentry (weightedHash requestId)

theorem pick_eq_some {requestId : String} {e : PoolEntry} (h : (pool.pick now requestId).1 = some e) :
    ∃ i ∈ pool.availableIndices now, pool.entries[i]? = some e := by
  rcases pick_eq pool now requestId with ⟨-,hnone⟩ | ⟨i,hi,e',he,hsome⟩
  · rw [hnone] at h
    cases h
  · rw [hsome] at h
    exact ⟨i,hi,he.trans h⟩

/-- No key is picked exactly when all are in quarantine. -/
theorem pick_eq_none_iff (hindex : pool.WellIndexed) (requestId : String) :
    (pool.pick now requestId).1 = none ↔ ∀ e ∈ pool.entries, pool.IsQuarantined now e.index := by
  have hall : pool.availableIndices now = [] ↔ ∀ e ∈ pool.entries, pool.IsQuarantined now e.index := by
    rw [List.eq_nil_iff_forall_not_mem]
    constructor
    · intro hnot e he
      obtain ⟨i,hi⟩ := List.getElem?_of_mem he
      have hmem := hnot i
      rw [mem_availableIndices,not_and_not_right] at hmem
      rw [hindex i e hi]
      exact hmem (List.getElem?_eq_some_iff.mp hi).1
    · intro hq i hi
      obtain ⟨hlt,hfree⟩ := mem_availableIndices.mp hi
      have he := List.getElem?_eq_getElem hlt
      have hquarantined := hq _ (List.getElem_mem hlt)
      rw [hindex i _ he] at hquarantined
      exact hfree hquarantined
  rw [← hall]
  rcases pick_eq pool now requestId with ⟨hnil,hnone⟩ | ⟨i,hi,e,-,hsome⟩
  · exact iff_of_true hnone hnil
  · refine iff_of_false (by simp [hsome]) ?_
    intro hnil
    rw [hnil] at hi
    cases hi

/-- A pick moves the counter at most. -/
theorem exists_counter_pick (pool : CredentialPool) (now : ℕ) (requestId : String) :
    ∃ c, (pool.pick now requestId).2 = { pool with rrCounter := c } := by
  rw [pick]
  split
  · exact ⟨pool.rrCounter,rfl⟩
  · split
    · exact ⟨_,rfl⟩
    · exact ⟨pool.rrCounter,rfl⟩

@[simp] theorem entries_recordHealth (pool : CredentialPool) (times : ReportTimes) (index : ℕ) (health : KeyHealth) :
    (pool.recordHealth times index health).entries = pool.entries := by
  rw [recordHealth]
  split
  · rfl
  · rfl

/-- A quarantine ends when the last report on the key says, whatever was said before. -/
theorem expiry_quarantine (pool : CredentialPool) (now index : ℕ) (retryAfterSecs : Option ℕ) (j : ℕ) :
    (pool.quarantine now index retryAfterSecs).expiry j =
      if j = index then some (now + fromSecs (min (retryAfterSecs.getD pool.quarantineSecs) 600)) else pool.expiry j := by
  rw [expiry,quarantine]
  dsimp only
  by_cases hj : j = index
  · rw [if_pos hj,hj,Function.update_self]
    rfl
  · rw [if_neg hj,Function.update_of_ne hj]
    rfl

end CredentialPool

namespace Pooling
variable {s s' : Pooling} {call : PoolCall}

/-- The expiry a report puts down for a key. -/
def sets (s : Pooling) : PoolCall → Option (ℕ × ℕ)
  | .pick _ _ => none
  | .quarantine now index retryAfterSecs => some (index,now + fromSecs (min (retryAfterSecs.getD s.pool.quarantineSecs) 600))
  | .recordHealth times index health =>
    if health.exhausted ∧ times.second < s.pool.resetOf times health then
      some (index,times.third + fromSecs (min (asSecs (s.pool.resetOf times health - times.second)) 600))
    else none

/-- What a report puts down for a key is not before what it gives to the key itself, nor before
what an earlier report gave. -/
def Lasts (s : Pooling) (call : PoolCall) : Prop :=
  ∀ i t, s.sets call = some (i,t) → i < s.pool.entries.length → ∀ g, (i,g) ∈ s.given ++ s.gives call → g ≤ t

/-- No key is available before an expiry that a report gave it. -/
def KeepsOut (s : Pooling) : Prop :=
  ∀ now, s.clock ≤ now → ∀ i ∈ s.pool.availableIndices now, ∀ e, s.pool.entries[i]? = some e → ∀ g, (e.index,g) ∈ s.given → g ≤ now

theorem entries_apply (s : Pooling) (call : PoolCall) : (s.apply call).entries = s.pool.entries := by
  cases call with
  | pick now requestId =>
    obtain ⟨c,hpick⟩ := CredentialPool.exists_counter_pick s.pool now requestId
    rw [apply,hpick]
  | quarantine now index retryAfterSecs => rfl
  | recordHealth times index health => exact CredentialPool.entries_recordHealth _ _ _ _

/-- A call changes the expiry of a key when it puts one down for it. -/
theorem expiry_apply (s : Pooling) (call : PoolCall) (j : ℕ) :
    (∃ t, s.sets call = some (j,t) ∧ (s.apply call).expiry j = some t) ∨
      (∀ t, s.sets call ≠ some (j,t)) ∧ (s.apply call).expiry j = s.pool.expiry j := by
  cases call with
  | pick now requestId =>
    obtain ⟨c,hpick⟩ := CredentialPool.exists_counter_pick s.pool now requestId
    refine .inr ⟨fun t ht => (by cases ht),?_⟩
    rw [apply,hpick]
    rfl
  | quarantine now index retryAfterSecs =>
    rw [apply,CredentialPool.expiry_quarantine,sets]
    by_cases hj : j = index
    · rw [if_pos hj,hj]
      exact .inl ⟨_,rfl,rfl⟩
    · rw [if_neg hj]
      exact .inr ⟨fun t ht => hj (congrArg Prod.fst (Option.some.inj ht)).symm,rfl⟩
  | recordHealth times index health =>
    rw [apply,sets]
    by_cases hcool : health.exhausted = true ∧ times.second < s.pool.resetOf times health
    · have hexpiry := CredentialPool.expiry_quarantine s.pool times.third index
        (some (min (asSecs (s.pool.resetOf times health - times.second)) 600)) j
      rw [CredentialPool.recordHealth,if_pos hcool,if_pos hcool]
      by_cases hj : j = index
      · rw [if_pos hj] at hexpiry
        exact .inl ⟨_,by rw [hj],hexpiry.trans (by rw [Option.getD_some,Nat.min_assoc,Nat.min_self])⟩
      · rw [if_neg hj] at hexpiry
        exact .inr ⟨fun t ht => hj (congrArg Prod.fst (Option.some.inj ht)).symm,hexpiry⟩
    · rw [CredentialPool.recordHealth,if_neg hcool,if_neg hcool]
      exact .inr ⟨fun t ht => (by cases ht),rfl⟩

/-- What a report puts down is not in the past; one that puts nothing down gives nothing that
is not. -/
theorem gives_cases (s : Pooling) (call : PoolCall) :
    call.span.1 ≤ call.span.2 ∧ ((s.sets call = none ∧ ∀ x ∈ s.gives call, x.2 ≤ call.span.2) ∨
      ∃ i t, s.sets call = some (i,t) ∧ call.span.2 ≤ t ∧ ∀ x ∈ s.gives call, x.1 = i) := by
  cases call with
  | pick now requestId => exact ⟨Nat.le_refl _,.inl ⟨rfl,fun x hx => by cases hx⟩⟩
  | quarantine now index retryAfterSecs =>
    refine ⟨Nat.le_refl _,.inr ⟨index,_,rfl,Nat.le_add_right _ _,fun x hx => ?_⟩⟩
    rw [List.mem_singleton.mp hx]
  | recordHealth times index health =>
    refine ⟨Nat.le_trans times.first_le times.second_le,?_⟩
    rw [sets,gives]
    by_cases hcool : health.exhausted = true ∧ times.second < s.pool.resetOf times health
    · rw [if_pos hcool,if_pos hcool.1]
      refine .inr ⟨index,_,rfl,Nat.le_add_right _ _,fun x hx => ?_⟩
      rw [List.mem_singleton.mp hx]
    · rw [if_neg hcool]
      refine .inl ⟨rfl,fun x hx => ?_⟩
      split at hx
      · rename_i hexhausted
        rw [List.mem_singleton.mp hx]
        have hpast : s.pool.resetOf times health ≤ times.second := Nat.le_of_not_lt fun h => hcool ⟨hexhausted,h⟩
        exact Nat.le_trans (Nat.min_le_left _ _) (Nat.le_trans hpast times.second_le)
      · cases hx

theorem step_eq_some (h : s.step call = some s') :
    s.clock ≤ call.span.1 ∧ s' = ⟨s.apply call,call.span.2,s.given ++ s.gives call,s.picked ++ s.answers call⟩ := by
  rw [step] at h
  split at h
  · exact ⟨‹_›,(Option.some.inj h).symm⟩
  · cases h

theorem picked_prefix (h : s.step call = some s') : s.picked <+: s'.picked := by
  obtain ⟨-,rfl⟩ := step_eq_some h
  exact List.prefix_append _ _

/-- Each expiry that was given is past, or the key is out until then. -/
theorem keepsOut_iff (hindex : s.pool.WellIndexed) :
    s.KeepsOut ↔ ∀ i < s.pool.entries.length, ∀ g, (i,g) ∈ s.given → g ≤ max s.clock ((s.pool.expiry i).getD 0) := by
  constructor
  · intro h i hi g hg
    have he := List.getElem?_eq_getElem hi
    rw [← hindex i _ he] at hg
    refine h _ (Nat.le_max_left _ _) i (CredentialPool.mem_availableIndices.mpr ⟨hi,?_⟩) _ he g hg
    rw [CredentialPool.isQuarantined_iff]
    rintro ⟨t,ht,hlt⟩
    rw [ht,Option.getD_some] at hlt
    omega
  · intro h now hnow i hi e he g hg
    obtain ⟨hlt,hfree⟩ := CredentialPool.mem_availableIndices.mp hi
    rw [hindex i e he] at hg
    have hle := h i hlt g hg
    rw [CredentialPool.isQuarantined_iff] at hfree
    have hend : (s.pool.expiry i).getD 0 ≤ now := by
      cases hexpiry : s.pool.expiry i with
      | none => exact Nat.zero_le _
      | some t => exact Nat.le_of_not_lt fun hlater => hfree ⟨t,hexpiry,hlater⟩
    omega

/-- What keeps keys out still does after a call exactly when its report lasts. -/
theorem keepsOut_step (hindex : s.pool.WellIndexed) (hs : s.step call = some s') (h : s.KeepsOut) : s'.KeepsOut ↔ s.Lasts call := by
  obtain ⟨hclock,rfl⟩ := step_eq_some hs
  have hindex' : (s.apply call).WellIndexed := fun i e he => hindex i e (entries_apply s call ▸ he)
  rw [keepsOut_iff hindex']
  dsimp only
  rw [entries_apply]
  rw [keepsOut_iff hindex] at h
  obtain ⟨hspan,hgives⟩ := gives_cases s call
  constructor
  · intro hkeeps i t ht hi g hg
    have hle := hkeeps i hi g hg
    rcases hgives with ⟨hnone,-⟩ | ⟨j,t',hsome,hlate,-⟩
    · rw [hnone] at ht
      cases ht
    · rw [hsome] at ht
      obtain ⟨rfl,rfl⟩ := Prod.mk.inj (Option.some.inj ht)
      rcases expiry_apply s call j with ⟨t,hsets,hexpiry⟩ | ⟨hnot,-⟩
      · rw [hsome] at hsets
        obtain ⟨-,rfl⟩ := Prod.mk.inj (Option.some.inj hsets)
        rw [hexpiry,Option.getD_some] at hle
        omega
      · exact absurd hsome (hnot t')
  · intro hlasts i hi g hg
    rcases expiry_apply s call i with ⟨t,hsets,hexpiry⟩ | ⟨hnot,hexpiry⟩
    · have hle := hlasts i t hsets hi g hg
      rw [hexpiry,Option.getD_some]
      omega
    · rw [hexpiry]
      rcases List.mem_append.mp hg with hbefore | hnow
      · have hle := h i hi g hbefore
        omega
      · rcases hgives with ⟨-,hpast⟩ | ⟨j,t,hsome,-,hkey⟩
        · have hle := hpast _ hnow
          omega
        · obtain rfl := hkey _ hnow
          exact absurd hsome (hnot t)

end Pooling

section Run
variable {pool : CredentialPool} {calls : List PoolCall} {s : Pooling}

theorem entries_run (hrun : (pooling pool).run calls = some s) : s.pool.entries = pool.entries := by
  refine System.run_inv (fun t : Pooling => t.pool.entries = pool.entries) rfl (fun t call t' ht hs => ?_) hrun
  obtain ⟨-,rfl⟩ := Pooling.step_eq_some hs
  exact (Pooling.entries_apply t call).trans ht

theorem wellIndexed_run (hindex : pool.WellIndexed) (hrun : (pooling pool).run calls = some s) : s.pool.WellIndexed :=
  fun i e he => hindex i e (entries_run hrun ▸ he)

end Run

section Rotation
variable {pool : CredentialPool} {s t : Pooling} {available : List ℕ}

/-- The answers of `k` picks among the same available keys, the counter being `c`. -/
def rotation (available : List ℕ) (entries : List PoolEntry) (c k : ℕ) : List (Option PoolEntry) :=
  (List.range k).map fun j => (available[(c + j) % available.length]?).bind (entries[·]?)

theorem rotation_succ (entries : List PoolEntry) (c k : ℕ) : rotation available entries c (k + 1) =
    (available[c % available.length]?).bind (entries[·]?) :: rotation available entries ((c + 1) % available.length) k := by
  rw [rotation,List.range_succ_eq_map,List.map_cons,List.map_map,Nat.add_zero]
  congr 1
  refine List.map_congr_left fun j _ => ?_
  rw [Function.comp_apply,Nat.mod_add_mod,Nat.succ_eq_add_one,Nat.add_assoc,Nat.add_comm 1 j]

/-- As many picks as there are keys return each of them once. -/
theorem rotation_perm (entries : List PoolEntry) (c : ℕ) :
    (rotation available entries c available.length).Perm (available.map (entries[·]?)) := by
  have hrotate : rotation available entries c available.length = (available.rotate c).map (entries[·]?) := by
    refine List.ext_getElem (by simp [rotation]) fun j hj _ => ?_
    have hlt : j < available.length := by simpa [rotation] using hj
    simp only [rotation,List.getElem_map,List.getElem_range,List.getElem_rotate]
    rw [Nat.add_comm c j,List.getElem?_eq_getElem (Nat.mod_lt _ (by omega)),Option.bind_some]
  rw [hrotate]
  exact (List.rotate_perm available c).map _

/-- Every pick of a run finds these keys available. -/
def Steady (pool : CredentialPool) (available : List ℕ) : Pooling → List PoolCall → Prop :=
  System.AlongFrom (pooling pool) fun t call => ∀ now requestId, call = .pick now requestId → t.pool.availableIndices now = available

theorem strategy_apply (s : Pooling) (call : PoolCall) : (s.apply call).strategy = s.pool.strategy := by
  cases call with
  | pick now requestId =>
    obtain ⟨c,hpick⟩ := CredentialPool.exists_counter_pick s.pool now requestId
    rw [Pooling.apply,hpick]
  | quarantine now index retryAfterSecs => rfl
  | recordHealth times index health =>
    rw [Pooling.apply,CredentialPool.recordHealth]
    split
    · rfl
    · rfl

private theorem pick_roundRobin (now : ℕ) (requestId : String) (hstrategy : s.pool.strategy = .roundRobin)
    (havailable : s.pool.availableIndices now = available) (hne : available ≠ []) : s.pool.pick now requestId =
      ((available[s.pool.rrCounter % available.length]?).bind (s.pool.entries[·]?),
        { s.pool with rrCounter := (s.pool.rrCounter + 1) % available.length }) := by
  have hempty : available.isEmpty = false := by simpa using hne
  have hmax : max available.length 1 = available.length := Nat.max_eq_left (List.length_pos_of_ne_nil hne)
  rw [CredentialPool.pick,havailable,hempty,if_neg Bool.false_ne_true,hstrategy]
  dsimp only
  rw [hmax,hstrategy]

/-- The picks of a steady run go around. -/
theorem picked_steady (hne : available ≠ []) {calls : List PoolCall} (hstrategy : s.pool.strategy = .roundRobin)
    (hsteady : Steady pool available s calls) (hrun : calls.foldlM (pooling pool).step s = some t) :
    ∃ k, t.picked = s.picked ++ rotation available s.pool.entries s.pool.rrCounter k := by
  induction calls generalizing s with
  | nil =>
    obtain rfl := Option.some.inj hrun
    exact ⟨0,(List.append_nil _).symm⟩
  | cons call calls ih =>
    obtain ⟨s',hs,hrun⟩ := Option.bind_eq_some_iff.mp hrun
    obtain ⟨hfirst,hrest⟩ := hsteady
    rw [hs] at hrest
    obtain ⟨-,rfl⟩ := Pooling.step_eq_some hs
    obtain ⟨k,hk⟩ := ih ((strategy_apply s call).trans hstrategy) hrest hrun
    rw [hk]
    dsimp only
    rw [Pooling.entries_apply]
    cases call with
    | pick now requestId =>
      have hpick := pick_roundRobin now requestId hstrategy (hfirst now requestId rfl) hne
      refine ⟨k + 1,?_⟩
      rw [Pooling.answers,Pooling.apply,hpick,rotation_succ,List.append_assoc,List.singleton_append]
    | quarantine now index retryAfterSecs => exact ⟨k,by rw [Pooling.answers,List.append_nil]; rfl⟩
    | recordHealth times index health =>
      have hcounter : (s.pool.recordHealth times index health).rrCounter = s.pool.rrCounter := by
        rw [CredentialPool.recordHealth]
        split
        · rfl
        · rfl
      exact ⟨k,by rw [Pooling.answers,List.append_nil,Pooling.apply,hcounter]⟩

end Rotation

/-- Keys stay out in a whole run exactly when each report of it lasts. -/
theorem keepsOut_iff_along {pool : CredentialPool} (hindex : pool.WellIndexed) {calls : List PoolCall} {s : Pooling}
    (hrun : (pooling pool).run calls = some s) :
    (∀ pre post r, calls = pre ++ post → (pooling pool).run pre = some r → r.KeepsOut) ↔ (pooling pool).Along Pooling.Lasts calls := by
  have hinit : (pooling pool).init.KeepsOut := fun now _ i _ e _ g hg => by cases hg
  have hiff : (∀ pre post r, calls = pre ++ post → (pooling pool).run pre = some r → r.KeepsOut ∧ r.pool.WellIndexed) ↔
      (pooling pool).Along Pooling.Lasts calls := by
    refine System.forall_prefix_iff_along (fun r : Pooling => r.KeepsOut ∧ r.pool.WellIndexed) ⟨hinit,hindex⟩ (fun r call r' hr hs => ?_) hrun
    have hindex' : r'.pool.WellIndexed := by
      obtain ⟨-,rfl⟩ := Pooling.step_eq_some hs
      exact fun i e he => hr.2 i e (Pooling.entries_apply r call ▸ he)
    rw [and_iff_left hindex',Pooling.keepsOut_step hr.2 hs hr.1]
  rw [← hiff]
  exact ⟨fun h pre post r he hr => ⟨h pre post r he hr,wellIndexed_run hindex hr⟩,fun h pre post r he hr => (h pre post r he hr).1⟩

/-- Keys stay out as long as was said exactly when each report lasts; then no pick returns one
early. There is no pick exactly when all keys are out, and picks in turn go around the others. -/
theorem quarantined_keys_stay_out {pool : CredentialPool} (hindex : pool.WellIndexed) {calls : List PoolCall} {s : Pooling}
    (hrun : (pooling pool).run calls = some s) :
    ((∀ pre post r, calls = pre ++ post → (pooling pool).run pre = some r → r.KeepsOut) ↔ (pooling pool).Along Pooling.Lasts calls) ∧
      ((pooling pool).Along Pooling.Lasts calls → ∀ now requestId e, s.clock ≤ now → (s.pool.pick now requestId).1 = some e →
        ∀ g, (e.index,g) ∈ s.given → g ≤ now) ∧
      (∀ now requestId, (s.pool.pick now requestId).1 = none ↔ ∀ e ∈ s.pool.entries, s.pool.IsQuarantined now e.index) ∧
      ∀ available more t, s.pool.strategy = .roundRobin → Steady pool available s more → more.foldlM (pooling pool).step s = some t →
        t.picked.length = s.picked.length + available.length →
        ∃ picks, t.picked = s.picked ++ picks ∧ picks.Perm (available.map (s.pool.entries[·]?)) := by
  have hkeeps := keepsOut_iff_along hindex hrun
  refine ⟨hkeeps,fun hlasts now requestId e hnow hpick => ?_,fun now requestId => ?_,fun available more t hstrategy hsteady hmore hlength => ?_⟩
  · obtain ⟨i,hi,he⟩ := CredentialPool.pick_eq_some hpick
    exact hkeeps.mpr hlasts calls [] s (List.append_nil _).symm hrun now hnow i hi e he
  · exact CredentialPool.pick_eq_none_iff (wellIndexed_run hindex hrun) requestId
  · by_cases hne : available = []
    · have hprefix : s.picked <+: t.picked := System.alongFrom_inv (fun r : Pooling => s.picked <+: r.picked)
        (fun r call r' hr _ hs => hr.trans (Pooling.picked_prefix hs)) (List.prefix_refl _) hsteady hmore
      obtain ⟨picks,hpicks⟩ := hprefix
      refine ⟨picks,hpicks.symm,?_⟩
      rw [← hpicks,List.length_append,hne] at hlength
      rw [hne,List.length_eq_zero_iff.mp (Nat.add_left_cancel hlength)]
      exact List.Perm.nil
    · obtain ⟨k,hk⟩ := picked_steady hne hstrategy hsteady hmore
      have hcount : k = available.length := by
        rw [hk,List.length_append,rotation,List.length_map,List.length_range] at hlength
        omega
      exact ⟨_,hk,hcount ▸ rotation_perm s.pool.entries s.pool.rrCounter⟩

def twoKeys : CredentialPool := .new [⟨"Authorization","Bearer a",0⟩,⟨"Authorization","Bearer b",1⟩] ⟨[],.roundRobin,60⟩

private theorem wellIndexed_twoKeys : twoKeys.WellIndexed := by
  intro i e he
  rcases i with _ | _ | i
  · cases he
    rfl
  · cases he
    rfl
  · cases he

theorem quarantined_keys_stay_out_once : ∃ s, (pooling twoKeys).run [.quarantine 0 0 (some 60)] = some s ∧ s.KeepsOut ∧
    ((s.pool.pick (fromSecs 10) "r").1 = none ↔ ∀ e ∈ s.pool.entries, s.pool.IsQuarantined (fromSecs 10) e.index) := by
  have hlasts : (pooling twoKeys).Along Pooling.Lasts [.quarantine 0 0 (some 60)] := by
    refine System.along_of_alongFrom ⟨fun j t ht _ g hg => ?_,trivial⟩
    obtain ⟨rfl,rfl⟩ := Prod.mk.inj (Option.some.inj ht)
    obtain ⟨-,rfl⟩ := Prod.mk.inj (List.mem_singleton.mp hg)
    exact Nat.le_refl _
  obtain ⟨hkeeps,-,hnone,-⟩ := quarantined_keys_stay_out wellIndexed_twoKeys
    (show (pooling twoKeys).run [.quarantine 0 0 (some 60)] = some _ from rfl)
  exact ⟨_,rfl,hkeeps.mpr hlasts _ [] _ (List.append_nil _).symm rfl,hnone _ _⟩

/-- A second of a later report takes back the minute of the first. -/
theorem window_shortened : ¬ ∀ (pool : CredentialPool) (calls : List PoolCall) (s : Pooling) (now : ℕ) (requestId : String) (e : PoolEntry)
    (g : ℕ), pool.WellIndexed → (pooling pool).run calls = some s → s.clock ≤ now → (s.pool.pick now requestId).1 = some e →
      (e.index,g) ∈ s.given → g ≤ now := by
  intro h
  have hearly := h twoKeys [.quarantine 0 0 (some 60),.quarantine (fromSecs 1) 0 (some 1)] _ (fromSecs 2) "r"
    ⟨"Authorization","Bearer a",0⟩ (fromSecs 60) wellIndexed_twoKeys rfl (by decide) (by decide) (by decide)
  exact absurd hearly (by decide)

section Pools

/-- Where every key of the list can be resolved, each is at its place. -/
theorem wellIndexed_compile {resolve : String → Except String String} {cfg : AiCredentialPool}
    (h : ∀ c ∈ cfg.credentials, ∃ value, resolve c.value = .ok value) :
    (CredentialPool.new (compileEntries resolve cfg.credentials) cfg).WellIndexed := by
  have hmap : compileEntries resolve cfg.credentials =
      cfg.credentials.zipIdx.map fun c => ⟨c.1.header,(resolve c.1.value).toOption.getD "",c.2⟩ := by
    rw [compileEntries,← List.filterMap_eq_map]
    refine List.filterMap_congr fun c hc => ?_
    obtain ⟨value,hvalue⟩ := h c.1 (List.fst_mem_of_mem_zipIdx hc)
    rw [Function.comp_apply,hvalue]
    rfl
  intro i e he
  rw [CredentialPool.new] at he
  dsimp only at he
  rw [hmap,List.getElem?_map,List.getElem?_zipIdx,Option.map_map] at he
  obtain ⟨c,-,rfl⟩ := Option.map_eq_some_iff.mp he
  exact Nat.zero_add i

/-- A new pool keeps its keys out in all runs of lasting reports only when each key is at its
place: the others are put out under one number and looked up under another. -/
theorem keepsOut_iff_wellIndexed (entries : List PoolEntry) (cfg : AiCredentialPool) :
    (∀ calls s, (pooling (.new entries cfg)).run calls = some s → (pooling (.new entries cfg)).Along Pooling.Lasts calls → s.KeepsOut) ↔
      (CredentialPool.new entries cfg).WellIndexed := by
  constructor
  · intro h i e he
    by_contra hne
    have hlt : i < entries.length := (List.getElem?_eq_some_iff.mp he).1
    have hlasts : (pooling (.new entries cfg)).Along Pooling.Lasts [.quarantine 0 e.index (some 1)] := by
      refine System.along_of_alongFrom ⟨fun j t ht _ g hg => ?_,trivial⟩
      obtain ⟨rfl,rfl⟩ := Prod.mk.inj (Option.some.inj ht)
      obtain ⟨-,rfl⟩ := Prod.mk.inj (List.mem_singleton.mp hg)
      exact Nat.le_refl _
    have hfree : i ∈ ((CredentialPool.new entries cfg).quarantine 0 e.index (some 1)).availableIndices 0 := by
      refine CredentialPool.mem_availableIndices.mpr ⟨hlt,?_⟩
      rw [CredentialPool.isQuarantined_iff,CredentialPool.expiry_quarantine,if_neg (Ne.symm hne)]
      rintro ⟨t,ht,-⟩
      cases ht
    have hearly := h _ _ rfl hlasts 0 (Nat.le_refl 0) i hfree e he _ (List.mem_singleton_self _)
    simp [fromSecs] at hearly
  · intro hindex calls s hrun hlasts
    exact (keepsOut_iff_along hindex hrun).mpr hlasts calls [] s (List.append_nil _).symm hrun

end Pools

end Dwara.Ai
