import Dwara.Dataplane.Balance
import Dwara.Lib.Ranges

/-! The weighted split of a service, and what of its hash slots a change of the weights moves. -/

namespace Dwara.Dataplane.Split
open Dwara.Lib Dwara.Lib.Ranges
open Dwara.Dataplane.Balance (keyHash)
variable {α : Type*}

section Pick

/-- A compiled target. Its slots end at the cumulative weight through it. -/
structure SplitEntry (α : Type*) where
  handle : α
  weight : ℕ
  bound : ℕ

/-- The entries and the sum of their weights, which validation keeps at 100000 or less. -/
structure ServiceSplit (α : Type*) where
  entries : List (SplitEntry α)
  total : ℕ

namespace ServiceSplit

def push (split : ServiceSplit α) (target : α × ℕ) : ServiceSplit α :=
  let total := split.total + target.2
  ⟨split.entries ++ [⟨target.1,target.2,total⟩],total⟩

def new (targets : List (α × ℕ)) : ServiceSplit α := targets.foldl push ⟨[],0⟩

/-- The entry whose cumulative bound first exceeds the slot, and its index. -/
def pickSlot (split : ServiceSplit α) (slot : ℕ) : Option (α × ℕ) :=
  match split.entries.zipIdx.find? fun e => slot < e.1.bound with
  | some (e,i) => some (e.handle,i)
  | none => split.entries.head?.map fun e => (e.handle,0)

/-- There is no remainder by a total of zero. -/
def pickWithIndex (split : ServiceSplit α) (key : String) : Option (α × ℕ) :=
  if split.total = 0 then none else split.pickSlot ((keyHash key).toNat % split.total)

def pick (split : ServiceSplit α) (key : String) : Option α :=
  if split.total = 0 then none
  else
    match split.entries.find? fun e => (keyHash key).toNat % split.total < e.bound with
    | some e => some e.handle
    | none => split.entries.head?.map (·.handle)

end ServiceSplit

/-- Both picks walk the entries alike. -/
theorem find_zipIdx_fst (p : SplitEntry α → Bool) (entries : List (SplitEntry α)) (n : ℕ) :
    ((entries.zipIdx n).find? fun e => p e.1).map Prod.fst = entries.find? p := by
  induction entries generalizing n with
  | nil => rfl
  | cons e entries ih =>
    rw [List.zipIdx_cons,List.find?_cons,List.find?_cons]
    cases p e with
    | true => rfl
    | false => exact ih (n + 1)

theorem pick_eq (split : ServiceSplit α) (key : String) : split.pick key = (split.pickWithIndex key).map Prod.fst := by
  rw [ServiceSplit.pick,ServiceSplit.pickWithIndex]
  split
  · rfl
  · rw [← find_zipIdx_fst _ split.entries 0,ServiceSplit.pickSlot]
    cases split.entries.zipIdx.find? fun e => decide ((keyHash key).toNat % split.total < e.1.bound) with
    | none => cases split.entries.head? <;> rfl
    | some e => rfl

end Pick

section Compile

def weights (targets : List (α × ℕ)) : List ℕ := targets.map Prod.snd

/-- The entries of targets behind a total. -/
def entriesFrom : ℕ → List (α × ℕ) → List (SplitEntry α)
  | _, [] => []
  | total, target :: targets => ⟨target.1,target.2,total + target.2⟩ :: entriesFrom (total + target.2) targets

theorem foldl_push (split : ServiceSplit α) (targets : List (α × ℕ)) :
    targets.foldl ServiceSplit.push split = ⟨split.entries ++ entriesFrom split.total targets,split.total + (weights targets).sum⟩ := by
  induction targets generalizing split with
  | nil => simp [entriesFrom,weights]
  | cons target targets ih =>
    rw [List.foldl_cons,ih]
    simp [ServiceSplit.push,entriesFrom,weights,Nat.add_assoc]

theorem new_eq (targets : List (α × ℕ)) : ServiceSplit.new targets = ⟨entriesFrom 0 targets,(weights targets).sum⟩ := by
  rw [ServiceSplit.new,foldl_push,List.nil_append,Nat.zero_add]

theorem entriesFrom_handle (total : ℕ) (targets : List (α × ℕ)) (i : ℕ) :
    ((entriesFrom total targets)[i]?).map (·.handle) = (targets[i]?).map Prod.fst := by
  induction targets generalizing total i with
  | nil => rfl
  | cons target targets ih =>
    cases i with
    | zero => rfl
    | succ i => exact ih _ i

/-- The first bound beyond a slot is that of the range the slot falls in. -/
theorem find_entriesFrom {total slot : ℕ} (hle : total ≤ slot) (targets : List (α × ℕ)) (n : ℕ) :
    ((entriesFrom total targets).zipIdx n).find? (fun e => slot < e.1.bound) =
      (owner (weights targets) (slot - total)).bind fun i => ((entriesFrom total targets)[i]?).map fun e => (e,n + i) := by
  induction targets generalizing total n with
  | nil => rfl
  | cons target targets ih =>
    rw [entriesFrom,weights,List.map_cons,List.zipIdx_cons,List.find?_cons,owner]
    by_cases hfirst : slot < total + target.2
    · rw [if_pos (by omega)]
      simp [hfirst]
    · rw [if_neg (by omega)]
      simp only [hfirst,decide_false]
      rw [ih (by omega),← weights,Nat.sub_sub]
      cases owner (weights targets) (slot - (total + target.2)) with
      | none => rfl
      | some i => simp [Nat.add_assoc,Nat.add_comm 1 i]

/-- A slot goes to the target in whose range it falls. -/
theorem pickSlot_new {targets : List (α × ℕ)} {slot : ℕ} (hslot : slot < (weights targets).sum) :
    (ServiceSplit.new targets).pickSlot slot = (owner (weights targets) slot).bind fun i => (targets[i]?).map fun target => (target.1,i) := by
  obtain ⟨i,hi⟩ := exists_owner hslot
  have hlength : i < targets.length := by simpa [weights] using (owner_eq_some_iff.mp hi).1
  have hhandle := entriesFrom_handle 0 targets i
  rw [List.getElem?_eq_getElem hlength] at hhandle
  obtain ⟨e,he,hfst⟩ := Option.map_eq_some_iff.mp hhandle
  rw [ServiceSplit.pickSlot,new_eq,find_entriesFrom (Nat.zero_le slot),Nat.sub_zero,hi]
  simp [he,List.getElem?_eq_getElem hlength,hfst]

theorem pickSlot_index {targets : List (α × ℕ)} {slot : ℕ} (hslot : slot < (weights targets).sum) :
    ((ServiceSplit.new targets).pickSlot slot).map Prod.snd = owner (weights targets) slot := by
  obtain ⟨i,hi⟩ := exists_owner hslot
  have hlength : i < targets.length := by simpa [weights] using (owner_eq_some_iff.mp hi).1
  rw [pickSlot_new hslot,hi,Option.bind_some,List.getElem?_eq_getElem hlength]
  rfl

/-- A key is picked for the target in whose range its slot falls. -/
theorem pickWithIndex_index {targets : List (α × ℕ)} {key : String} {i : ℕ}
    (h : ((ServiceSplit.new targets).pickWithIndex key).map Prod.snd = some i) :
    owner (weights targets) ((keyHash key).toNat % (weights targets).sum) = some i := by
  have htotal : (ServiceSplit.new targets).total = (weights targets).sum := by rw [new_eq]
  rw [ServiceSplit.pickWithIndex,htotal] at h
  split at h
  · cases h
  · rename_i hpositive
    rwa [pickSlot_index (Nat.mod_lt _ (Nat.pos_of_ne_zero hpositive))] at h

end Compile

section Shares

/-- The slots that go to a target. -/
def slotsOf (targets : List (α × ℕ)) (i : ℕ) : Finset ℕ :=
  (Finset.range (ServiceSplit.new targets).total).filter fun slot => ((ServiceSplit.new targets).pickSlot slot).map Prod.snd = some i

/-- Every target has as many slots as its weight, and no key goes to one of weight zero. -/
structure Shares (targets : List (α × ℕ)) : Prop where
  share : ∀ i < targets.length, (slotsOf targets i).card = size (weights targets) i
  parked : ∀ i, size (weights targets) i = 0 → ∀ key, ((ServiceSplit.new targets).pickWithIndex key).map Prod.snd ≠ some i

theorem shares (targets : List (α × ℕ)) : Shares targets := by
  refine ⟨fun i hi => ?_,fun i hzero key hpick => ?_⟩
  · have hslots : slotsOf targets i = (Finset.range (weights targets).sum).filter fun slot => owner (weights targets) slot = some i := by
      have htotal : (ServiceSplit.new targets).total = (weights targets).sum := by rw [new_eq]
      rw [slotsOf,htotal]
      refine Finset.filter_congr fun slot hslot => ?_
      rw [pickSlot_index (Finset.mem_range.mp hslot)]
    rw [hslots,card_owner (by simpa [weights] using hi)]
  · obtain ⟨-,hfrom,hto⟩ := owner_eq_some_iff.mp (pickWithIndex_index hpick)
    rw [start_succ,hzero] at hto
    omega

end Shares

section Rebalance

/-- Targets with a weight before and a weight after. -/
structure Rebalance (α : Type*) where
  targets : List (α × ℕ × ℕ)
  same_total : (targets.map fun t => t.2.1).sum = (targets.map fun t => t.2.2).sum
  positive : ∃ t ∈ targets, 0 < t.2.1

namespace Rebalance
variable (r : Rebalance α)

def before : List (α × ℕ) := r.targets.map fun t => (t.1,t.2.1)

def after : List (α × ℕ) := r.targets.map fun t => (t.1,t.2.2)

/-- The slots whose target changes. -/
def movedSlots : Finset ℕ :=
  (Finset.range (ServiceSplit.new r.before).total).filter fun slot =>
    ((ServiceSplit.new r.before).pickSlot slot).map Prod.snd ≠ ((ServiceSplit.new r.after).pickSlot slot).map Prod.snd

def increases : ℕ := (r.targets.map fun t => t.2.2 - t.2.1).sum

theorem weights_before : weights r.before = r.targets.map fun t => t.2.1 := by rw [weights,before,List.map_map]; rfl

theorem weights_after : weights r.after = r.targets.map fun t => t.2.2 := by rw [weights,after,List.map_map]; rfl

theorem length_weights : (weights r.before).length = (weights r.after).length := by
  rw [weights_before,weights_after,List.length_map,List.length_map]

theorem sum_weights : (weights r.before).sum = (weights r.after).sum := by
  rw [weights_before,weights_after]
  exact r.same_total

theorem movedSlots_eq : r.movedSlots = moved (weights r.before) (weights r.after) := by
  have htotal : (ServiceSplit.new r.before).total = (weights r.before).sum := by rw [new_eq]
  rw [movedSlots,moved,htotal]
  refine Finset.filter_congr fun slot hslot => ?_
  have hlt := Finset.mem_range.mp hslot
  rw [pickSlot_index hlt,pickSlot_index (r.sum_weights ▸ hlt)]

theorem sum_sizes (f : ℕ → ℕ → ℕ) :
    ∑ i ∈ Finset.range (weights r.before).length, f (size (weights r.before) i) (size (weights r.after) i) =
      (r.targets.map fun t => f t.2.1 t.2.2).sum := by
  rw [weights_before,weights_after,List.length_map]
  induction r.targets with
  | nil => rfl
  | cons t targets ih =>
    simp only [List.map_cons]
    rw [List.sum_cons,← ih,List.length_cons,Finset.sum_range_succ',Nat.add_comm]
    rfl

theorem increases_eq : r.increases = Ranges.increases (weights r.before) (weights r.after) :=
  (r.sum_sizes fun old new => new - old).symm

/-- For every target with a weight before and after, its slots before and after are one within the other. -/
def Nested : Prop := ∀ i < r.targets.length, Ranges.Nested (weights r.before) (weights r.after) i

/-- No fewer slots move than the weights grow by. -/
theorem increases_le_movedSlots : r.increases ≤ r.movedSlots.card := by
  rw [movedSlots_eq,increases_eq]
  exact increases_le_card_moved r.length_weights r.sum_weights

/-- Just the changed share of the slots moves, and each split has its shares, just where no target's slots slide
off themselves. -/
theorem rebalance_iff : (r.movedSlots.card = r.increases ∧ Shares r.before ∧ Shares r.after) ↔ r.Nested := by
  have hlength : (weights r.before).length = r.targets.length := by rw [weights_before,List.length_map]
  rw [movedSlots_eq,increases_eq,card_moved_eq_iff r.length_weights r.sum_weights,hlength,Nested]
  exact and_iff_left ⟨shares r.before,shares r.after⟩

/-- What the weights grow by is half of all that they change. -/
theorem two_mul_increases : 2 * r.increases = (r.targets.map fun t => ((t.2.2 : ℤ) - t.2.1).natAbs).sum := by
  rw [increases_eq,Ranges.two_mul_increases r.length_weights r.sum_weights]
  exact r.sum_sizes fun old new => ((new : ℤ) - old).natAbs

/-- With two targets it is always so: the first starts where it did and the second ends there. -/
theorem nested_of_two (h : r.targets.length = 2) : r.Nested := by
  have hbefore : (weights r.before).length = 2 := by rw [weights_before,List.length_map,h]
  have hafter : (weights r.after).length = 2 := by rw [← length_weights,hbefore]
  intro i hi
  rcases (show i = 0 ∨ i = 1 by omega) with rfl | rfl
  · exact nested_of_start_eq rfl
  · have hend := start_length (weights r.before)
    have hend' := start_length (weights r.after)
    rw [hbefore] at hend
    rw [hafter] at hend'
    exact nested_of_start_succ_eq (hend.trans (r.sum_weights.trans hend'.symm))

end Rebalance

/-- A quarter goes from the first target to the last, over one between them. -/
def ramp : Rebalance String := ⟨[("stable",2,1),("beta",1,1),("canary",1,2)],by decide,("stable",2,1),by decide,by decide⟩

theorem ramp_moves_more : ¬ ∀ r : Rebalance String, r.movedSlots.card = r.increases ∧ Shares r.before ∧ Shares r.after := by
  intro h
  have hmoved : ramp.movedSlots.card = ramp.increases := (h ramp).1
  rw [ramp.movedSlots_eq] at hmoved
  exact absurd hmoved (by decide)

end Rebalance
end Dwara.Dataplane.Split
