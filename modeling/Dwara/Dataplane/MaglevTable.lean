import Mathlib.Data.Set.List
import Mathlib.Tactic.NormNum.Prime
import Dwara.Dataplane.KetamaRing
import Dwara.Lib.PrimeWalk

/-! The Maglev lookup table: how it is filled, and when filling it ends. -/

namespace Dwara.Dataplane.Balance
open Dwara.Lib

def maglevTableSize : ℕ := 65537

theorem maglevTableSize_prime : maglevTableSize.Prime := by norm_num [maglevTableSize]

/-- The identity of an endpoint, hashed from its address and port. -/
abbrev IdentityHash := String → ℕ → BitVec 64

def identityHash : IdentityHash := fun address port =>
  fnvFinish (fnvUpdate (fnvUpdate 0xcbf29ce484222325#64 address.toUTF8.toList) (bigEndian 2 port))

/-- The offset and the skip of a permutation of the table. -/
def permutation (raw : BitVec 64) : ℕ × ℕ :=
  (raw.toNat % maglevTableSize,(raw.toNat / maglevTableSize % (maglevTableSize - 1) + 1) % (maglevTableSize - 1))

def permutations (hash : IdentityHash) (eps : List LbEndpoint) : List (ℕ × ℕ) :=
  eps.map fun e => permutation (hash e.address e.port)

/-- Every endpoint as often as its weight says. -/
def weightedIndices (eps : List LbEndpoint) : List ℕ :=
  eps.zipIdx.flatMap fun p => List.replicate (max p.1.weight 1) p.2

/-- A table being filled; an empty slot is `none`. -/
structure MaglevFill where
  table : List (Option ℕ)
  cursors : ℕ → ℕ
  filled : ℕ

def MaglevFill.start : MaglevFill := ⟨List.replicate maglevTableSize none,fun _ => 0,0⟩

def MaglevFill.free (t : MaglevFill) (slot : ℕ) : Bool := t.table[slot]? = some none

/-- The table after endpoint `i` took the slot its walk stands on. -/
def MaglevFill.take (t : MaglevFill) (i offset skip cursor : ℕ) : MaglevFill where
  table := t.table.set (PrimeWalk.slotAt maglevTableSize offset skip cursor) (some i)
  cursors := fun j => if j = i then cursor + 1 else t.cursors j
  filled := t.filled + 1

/-- A turn of endpoint `i`: its walk goes on to the next empty slot, which may need more
steps than the fuel allows. -/
def MaglevFill.turn (perms : List (ℕ × ℕ)) (fuel : ℕ) (t : MaglevFill) (i : ℕ) : Option MaglevFill :=
  match perms[i]? with
  | none => none
  | some (offset,skip) => (PrimeWalk.search maglevTableSize offset skip t.free fuel (t.cursors i)).map (t.take i offset skip)

/-- A pass over the endpoints, left once the table is full. -/
def MaglevFill.pass (perms : List (ℕ × ℕ)) (fuel : ℕ) : List ℕ → MaglevFill → Option MaglevFill
  | [], t => some t
  | i :: rest, t =>
    match t.turn perms fuel i with
    | none => none
    | some t' => if maglevTableSize ≤ t'.filled then some t' else MaglevFill.pass perms fuel rest t'

/-- Passes until the table is full. -/
def MaglevFill.passes (perms : List (ℕ × ℕ)) (weighted : List ℕ) (steps : ℕ) : ℕ → MaglevFill → Option MaglevFill
  | 0, _ => none
  | fuel + 1, t =>
    if t.filled < maglevTableSize then
      match t.pass perms steps weighted with
      | none => none
      | some t' => MaglevFill.passes perms weighted steps fuel t'
    else some t

/-- The table of a set of endpoints, `none` while the fuel does not reach its end. -/
def buildMaglevTable (hash : IdentityHash) (fuel : ℕ) (eps : List LbEndpoint) : Option (List (Option ℕ)) :=
  if eps = [] then some []
  else (MaglevFill.start.passes (permutations hash eps) (weightedIndices eps) fuel fuel).map MaglevFill.table

/-- A permutation's step never reaches a whole round, so it stands still only when it is zero. -/
theorem permutation_dvd_iff (raw : BitVec 64) :
    maglevTableSize ∣ (permutation raw).2 ↔ raw.toNat / maglevTableSize % (maglevTableSize - 1) = maglevTableSize - 2 := by
  have hlt : raw.toNat / maglevTableSize % (maglevTableSize - 1) < maglevTableSize - 1 := Nat.mod_lt _ (by decide)
  have hskip : (permutation raw).2 < maglevTableSize := (Nat.mod_lt _ (by decide)).trans_le (Nat.sub_le _ _)
  have hzero : maglevTableSize ∣ (permutation raw).2 ↔ (permutation raw).2 = 0 :=
    ⟨fun h => Nat.eq_zero_of_dvd_of_lt h hskip,fun h => h ▸ Nat.dvd_zero _⟩
  rw [hzero]
  generalize hres : raw.toNat / maglevTableSize % (maglevTableSize - 1) = res at hlt
  rw [permutation,hres]
  simp only [maglevTableSize] at hlt ⊢
  omega

section Filling
variable {perms : List (ℕ × ℕ)} {t t' : MaglevFill} {fuel i : ℕ}

/-- What holds of a table while it is filled. The cursors stay small enough for the
positions to be computed in one machine word. -/
structure MaglevFill.Sound (perms : List (ℕ × ℕ)) (t : MaglevFill) : Prop where
  length : t.table.length = maglevTableSize
  count : t.table.countP Option.isSome = t.filled
  valid : ∀ i, some i ∈ t.table → i < perms.length
  cursor : ∀ i, t.cursors i ≤ t.filled * maglevTableSize

theorem MaglevFill.sound_start (perms : List (ℕ × ℕ)) : MaglevFill.start.Sound perms where
  length := List.length_replicate
  count := by
    refine List.countP_eq_zero.mpr fun slot hslot => ?_
    rw [List.eq_of_mem_replicate hslot]
    decide
  valid := fun i hi => nomatch List.eq_of_mem_replicate hi
  cursor := fun _ => Nat.zero_le _

theorem MaglevFill.Sound.filled_le (h : t.Sound perms) : t.filled ≤ maglevTableSize := by
  rw [← h.count,← h.length]
  exact List.countP_le_length

/-- A table that is not full has a free slot. -/
theorem MaglevFill.Sound.exists_free (h : t.Sound perms) (hlt : t.filled < maglevTableSize) :
    ∃ slot < maglevTableSize, t.free slot := by
  by_contra hnone
  have hall : ∀ slot ∈ t.table, slot.isSome := by
    intro slot hslot
    obtain ⟨k,hk,rfl⟩ := List.getElem_of_mem hslot
    by_contra hempty
    have hfree : t.free k := by simpa [MaglevFill.free,hk] using hempty
    exact hnone ⟨k,h.length ▸ hk,hfree⟩
  have hfull := List.countP_eq_length.mpr hall
  rw [h.count,h.length] at hfull
  exact hlt.ne hfull

theorem MaglevFill.Sound.take (h : t.Sound perms) (hi : i < perms.length) {offset skip cursor : ℕ}
    (hfree : t.free (PrimeWalk.slotAt maglevTableSize offset skip cursor))
    (hnear : cursor < t.cursors i + maglevTableSize) : (t.take i offset skip cursor).Sound perms where
  length := by rw [MaglevFill.take,List.length_set,h.length]
  count := by
    have hslot : t.table[PrimeWalk.slotAt maglevTableSize offset skip cursor]? = some none := by simpa [MaglevFill.free] using hfree
    obtain ⟨hlt,hget⟩ := List.getElem?_eq_some_iff.mp hslot
    simp [MaglevFill.take,List.countP_set hlt,hget,h.count]
  valid := by
    intro j hj
    rcases List.mem_or_eq_of_mem_set hj with hold | hnew
    · exact h.valid j hold
    · rwa [Option.some.inj hnew]
  cursor := by
    intro j
    have hold := h.cursor j
    have hmine := h.cursor i
    simp only [MaglevFill.take,Nat.add_mul,Nat.one_mul]
    split <;> omega

/-- While the table is filled the product of cursor and skip stays far from overflowing. -/
theorem MaglevFill.Sound.no_overflow (h : t.Sound perms) {offset skip : ℕ} (ho : offset < maglevTableSize)
    (hs : skip < maglevTableSize) {j : ℕ} (hj : j ≤ maglevTableSize) : offset + (t.cursors i + j) * skip < 2 ^ 64 := by
  have hcursor : t.cursors i + j ≤ maglevTableSize * maglevTableSize + maglevTableSize :=
    Nat.add_le_add ((h.cursor i).trans (Nat.mul_le_mul_right _ h.filled_le)) hj
  calc offset + (t.cursors i + j) * skip
      ≤ maglevTableSize + (maglevTableSize * maglevTableSize + maglevTableSize) * maglevTableSize :=
        Nat.add_le_add ho.le (Nat.mul_le_mul hcursor hs.le)
    _ < 2 ^ 64 := by decide

/-- A moving walk takes a slot whenever there is one. -/
theorem MaglevFill.Sound.turn (h : t.Sound perms) (hlt : t.filled < maglevTableSize) (hfuel : maglevTableSize ≤ fuel)
    (hmoves : ∀ p ∈ perms, ¬ maglevTableSize ∣ p.2) (hi : i < perms.length) :
    ∃ t', t.turn perms fuel i = some t' ∧ t'.Sound perms ∧ t'.filled = t.filled + 1 := by
  obtain ⟨slot,hslot,hfree⟩ := h.exists_free hlt
  obtain ⟨cursor,hcursor,hnear⟩ := PrimeWalk.search_finds perms[i].1 maglevTableSize_prime
    (hmoves _ (List.getElem_mem hi)) hfuel hslot hfree (t.cursors i)
  refine ⟨t.take i perms[i].1 perms[i].2 cursor,?_,h.take hi (PrimeWalk.search_some hcursor).1 hnear,rfl⟩
  rw [MaglevFill.turn,List.getElem?_eq_getElem hi]
  simp only [hcursor,Option.map_some]

/-- A pass of moving walks ends, with the table full or a slot more for every turn. -/
theorem MaglevFill.Sound.pass (hfuel : maglevTableSize ≤ fuel) (hmoves : ∀ p ∈ perms, ¬ maglevTableSize ∣ p.2)
    {weighted : List ℕ} (hw : ∀ i ∈ weighted, i < perms.length) (h : t.Sound perms) (hlt : t.filled < maglevTableSize) :
    ∃ t', t.pass perms fuel weighted = some t' ∧ t'.Sound perms ∧
      (t'.filled = maglevTableSize ∨ t'.filled = t.filled + weighted.length) := by
  induction weighted generalizing t with
  | nil => exact ⟨t,rfl,h,.inr rfl⟩
  | cons i rest ih =>
    obtain ⟨u,hturn,hu,hfilled⟩ := h.turn hlt hfuel hmoves (hw i List.mem_cons_self)
    rw [MaglevFill.pass]
    simp only [hturn]
    split
    · rename_i hfull
      exact ⟨u,rfl,hu,.inl (Nat.le_antisymm hu.filled_le hfull)⟩
    · rename_i hroom
      obtain ⟨t',hpass,ht',hcase⟩ := ih (fun j hj => hw j (List.mem_cons_of_mem i hj)) hu (Nat.lt_of_not_le hroom)
      refine ⟨t',hpass,ht',hcase.imp_right fun hrest => ?_⟩
      rw [hrest,hfilled,List.length_cons]
      omega

/-- Passes of moving walks fill the table. -/
theorem MaglevFill.Sound.passes (hsteps : maglevTableSize ≤ fuel) (hmoves : ∀ p ∈ perms, ¬ maglevTableSize ∣ p.2)
    {weighted : List ℕ} (hw : ∀ i ∈ weighted, i < perms.length) (hne : weighted ≠ []) {k : ℕ} (h : t.Sound perms)
    (hk : maglevTableSize < k + t.filled) :
    ∃ t', t.passes perms weighted fuel k = some t' ∧ t'.Sound perms ∧ t'.filled = maglevTableSize := by
  induction k generalizing t with
  | zero =>
    have hle := h.filled_le
    omega
  | succ k ih =>
    rw [MaglevFill.passes]
    split
    · rename_i hlt
      obtain ⟨u,hpass,hu,hcase⟩ := h.pass hsteps hmoves hw hlt
      have hpos := List.length_pos_of_ne_nil hne
      simp only [hpass]
      exact ih hu (by omega)
    · rename_i hfull
      exact ⟨t,rfl,h,Nat.le_antisymm h.filled_le (Nat.le_of_not_lt hfull)⟩

end Filling

section Stalling
variable {perms : List (ℕ × ℕ)} {t t' : MaglevFill} {fuel i : ℕ}

/-- A turn takes one slot and frees none, and a standing walk takes the one it stands on. -/
theorem MaglevFill.turn_some (h : t.turn perms fuel i = some t') :
    t'.filled = t.filled + 1 ∧ (∀ slot, t.free slot = false → t'.free slot = false) ∧
      ∀ p, perms[i]? = some p → maglevTableSize ∣ p.2 → t'.free (p.1 % maglevTableSize) = false := by
  rw [MaglevFill.turn] at h
  cases hperm : perms[i]? with
  | none =>
    rw [hperm] at h
    cases h
  | some p =>
    rw [hperm] at h
    obtain ⟨cursor,hsearch,rfl⟩ := Option.map_eq_some_iff.mp h
    have htaken : (t.take i p.1 p.2 cursor).free (PrimeWalk.slotAt maglevTableSize p.1 p.2 cursor) = false := by
      simp only [MaglevFill.free,MaglevFill.take,List.getElem?_set,if_true,decide_eq_false_iff_not]
      split <;> simp
    refine ⟨rfl,fun slot hslot => ?_,fun q hq hdvd => ?_⟩
    · by_cases hsame : PrimeWalk.slotAt maglevTableSize p.1 p.2 cursor = slot
      · rwa [hsame] at htaken
      · rwa [MaglevFill.free,MaglevFill.take,List.getElem?_set_ne hsame]
    · obtain rfl := Option.some.inj hq
      rwa [PrimeWalk.slotAt_of_dvd _ hdvd] at htaken

/-- A standing walk whose slot is taken never gets another. -/
theorem MaglevFill.turn_stuck {p : ℕ × ℕ} (hp : perms[i]? = some p) (hdvd : maglevTableSize ∣ p.2)
    (htaken : t.free (p.1 % maglevTableSize) = false) : t.turn perms fuel i = none := by
  rw [MaglevFill.turn,hp]
  simp only [PrimeWalk.search_stuck hdvd htaken,Option.map_none]

/-- A pass that the table has room for gives everyone a turn. -/
theorem MaglevFill.pass_some {weighted : List ℕ} (hroom : t.filled + weighted.length ≤ maglevTableSize)
    (h : t.pass perms fuel weighted = some t') :
    t'.filled = t.filled + weighted.length ∧ (∀ slot, t.free slot = false → t'.free slot = false) ∧
      ∀ i ∈ weighted, ∀ p, perms[i]? = some p → maglevTableSize ∣ p.2 → t'.free (p.1 % maglevTableSize) = false := by
  induction weighted generalizing t with
  | nil =>
    obtain rfl := Option.some.inj h
    exact ⟨rfl,fun _ hslot => hslot,nofun⟩
  | cons j rest ih =>
    rw [List.length_cons] at hroom
    rw [MaglevFill.pass] at h
    cases hturn : t.turn perms fuel j with
    | none =>
      rw [hturn] at h
      cases h
    | some u =>
      obtain ⟨hfilled,hkeeps,hstands⟩ := turn_some hturn
      have hrest : u.pass perms fuel rest = some t' := by
        simp only [hturn] at h
        split at h
        · rename_i hfull
          obtain rfl : rest = [] := List.length_eq_zero_iff.mp (by omega)
          exact h
        · exact h
      obtain ⟨hcount,hlater,hothers⟩ := ih (by omega) hrest
      refine ⟨by rw [hcount,hfilled,List.length_cons]; omega,fun slot hslot => hlater slot (hkeeps slot hslot),?_⟩
      intro i hi p hp hdvd
      rcases List.mem_cons.mp hi with rfl | hi
      · exact hlater _ (hstands p hp hdvd)
      · exact hothers i hi p hp hdvd

variable (fuel) in
theorem MaglevFill.pass_stuck {weighted : List ℕ} (hroom : t.filled + weighted.length ≤ maglevTableSize) (hi : i ∈ weighted)
    {p : ℕ × ℕ} (hp : perms[i]? = some p) (hdvd : maglevTableSize ∣ p.2) (htaken : t.free (p.1 % maglevTableSize) = false) :
    t.pass perms fuel weighted = none := by
  induction weighted generalizing t with
  | nil => cases hi
  | cons j rest ih =>
    rw [List.length_cons] at hroom
    rw [MaglevFill.pass]
    cases hturn : t.turn perms fuel j with
    | none => rfl
    | some u =>
      obtain ⟨hfilled,hkeeps,-⟩ := turn_some hturn
      have hne : i ≠ j := by
        rintro rfl
        rw [turn_stuck hp hdvd htaken] at hturn
        cases hturn
      have hrest := List.mem_of_ne_of_mem hne hi
      have hpos := List.length_pos_of_mem hrest
      simp only
      rw [if_neg (by omega)]
      exact ih (by omega) hrest (hkeeps _ htaken)

variable (fuel) in
/-- With a standing walk the passes never end, when the table has room for two of them. -/
theorem MaglevFill.passes_stuck {weighted : List ℕ} (hroom : 2 * weighted.length ≤ maglevTableSize) (hi : i ∈ weighted)
    {p : ℕ × ℕ} (hp : perms[i]? = some p) (hdvd : maglevTableSize ∣ p.2) (k : ℕ) :
    MaglevFill.start.passes perms weighted fuel k = none := by
  have hpos := List.length_pos_of_mem hi
  have hfirst : MaglevFill.start.filled + weighted.length ≤ maglevTableSize := by
    simp only [MaglevFill.start]
    omega
  cases k with
  | zero => rfl
  | succ k =>
    rw [MaglevFill.passes,if_pos (by simp only [MaglevFill.start]; omega)]
    cases hpass : MaglevFill.start.pass perms fuel weighted with
    | none => rfl
    | some u =>
      obtain ⟨hfilled,-,hstands⟩ := pass_some hfirst hpass
      have hcount : u.filled = weighted.length := by simpa [MaglevFill.start] using hfilled
      cases k with
      | zero => rfl
      | succ k =>
        have hstuck := pass_stuck fuel (by omega) hi hp hdvd (hstands i hi p hp hdvd)
        simp only [MaglevFill.passes,if_pos (show u.filled < maglevTableSize by omega),hstuck]

end Stalling

section Weights
variable {eps : List LbEndpoint}

theorem mem_weightedIndices {i : ℕ} : i ∈ weightedIndices eps ↔ i < eps.length := by
  constructor
  · intro hi
    obtain ⟨p,hp,hrep⟩ := List.mem_flatMap.mp hi
    rw [List.eq_of_mem_replicate hrep]
    exact List.snd_lt_of_mem_zipIdx hp
  · intro hi
    refine List.mem_flatMap.mpr ⟨(eps[i],i),?_,List.mem_replicate.mpr ⟨by simp,rfl⟩⟩
    exact List.mk_mem_zipIdx_iff_getElem?.mpr (List.getElem?_eq_getElem hi)

/-- The number of turns in a pass. -/
def totalWeight (eps : List LbEndpoint) : ℕ := (eps.map fun e => max e.weight 1).sum

theorem length_weightedIndices : (weightedIndices eps).length = totalWeight eps := by
  have hmap : eps.zipIdx.map (fun p => max p.1.weight 1) = eps.map fun e => max e.weight 1 := by
    calc eps.zipIdx.map (fun p => max p.1.weight 1)
        = (eps.zipIdx.map Prod.fst).map fun e => max e.weight 1 := by
          rw [List.map_map]
          rfl
      _ = eps.map fun e => max e.weight 1 := by rw [List.zipIdx_map_fst]
  rw [weightedIndices,List.length_flatMap,totalWeight,← hmap]
  simp only [List.length_replicate]

end Weights

/-- Building ends, and every slot holds the index of an endpoint. -/
def MaglevTotal (hash : IdentityHash) (eps : List LbEndpoint) : Prop :=
  ∃ (fuel : ℕ) (table : List ℕ), buildMaglevTable hash fuel eps = some (table.map some) ∧ table.length = maglevTableSize ∧
    ∀ i ∈ table, i < eps.length

/-- Every endpoint's walk visits every slot. -/
def MaglevWalks (hash : IdentityHash) (eps : List LbEndpoint) : Prop :=
  ∀ p ∈ permutations hash eps, ∀ slot < maglevTableSize, ∃ c, PrimeWalk.slotAt maglevTableSize p.1 p.2 c = slot

/-- The endpoint's hash does not leave it a skip of zero. -/
def LbEndpoint.Moves (hash : IdentityHash) (e : LbEndpoint) : Prop :=
  (hash e.address e.port).toNat / maglevTableSize % (maglevTableSize - 1) ≠ maglevTableSize - 2

section Total
variable {hash : IdentityHash} {eps : List LbEndpoint}

theorem permutations_move_iff : (∀ p ∈ permutations hash eps, ¬ maglevTableSize ∣ p.2) ↔ ∀ e ∈ eps, e.Moves hash := by
  simp only [permutations,List.forall_mem_map,permutation_dvd_iff,LbEndpoint.Moves,ne_eq]

theorem maglevWalks_iff : MaglevWalks hash eps ↔ ∀ e ∈ eps, e.Moves hash := by
  simp only [← permutations_move_iff,MaglevWalks,PrimeWalk.covers_iff _ maglevTableSize_prime]

/-- When every endpoint moves the table is built. -/
theorem maglevTotal_of_moves (hne : eps ≠ []) (hmoves : ∀ e ∈ eps, e.Moves hash) : MaglevTotal hash eps := by
  have hlen : (permutations hash eps).length = eps.length := List.length_map _
  have hw : ∀ i ∈ weightedIndices eps, i < (permutations hash eps).length := fun i hi => hlen ▸ mem_weightedIndices.mp hi
  have hwne : weightedIndices eps ≠ [] :=
    List.ne_nil_of_mem (mem_weightedIndices.mpr (List.length_pos_of_ne_nil hne))
  obtain ⟨t,hbuilt,hsound,hfull⟩ := (MaglevFill.sound_start (permutations hash eps)).passes (Nat.le_succ maglevTableSize)
    (permutations_move_iff.mpr hmoves) hw hwne (Nat.lt_succ_self maglevTableSize)
  have hall : ∀ slot ∈ t.table, slot.isSome := List.countP_eq_length.mp (by rw [hsound.count,hfull,hsound.length])
  have hrange : t.table ∈ Set.range (List.map (some : ℕ → Option ℕ)) := by
    rw [Set.range_list_map]
    exact fun slot hslot => (Option.isSome_iff_exists.mp (hall slot hslot)).imp fun _ h => h.symm
  obtain ⟨table,htable⟩ := hrange
  refine ⟨maglevTableSize + 1,table,?_,?_,fun i hi => ?_⟩
  · rw [buildMaglevTable,if_neg hne,hbuilt,Option.map_some,htable]
  · rw [← List.length_map some,htable,hsound.length]
  · rw [← hlen]
    exact hsound.valid i (htable ▸ List.mem_map_of_mem hi)

/-- With an endpoint that stands still the table is never built, when it has room for two passes. -/
theorem not_maglevTotal (hroom : 2 * totalWeight eps ≤ maglevTableSize) {e : LbEndpoint} (he : e ∈ eps) (hstands : ¬ e.Moves hash) :
    ¬ MaglevTotal hash eps := by
  rintro ⟨fuel,table,hbuilt,-,-⟩
  obtain ⟨i,hi,rfl⟩ := List.getElem_of_mem he
  have hdvd : maglevTableSize ∣ (permutation (hash eps[i].address eps[i].port)).2 :=
    (permutation_dvd_iff _).mpr (not_not.mp hstands)
  have hperm : (permutations hash eps)[i]? = some (permutation (hash eps[i].address eps[i].port)) := by
    rw [permutations,List.getElem?_map,List.getElem?_eq_getElem hi,Option.map_some]
  have hstuck := MaglevFill.passes_stuck fuel (by rwa [length_weightedIndices]) (mem_weightedIndices.mpr hi) hperm hdvd fuel
  rw [buildMaglevTable,if_neg (List.ne_nil_of_mem he),hstuck] at hbuilt
  cases hbuilt

end Total

/-- The table is built and every walk covers it exactly when no hash leaves its endpoint a
skip of zero; in a table with room for two passes, building alone already depends on it. -/
theorem maglev_total_iff (hash : IdentityHash) (eps : List LbEndpoint) (hne : eps ≠ []) :
    (MaglevTotal hash eps ∧ MaglevWalks hash eps ↔ ∀ e ∈ eps, e.Moves hash) ∧
      (2 * totalWeight eps ≤ maglevTableSize → (MaglevTotal hash eps ↔ ∀ e ∈ eps, e.Moves hash)) := by
  constructor
  · rw [maglevWalks_iff]
    exact ⟨And.right,fun hmoves => ⟨maglevTotal_of_moves hne hmoves,hmoves⟩⟩
  · intro hroom
    refine ⟨fun htotal e he => ?_,maglevTotal_of_moves hne⟩
    by_contra hstands
    exact not_maglevTotal hroom he hstands htotal

/-- An endpoint whose hash leaves it a skip of zero. -/
def standingEndpoint : LbEndpoint := ⟨"10.0.59.82",8080,1,none,none⟩

theorem standingEndpoint_stands : ¬ standingEndpoint.Moves identityHash := by
  unfold LbEndpoint.Moves
  decide +kernel

theorem standingEndpoint_unbuilt : ¬ MaglevTotal identityHash [standingEndpoint] ∧ ¬ MaglevWalks identityHash [standingEndpoint] := by
  have hmem : standingEndpoint ∈ [standingEndpoint] := List.mem_singleton_self _
  refine ⟨not_maglevTotal (by decide) hmem standingEndpoint_stands,fun hwalks => ?_⟩
  exact standingEndpoint_stands (maglevWalks_iff.mp hwalks _ hmem)

theorem maglev_total_iff_standing :
    (MaglevTotal identityHash [standingEndpoint] ∧ MaglevWalks identityHash [standingEndpoint] ↔
        ∀ e ∈ [standingEndpoint], e.Moves identityHash) ∧
      (2 * totalWeight [standingEndpoint] ≤ maglevTableSize →
        (MaglevTotal identityHash [standingEndpoint] ↔ ∀ e ∈ [standingEndpoint], e.Moves identityHash)) :=
  maglev_total_iff identityHash [standingEndpoint] (by decide)

end Dwara.Dataplane.Balance
