import Dwara.Dataplane.Balance
import Dwara.Lib.Word
import Mathlib.Algebra.Order.BigOperators.Group.List
import Mathlib.Algebra.Order.Group.Int

/-! What each algorithm picks: always one of its candidates, and any of them when the
cells it reads say so. -/

namespace Dwara.Dataplane.Balance
open Dwara.Lib

section RoundRobin
variable (weight : ℕ → ℤ)

private theorem visits_best_mem (is : List ℕ) (w : Walk) :
    (is.foldl (Walk.visit weight) w).best = w.best ∨ (is.foldl (Walk.visit weight) w).best ∈ is := by
  induction is generalizing w with
  | nil => exact .inl rfl
  | cons i is ih =>
    rcases ih (w.visit weight i) with h | h
    · rw [List.foldl_cons,h]
      by_cases hi : w.bestWeight < w.currentWeight i + weight i
      · exact .inr (by simp [Walk.visit,hi])
      · exact .inl (by simp [Walk.visit,hi])
    · exact .inr (List.mem_cons_of_mem i h)

theorem smoothWeightedRr_mem {weight : ℕ → ℤ} {currentWeight : ℕ → ℤ} {is : List ℕ} {p : ℕ × (ℕ → ℤ)}
    (h : smoothWeightedRr weight currentWeight is = .ok p) : p.1 ∈ is := by
  cases is with
  | nil => cases h
  | cons first rest =>
    have hbest : p.1 = ((first :: rest).foldl (Walk.visit weight) ⟨0,first,-2 ^ 63,currentWeight⟩).best := by
      unfold smoothWeightedRr at h
      simp only at h
      split at h
      all_goals
        cases h
        rfl
    rcases visits_best_mem weight (first :: rest) ⟨0,first,-2 ^ 63,currentWeight⟩ with hm | hm
    · rw [hbest,hm]
      exact List.mem_cons_self
    · rwa [hbest]

theorem smoothWeightedRr_ok (currentWeight : ℕ → ℤ) {is : List ℕ} (h : is ≠ []) :
    ∃ p, smoothWeightedRr weight currentWeight is = .ok p := by
  cases is with
  | nil => exact absurd rfl h
  | cons first rest =>
    unfold smoothWeightedRr
    simp only
    split
    all_goals exact ⟨_,rfl⟩

/-- Visiting indices whose new weights stay at or below `bound` leaves the rest alone. -/
private theorem visits_low {bound : ℤ} {is : List ℕ} (hn : is.Nodup) {w : Walk} (hw : w.bestWeight ≤ bound)
    (hlow : ∀ i ∈ is, w.currentWeight i + weight i ≤ bound) :
    (is.foldl (Walk.visit weight) w).bestWeight ≤ bound ∧
      ∀ j, j ∉ is → (is.foldl (Walk.visit weight) w).currentWeight j = w.currentWeight j := by
  induction is generalizing w with
  | nil => exact ⟨hw,fun _ _ => rfl⟩
  | cons i is ih =>
    obtain ⟨hi,hn⟩ := List.nodup_cons.mp hn
    have hothers : ∀ k, k ≠ i → (w.visit weight i).currentWeight k = w.currentWeight k :=
      fun k hk => Function.update_of_ne hk _ _
    obtain ⟨hbest,hrest⟩ := ih hn (w := w.visit weight i)
      (max_le hw (hlow i List.mem_cons_self)) (fun k hk => by
        rw [hothers k (fun he => hi (he ▸ hk))]
        exact hlow k (List.mem_cons_of_mem i hk))
    refine ⟨hbest,fun j hj => ?_⟩
    obtain ⟨hji,hjs⟩ := not_or.mp (mt List.mem_cons.mpr hj)
    rw [List.foldl_cons,hrest j hjs,hothers j hji]

/-- Once something heavier has been seen they do not change the best. -/
private theorem visits_keep_best (bound : ℤ) {is : List ℕ} (hn : is.Nodup) {w : Walk} (hw : bound < w.bestWeight)
    (hlow : ∀ i ∈ is, w.currentWeight i + weight i ≤ bound) : (is.foldl (Walk.visit weight) w).best = w.best := by
  induction is generalizing w with
  | nil => rfl
  | cons i is ih =>
    obtain ⟨hi,hn⟩ := List.nodup_cons.mp hn
    have hlight : ¬ w.bestWeight < w.currentWeight i + weight i := by
      have := hlow i List.mem_cons_self
      omega
    rw [List.foldl_cons,ih hn (w := w.visit weight i) (lt_of_lt_of_le hw (le_max_left _ _))]
    · simp [Walk.visit,hlight]
    · intro k hk
      have hne : k ≠ i := fun he => hi (he ▸ hk)
      simp only [Walk.visit,Function.update_of_ne hne]
      exact hlow k (List.mem_cons_of_mem i hk)

/-- The candidate that stands above all others after its weight is added is picked. -/
theorem smoothWeightedRr_heaviest (currentWeight : ℕ → ℤ) {is : List ℕ} (hn : is.Nodup) {j : ℕ} (hj : j ∈ is)
    {bound : ℤ} (hfloor : -2 ^ 63 ≤ bound) (hhigh : bound < currentWeight j + weight j)
    (hlow : ∀ i ∈ is, i ≠ j → currentWeight i + weight i ≤ bound) :
    ∃ p, smoothWeightedRr weight currentWeight is = .ok p ∧ p.1 = j := by
  obtain ⟨pre,post,rfl⟩ := List.append_of_mem hj
  have hsplit := List.nodup_append.mp hn
  obtain ⟨hjpost,hpost⟩ := List.nodup_cons.mp hsplit.2.1
  have hjpre : j ∉ pre := fun hm => hsplit.2.2 j hm j List.mem_cons_self rfl
  obtain ⟨p,hp⟩ := smoothWeightedRr_ok weight currentWeight (List.append_ne_nil_of_right_ne_nil pre (List.cons_ne_nil j post))
  refine ⟨p,hp,?_⟩
  obtain ⟨first,rest,hfirst⟩ : ∃ first rest, pre ++ j :: post = first :: rest := by
    cases pre with
    | nil => exact ⟨j,post,rfl⟩
    | cons a pre => exact ⟨a,pre ++ j :: post,rfl⟩
  have hbest : p.1 = ((pre ++ j :: post).foldl (Walk.visit weight) ⟨0,first,-2 ^ 63,currentWeight⟩).best := by
    rw [hfirst] at hp ⊢
    unfold smoothWeightedRr at hp
    simp only at hp
    split at hp
    all_goals
      cases hp
      rfl
  obtain ⟨hprebest,hprekeep⟩ := visits_low weight hsplit.1 (w := ⟨0,first,-2 ^ 63,currentWeight⟩) hfloor
    (fun i hi => hlow i (List.mem_append_left _ hi) (fun he => hjpre (he ▸ hi)))
  rw [hbest,List.foldl_append,List.foldl_cons]
  generalize hw : pre.foldl (Walk.visit weight) ⟨0,first,-2 ^ 63,currentWeight⟩ = w at hprebest hprekeep
  have hj' : w.currentWeight j = currentWeight j := hprekeep j hjpre
  have habove : w.bestWeight < w.currentWeight j + weight j := by omega
  rw [visits_keep_best weight bound hpost]
  · simp [Walk.visit,habove]
  · simp only [Walk.visit]
    exact lt_of_lt_of_le (by omega) (le_max_right _ _)
  · intro i hi
    have hne : i ≠ j := fun he => hjpost (he ▸ hi)
    have hipre : i ∉ pre := fun hm => hsplit.2.2 i hm i (List.mem_cons_of_mem j hi) rfl
    simp only [Walk.visit,Function.update_of_ne hne]
    rw [hprekeep i hipre]
    exact hlow i (List.mem_append_right _ (List.mem_cons_of_mem j hi)) hne

end RoundRobin

section Minimum
variable {f : ℕ → ℕ}

private theorem foldl_lower_mem (is : List ℕ) (i : ℕ) : is.foldl (lower f) i = i ∨ is.foldl (lower f) i ∈ is := by
  induction is generalizing i with
  | nil => exact .inl rfl
  | cons k is ih =>
    rw [List.foldl_cons]
    rcases ih (lower f i k) with h | h
    · rw [h]
      rw [lower]
      split
      · exact .inr List.mem_cons_self
      · exact .inl rfl
    · exact .inr (List.mem_cons_of_mem k h)

theorem minByKey_mem {is : List ℕ} {i : ℕ} (h : minByKey f is = some i) : i ∈ is := by
  cases is with
  | nil => cases h
  | cons k is =>
    obtain rfl := Option.some.inj h
    rcases foldl_lower_mem (f := f) is k with h | h
    · rw [h]
      exact List.mem_cons_self
    · exact List.mem_cons_of_mem k h

private theorem lower_first (i j : ℕ) :
    (f (lower f i j) < f i ∨ f (lower f i j) = f i ∧ lower f i j ≤ i) ∧
      (f (lower f i j) < f j ∨ f (lower f i j) = f j ∧ lower f i j ≤ j) := by
  rw [lower]
  split <;> omega

private theorem foldl_lower_first (is : List ℕ) (i : ℕ) : ∀ j ∈ i :: is,
    f (is.foldl (lower f) i) < f j ∨ f (is.foldl (lower f) i) = f j ∧ is.foldl (lower f) i ≤ j := by
  induction is generalizing i with
  | nil =>
    intro j hj
    obtain rfl := List.mem_singleton.mp hj
    exact .inr ⟨rfl,Nat.le_refl j⟩
  | cons k is ih =>
    have hfirst := ih (lower f i k) _ List.mem_cons_self
    obtain ⟨hi,hk⟩ := lower_first (f := f) i k
    intro j hj
    rw [List.foldl_cons]
    rcases List.mem_cons.mp hj with rfl | hj
    · omega
    rcases List.mem_cons.mp hj with rfl | hj
    · omega
    · exact ih (lower f i k) j (List.mem_cons_of_mem _ hj)

/-- The minimum has the smallest key, and of those that share it the lowest index. -/
theorem minByKey_first {is : List ℕ} {i : ℕ} (h : minByKey f is = some i) : ∀ j ∈ is, f i < f j ∨ f i = f j ∧ i ≤ j := by
  cases is with
  | nil => cases h
  | cons k is =>
    obtain rfl := Option.some.inj h
    exact foldl_lower_first is k

theorem minByKey_le {is : List ℕ} {i : ℕ} (h : minByKey f is = some i) : ∀ j ∈ is, f i ≤ f j := by
  intro j hj
  have := minByKey_first h j hj
  omega

/-- The only candidate of key zero is the minimum. -/
theorem minByKey_unique {is : List ℕ} {j : ℕ} (hj : j ∈ is) (hzero : f j = 0) (hpos : ∀ i ∈ is, i ≠ j → 0 < f i) :
    minByKey f is = some j := by
  obtain ⟨i,hi⟩ : ∃ i, minByKey f is = some i := by
    cases is with
    | nil => cases hj
    | cons k is => exact ⟨_,rfl⟩
  by_contra hne
  have hij : i ≠ j := fun he => hne (he ▸ hi)
  have := minByKey_le hi j hj
  have := hpos i (minByKey_mem hi) hij
  omega

end Minimum

section Random
variable {cells : Cells} {is : List ℕ}

theorem randomPick_mem {p : ℕ × BitVec 64} (h : randomPick cells is = .ok p) : p.1 ∈ is := by
  rw [randomPick] at h
  simp only at h
  split at h
  · cases h
  split at h
  · cases h
  split at h
  · rename_i ia ib ha hb
    have hia := List.mem_of_getElem? ha
    have hib := List.mem_of_getElem? hb
    cases h
    simp only
    split
    · exact hia
    split
    · exact hib
    · rcases min_choice ia ib with h | h
      · rwa [h]
      · rwa [h]
  · cases h

theorem randomPick_ok (cells : Cells) (htwo : 2 ≤ is.length) : ∃ p, randomPick cells is = .ok p := by
  have h0 : is.length ≠ 0 := by omega
  have h1 : is.length ≠ 1 := by omega
  have ha := Nat.mod_lt (xorshift cells.rng).toNat (show 0 < is.length by omega)
  have hb := Nat.mod_lt (xorshift (xorshift cells.rng)).toNat (show 0 < is.length - 1 by omega)
  unfold randomPick
  simp only [h0,h1,if_false,List.getElem?_eq_getElem ha]
  split
  · exact ⟨_,rfl⟩
  · rename_i hnone
    -- The second draw skips the first, and stays below the length.
    refine absurd (List.getElem?_eq_getElem (i := if (xorshift cells.rng).toNat % is.length ≤
      (xorshift (xorshift cells.rng)).toNat % (is.length - 1) then (xorshift (xorshift cells.rng)).toNat % (is.length - 1) + 1
      else (xorshift (xorshift cells.rng)).toNat % (is.length - 1)) ?_) (hnone _ _ rfl)
    split <;> omega

theorem xorshift_injective : Function.Injective xorshift := by
  have hadd : Function.Injective (fun x : BitVec 64 => x + 0x9E3779B97F4A7C15#64) := fun x y h => by simpa using h
  have hmul := WordMix.mul_injective (c := 0x2545F4914F6CDD1D#64) (d := 0x59071d96d81ecd35#64) (by decide)
  exact hmul.comp ((WordMix.xor_ushiftRight_injective (n := 27) (by decide)).comp
    ((WordMix.xor_shiftLeft_injective (n := 25) (by decide)).comp
      ((WordMix.xor_ushiftRight_injective (n := 12) (by decide)).comp hadd)))

/-- Some state of the draws makes `random-2` pick the one idle candidate. -/
theorem randomPick_idle (cells : Cells) {is : List ℕ} (hn : is.Nodup) (htwo : 2 ≤ is.length) (hlt : is.length < 2 ^ 64) {j : ℕ} (hj : j ∈ is)
    (hidle : cells.inflight j = 0) (hbusy : ∀ i ∈ is, i ≠ j → 0 < cells.inflight i) :
    ∃ rng p, randomPick { cells with rng := rng } is = .ok p ∧ p.1 = j := by
  obtain ⟨a,ha,rfl⟩ := List.getElem_of_mem hj
  obtain ⟨rng,hrng⟩ := WordMix.surjective_of_injective xorshift_injective (BitVec.ofNat 64 a)
  have hdraw : (xorshift rng).toNat % is.length = a := by
    rw [hrng,BitVec.toNat_ofNat,Nat.mod_eq_of_lt (ha.trans hlt),Nat.mod_eq_of_lt ha]
  obtain ⟨b,hb,hba,hsecond⟩ : ∃ b, b < is.length ∧ b ≠ a ∧
      (if a ≤ (xorshift (xorshift rng)).toNat % (is.length - 1) then
        (xorshift (xorshift rng)).toNat % (is.length - 1) + 1
      else (xorshift (xorshift rng)).toNat % (is.length - 1)) = b := by
    have := Nat.mod_lt (xorshift (xorshift rng)).toNat (show 0 < is.length - 1 by omega)
    split
    · exact ⟨_,by omega,by omega,rfl⟩
    · exact ⟨_,by omega,by omega,rfl⟩
  have hne : is[b] ≠ is[a] := fun he => hba ((hn.getElem_inj_iff).mp he)
  have hload : cells.inflight is[a] < cells.inflight is[b] := by
    rw [hidle]
    exact hbusy _ (List.getElem_mem hb) hne
  refine ⟨rng,(is[a],xorshift (xorshift rng)),?_,rfl⟩
  have h0 : is.length ≠ 0 := by omega
  have h1 : is.length ≠ 1 := by omega
  simp only [randomPick,h0,h1,if_false,hdraw,hsecond,List.getElem?_eq_getElem ha,List.getElem?_eq_getElem hb,hload,
    if_true]

end Random

section Hashing
variable {eligible : ℕ → Bool}

theorem ringOwner_mem {ring : List (BitVec 64 × ℕ)} {h : BitVec 64} {i : ℕ} (ho : ringOwner ring h eligible = some i) :
    eligible i ∧ ∃ v, (v,i) ∈ ring := by
  rw [ringOwner] at ho
  rcases Option.or_eq_some_iff.mp ho with ho | ⟨-,ho⟩
  · obtain ⟨p,hp,rfl⟩ := Option.map_eq_some_iff.mp ho
    have he := List.find?_some (p := fun q : BitVec 64 × ℕ => eligible q.2) hp
    exact ⟨he,p.1,(List.mem_filter.mp (List.mem_of_find?_eq_some hp)).1⟩
  · obtain ⟨p,hp,rfl⟩ := Option.map_eq_some_iff.mp ho
    have he := List.find?_some (p := fun q : BitVec 64 × ℕ => eligible q.2) hp
    exact ⟨he,p.1,List.mem_of_find?_eq_some hp⟩

theorem maglevOwner_mem {table : List ℕ} {h : BitVec 64} {filtered : Bool} {i : ℕ}
    (ho : maglevOwner table h filtered eligible = some i) : i ∈ table ∧ (filtered = true → eligible i) := by
  rw [maglevOwner] at ho
  cases filtered with
  | false => exact ⟨List.mem_of_getElem? (by simpa using ho),nofun⟩
  | true =>
    simp only [Bool.not_true,Bool.false_eq_true,if_false] at ho
    refine ⟨?_,fun _ => List.find?_some ho⟩
    rcases List.mem_append.mp (List.mem_of_find?_eq_some ho) with hm | hm
    · exact List.mem_of_mem_drop hm
    · exact List.mem_of_mem_take hm

end Hashing

section Select
variable {lb : LbState} {m : Moment} {cells : Cells} {cand : Option (List ℕ)} {key : Option String}

/-- The candidates are endpoints, in order. -/
def LbState.Narrows (lb : LbState) (cand : Option (List ℕ)) : Prop :=
  (lb.indices cand).Sublist (List.range lb.endpoints.length)

theorem LbState.Narrows.nodup (h : lb.Narrows cand) : (lb.indices cand).Nodup :=
  List.Sublist.nodup h List.nodup_range

theorem LbState.Narrows.length_lt (h : lb.Narrows cand) : (lb.indices cand).length < 2 ^ 64 := by
  have := h.length_le
  rw [List.length_range] at this
  exact this.trans_lt lb.endpoints_lt

/-- An eligible endpoint is a candidate: without filtering the candidates are all endpoints. -/
theorem LbState.Narrows.mem_of_eligible (h : lb.Narrows cand) {i : ℕ} (hi : i < lb.endpoints.length)
    (he : lb.eligible cand i) : i ∈ lb.indices cand := by
  cases cand with
  | none => exact List.mem_range.mpr hi
  | some c =>
    by_cases hf : lb.filtered (some c)
    · show i ∈ c
      simpa [eligible,hf] using he
    · have hle : (List.range lb.endpoints.length).length ≤ c.length := by
        simpa [filtered] using hf
      have hall : c = List.range lb.endpoints.length := List.Sublist.eq_of_length_le h hle
      rw [hall]
      exact List.mem_range.mpr hi

theorem roundRobin_mem {p : ℕ × Cells} (h : lb.roundRobin m cells cand = .ok p) : p.1 ∈ lb.indices cand := by
  rw [LbState.roundRobin] at h
  cases hw : smoothWeightedRr (lb.walkWeight m) cells.currentWeight (lb.indices cand) with
  | error e => simp [hw,Except.map] at h
  | ok q =>
    rw [hw] at h
    cases h
    exact smoothWeightedRr_mem hw

/-- Every algorithm picks one of the candidates. -/
theorem select_mem (hc : lb.Narrows cand) {p : Selection × Cells} (h : lb.select m cells cand key = .ok p) :
    p.1.index ∈ lb.indices cand := by
  have hround : ∀ (f : ℕ → Selection), (∀ i, (f i).index = i) →
      (lb.roundRobin m cells cand).map (fun q => (f q.1,q.2)) = .ok p → p.1.index ∈ lb.indices cand := by
    intro f hf hr
    cases hw : lb.roundRobin m cells cand with
    | error e => simp [hw,Except.map] at hr
    | ok q =>
      rw [hw] at hr
      cases hr
      rw [hf]
      exact roundRobin_mem hw
  unfold LbState.select at h
  simp only at h
  split at h
  · exact hround .selected (fun _ => rfl) h
  · split at h
    · rename_i i hi
      cases h
      exact minByKey_mem hi
    · cases h
  · cases hr : randomPick cells (lb.indices cand) with
    | error e => simp [hr,Except.map] at h
    | ok q =>
      rw [hr] at h
      cases h
      exact randomPick_mem hr
  · split at h
    · split at h
      · rename_i i hi
        cases h
        obtain ⟨he,v,hv⟩ := ringOwner_mem hi
        exact hc.mem_of_eligible (lb.ring_lt _ hv) he
      · exact hround .selected (fun _ => rfl) h
    · exact hround .selected (fun _ => rfl) h
  · split at h
    · split at h
      · exact hround .returned (fun _ => rfl) h
      · split at h
        · rename_i i hi
          cases h
          obtain ⟨hm,he⟩ := maglevOwner_mem hi
          refine hc.mem_of_eligible (lb.maglev_lt _ hm) ?_
          by_cases hf : lb.filtered cand
          · exact he hf
          · simp [LbState.eligible,hf]
        · exact hround .selected (fun _ => rfl) h
    · exact hround .selected (fun _ => rfl) h
  · split at h
    · rename_i i hi
      cases h
      exact minByKey_mem hi
    · cases h

/-- Every algorithm has an answer where there are two candidates or more. -/
theorem select_ok (m : Moment) (cells : Cells) (key : Option String) (htwo : 2 ≤ (lb.indices cand).length) :
    ∃ p, lb.select m cells cand key = .ok p := by
  have hne : lb.indices cand ≠ [] := List.ne_nil_of_length_pos (by omega)
  obtain ⟨walk,hwalk⟩ : ∃ p, smoothWeightedRr (lb.walkWeight m) cells.currentWeight (lb.indices cand) = .ok p :=
    smoothWeightedRr_ok (lb.walkWeight m) cells.currentWeight hne
  have hround : lb.roundRobin m cells cand = .ok (walk.1,{ cells with currentWeight := walk.2 }) := by
    rw [LbState.roundRobin,hwalk]
    rfl
  obtain ⟨drawn,hdrawn⟩ := randomPick_ok cells htwo
  have hmin : ∀ f, ∃ i, minByKey f (lb.indices cand) = some i := by
    intro f
    cases his : lb.indices cand with
    | nil => exact absurd his hne
    | cons i is => exact ⟨_,rfl⟩
  unfold LbState.select
  simp only [hround,hdrawn]
  split
  · exact ⟨_,rfl⟩
  · obtain ⟨i,hi⟩ := hmin cells.inflight
    exact ⟨_,by rw [hi]⟩
  · exact ⟨_,rfl⟩
  · split
    · split <;> exact ⟨_,rfl⟩
    · exact ⟨_,rfl⟩
  · split
    · split
      · exact ⟨_,rfl⟩
      · split <;> exact ⟨_,rfl⟩
    · exact ⟨_,rfl⟩
  · obtain ⟨i,hi⟩ := hmin (ewmaScore cells)
    exact ⟨_,by rw [hi]⟩

/-- Only the maglev arm returns at once, with the entry its table gives the key. -/
theorem select_returned (hpool : lb.endpoints ≠ []) {i : ℕ} {cells' : Cells}
    (h : lb.select m cells cand key = .ok (.returned i,cells')) :
    lb.algorithm = .maglev ∧ ∃ k, key = some k ∧
      maglevOwner lb.maglevTable (keyHash k) (lb.filtered cand) (lb.eligible cand) = some i := by
  have hround : (lb.roundRobin m cells cand).map (fun q => (Selection.selected q.1,q.2)) ≠ .ok (.returned i,cells') := by
    cases lb.roundRobin m cells cand with
    | error e => simp [Except.map]
    | ok q => simp [Except.map]
  unfold LbState.select at h
  simp only at h
  split at h
  · exact absurd h hround
  · split at h <;> cases h
  · cases hr : randomPick cells (lb.indices cand) <;> simp [hr,Except.map] at h
  · split at h
    · split at h
      · cases h
      · exact absurd h hround
    · exact absurd h hround
  · rename_i halg
    split at h
    · rename_i k
      simp only [lb.maglev_ne_nil halg hpool,if_false] at h
      split at h
      · rename_i j hj
        cases h
        exact ⟨halg,k,rfl,hj⟩
      · exact absurd h hround
    · exact absurd h hround
  · split at h <;> cases h

/-- With no candidate left every algorithm panics. -/
theorem select_nil (m : Moment) (cells : Cells) (key : Option String) (hpool : lb.endpoints ≠ []) (hc : lb.indices cand = []) :
    ∃ panic, lb.select m cells cand key = .error panic := by
  have hround : lb.roundRobin m cells cand = .error .outOfBounds := by
    simp [LbState.roundRobin,hc,smoothWeightedRr,Except.map]
  obtain rfl : cand = some [] := by
    cases cand with
    | none => exact absurd (List.length_eq_zero_iff.mp (List.range_eq_nil.mp hc)) hpool
    | some c => exact congrArg some hc
  have hnone : lb.eligible (some []) = fun _ => false := by
    funext i
    simp [LbState.eligible,LbState.filtered,List.length_pos_iff.mpr hpool]
  have hfiltered : lb.filtered (some []) = true := by
    simp [LbState.filtered,List.length_pos_iff.mpr hpool]
  have hring : ∀ k, ringOwner lb.ring (keyHash k) (fun _ => false) = none := by
    intro k
    simp [ringOwner]
  have hmaglev : ∀ k, maglevOwner lb.maglevTable (keyHash k) true (fun _ => false) = none := by
    intro k
    simp [maglevOwner]
  unfold LbState.select
  simp only [hround,hnone,hfiltered]
  split
  · exact ⟨_,rfl⟩
  · exact ⟨.outOfBounds,by simp [hc,minByKey]⟩
  · exact ⟨.zeroRemainder,by simp [hc,randomPick,Except.map]⟩
  · cases key with
    | none => exact ⟨_,rfl⟩
    | some k => exact ⟨.outOfBounds,by simp [hring,Except.map]⟩
  · cases key with
    | none => exact ⟨_,rfl⟩
    | some k => exact ⟨.outOfBounds,by simp [hmaglev,Except.map]⟩
  · exact ⟨.outOfBounds,by simp [hc,minByKey]⟩

theorem walkWeight_pos (lb : LbState) (m : Moment) (i : ℕ) : 1 ≤ lb.walkWeight m i := le_max_right _ _

/-- Phases that lift one candidate above the sum of all weights make round-robin pick it. -/
private theorem roundRobin_any (hc : lb.Narrows cand) {j : ℕ} (hj : j ∈ lb.indices cand) :
    ∃ cells p, lb.roundRobin m cells cand = .ok (j,p) := by
  let total := ((lb.indices cand).map (lb.walkWeight m)).sum
  let lifted : ℕ → ℤ := Function.update (fun _ => 0) j total
  have hweight : ∀ i ∈ lb.indices cand, lb.walkWeight m i ≤ total := fun i hi =>
    List.single_le_sum (fun w hw => by
      obtain ⟨k,-,rfl⟩ := List.mem_map.mp hw
      exact (by decide : (0 : ℤ) ≤ 1).trans (walkWeight_pos lb m k)) _ (List.mem_map_of_mem hi)
  have hfloor : (-2 ^ 63 : ℤ) ≤ total := by
    have h1 := hweight j hj
    have h2 := walkWeight_pos lb m j
    omega
  obtain ⟨p,hp,rfl⟩ := smoothWeightedRr_heaviest (lb.walkWeight m) lifted hc.nodup hj hfloor
    (by
      have := walkWeight_pos lb m j
      simp only [lifted,Function.update_self]
      omega)
    (fun i hi hij => by
      simp only [lifted,Function.update_of_ne hij]
      have := hweight i hi
      omega)
  let cells : Cells := ⟨fun _ => 0,lifted,fun _ => none,0⟩
  exact ⟨cells,{ cells with currentWeight := p.2 },by simp [LbState.roundRobin,cells,hp,Except.map]⟩

/-- Whatever the algorithm, some state of the cells makes a keyless pick choose a
given candidate out of several. -/
theorem select_any (hc : lb.Narrows cand) (htwo : 2 ≤ (lb.indices cand).length) {j : ℕ} (hj : j ∈ lb.indices cand) :
    ∃ cells p, lb.select m cells cand none = .ok (.selected j,p) := by
  obtain ⟨phases,p,hp⟩ := roundRobin_any (m := m) hc hj
  -- The cells in which only the endpoint named is idle and free.
  let busy : Cells := ⟨fun i => if i = j then 0 else 1,fun _ => 0,fun i => if i = j then none else some 1,0⟩
  have hidle : busy.inflight j = 0 := if_pos rfl
  have hloaded : ∀ i, i ≠ j → busy.inflight i = 1 := fun i hij => if_neg hij
  cases ha : lb.algorithm with
  | roundRobin => exact ⟨phases,p,by simp [LbState.select,ha,hp,Except.map]⟩
  | ipHash => exact ⟨phases,p,by simp [LbState.select,ha,hp,Except.map]⟩
  | maglev => exact ⟨phases,p,by simp [LbState.select,ha,hp,Except.map]⟩
  | leastRequests =>
    have hmin : minByKey busy.inflight (lb.indices cand) = some j :=
      minByKey_unique hj hidle (fun i _ hij => by
        rw [hloaded i hij]
        exact Nat.one_pos)
    exact ⟨busy,busy,by simp [LbState.select,ha,hmin]⟩
  | peakEwma =>
    have hmin : minByKey (ewmaScore busy) (lb.indices cand) = some j :=
      minByKey_unique hj (by simp [ewmaScore,busy]) (fun i _ hij => by simp [ewmaScore,busy,hij])
    exact ⟨busy,busy,by simp [LbState.select,ha,hmin]⟩
  | random =>
    obtain ⟨rng,q,hq,hqj⟩ := randomPick_idle busy hc.nodup htwo hc.length_lt hj hidle (fun i _ hij => by
      rw [hloaded i hij]
      exact Nat.one_pos)
    exact ⟨{ busy with rng := rng },{ busy with rng := q.2 },by simp [LbState.select,ha,hq,hqj,Except.map]⟩

end Select
end Dwara.Dataplane.Balance
