import Dwara.Dataplane.Balance
import Dwara.Lib.SmoothShare
import Mathlib.Data.Finset.Dedup

/-! Smooth weighted round-robin shares its picks exactly in proportion to the weights. -/

namespace Dwara.Dataplane.Balance
open Dwara.Lib

section Visits
variable (weight : ℕ → ℤ)

theorem visits_total (is : List ℕ) (w : Walk) : (is.foldl (Walk.visit weight) w).total = w.total + (is.map weight).sum := by
  induction is generalizing w with
  | nil => simp
  | cons i is ih =>
    rw [List.foldl_cons,ih,List.map_cons,List.sum_cons,Walk.visit]
    exact Int.add_assoc _ _ _

theorem visits_currentWeight {is : List ℕ} (hn : is.Nodup) (w : Walk) (j : ℕ) :
    (is.foldl (Walk.visit weight) w).currentWeight j = if j ∈ is then w.currentWeight j + weight j else w.currentWeight j := by
  induction is generalizing w with
  | nil => simp
  | cons i is ih =>
    obtain ⟨hi,hn⟩ := List.nodup_cons.mp hn
    rw [List.foldl_cons,ih hn,Walk.visit]
    by_cases hji : j = i
    · subst hji
      simp [hi]
    · simp [hji]

/-- The walk keeps the first heaviest of the endpoints it has seen. -/
theorem visits_best {is : List ℕ} (hn : is.Nodup) (w : Walk) :
    w.bestWeight ≤ (is.foldl (Walk.visit weight) w).bestWeight ∧
      (∀ j ∈ is, w.currentWeight j + weight j ≤ (is.foldl (Walk.visit weight) w).bestWeight) ∧
      (((is.foldl (Walk.visit weight) w).best = w.best ∧ (is.foldl (Walk.visit weight) w).bestWeight = w.bestWeight) ∨
        ∃ i ∈ is, (is.foldl (Walk.visit weight) w).best = i ∧
          (is.foldl (Walk.visit weight) w).bestWeight = w.currentWeight i + weight i) := by
  induction is generalizing w with
  | nil => exact ⟨Int.le_refl _,fun j hj => absurd hj List.not_mem_nil,.inl ⟨rfl,rfl⟩⟩
  | cons i is ih =>
    obtain ⟨hi,hn⟩ := List.nodup_cons.mp hn
    rw [List.foldl_cons]
    obtain ⟨hstart,hseen,hbest⟩ := ih hn (w.visit weight i)
    have hother : ∀ j ∈ is, (w.visit weight i).currentWeight j = w.currentWeight j := by
      intro j hj
      have hji : j ≠ i := fun h => hi (h ▸ hj)
      exact Function.update_of_ne hji _ _
    have hmax : (w.visit weight i).bestWeight = max w.bestWeight (w.currentWeight i + weight i) := rfl
    rw [hmax] at hstart hbest
    refine ⟨le_trans (le_max_left _ _) hstart,?_,?_⟩
    · intro j hj
      rcases List.mem_cons.mp hj with rfl | hj
      · exact le_trans (le_max_right _ _) hstart
      · have hle := hseen j hj
        rwa [hother j hj] at hle
    · rcases hbest with ⟨hb,hw⟩ | ⟨j,hj,hb,hw⟩
      · by_cases hlt : w.bestWeight < w.currentWeight i + weight i
        · refine .inr ⟨i,List.mem_cons_self,?_,by rw [hw,max_eq_right (Int.le_of_lt hlt)]⟩
          rw [hb,Walk.visit]
          exact if_pos hlt
        · refine .inl ⟨?_,by rw [hw,max_eq_left (Int.not_lt.mp hlt)]⟩
          rw [hb,Walk.visit]
          exact if_neg hlt
      · exact .inr ⟨j,List.mem_cons_of_mem _ hj,hb,by rw [hw,hother j hj]⟩

end Visits

section Turns
variable {w : ℕ → ℤ} {is : List ℕ} {c : ℕ → ℤ}

theorem sum_map_eq_total (hn : is.Nodup) : (is.map w).sum = SmoothShare.total is.toFinset w := by
  rw [SmoothShare.total,List.sum_toFinset _ hn]

/-- A pick is one fair turn. -/
theorem smoothWeightedRr_turn (hn : is.Nodup) (hne : is ≠ []) (hw : ∀ i ∈ is, 0 < w i)
    (hb : SmoothShare.Balanced is.toFinset w c) :
    ∃ i, SmoothShare.Heaviest is.toFinset w c i ∧ smoothWeightedRr w c is = .ok (i,SmoothShare.turn is.toFinset w c i) := by
  obtain ⟨first,rest,rfl⟩ := List.exists_cons_of_ne_nil hne
  have hw' : ∀ i ∈ (first :: rest).toFinset, 0 < w i := fun i hi => hw i (List.mem_toFinset.mp hi)
  have hne' : (first :: rest).toFinset.Nonempty := ⟨first,by simp⟩
  obtain ⟨-,hseen,hbest⟩ := visits_best w hn ⟨0,first,-2 ^ 63,c⟩
  have htotal := visits_total w (first :: rest) ⟨0,first,-2 ^ 63,c⟩
  have hcurrent := visits_currentWeight w hn ⟨0,first,-2 ^ 63,c⟩
  rw [Int.zero_add,sum_map_eq_total hn] at htotal
  rw [smoothWeightedRr]
  generalize (first :: rest).foldl (Walk.visit w) ⟨0,first,-2 ^ 63,c⟩ = walk at *
  have hpos : 0 < SmoothShare.total (first :: rest).toFinset w := Finset.sum_pos hw' hne'
  obtain ⟨j,hj,hjpos⟩ := hb.exists_pos hne' hw'
  have hpick : ∃ i ∈ first :: rest, walk.best = i ∧ walk.bestWeight = c i + w i := by
    rcases hbest with ⟨-,hlow⟩ | hpick
    · have hle := hseen j (List.mem_toFinset.mp hj)
      simp only at hlow hle
      omega
    · exact hpick
  obtain ⟨i,hi,rfl,hweight⟩ := hpick
  refine ⟨walk.best,⟨List.mem_toFinset.mpr hi,fun k hk => ?_⟩,?_⟩
  · rw [← hweight]
    exact hseen k (List.mem_toFinset.mp hk)
  · simp only [htotal]
    rw [if_neg (by omega)]
    congr 2
    funext k
    by_cases hk : k ∈ first :: rest
    · rw [SmoothShare.turn_mem (List.mem_toFinset.mpr hk)]
      by_cases hkb : k = walk.best
      · rw [hkb,Function.update_self,hcurrent,if_pos hi,if_pos rfl]
      · rw [Function.update_of_ne hkb,hcurrent,if_pos hk,if_neg hkb,Int.sub_zero]
    · have hkb : k ≠ walk.best := fun h => hk (h ▸ hi)
      rw [SmoothShare.turn_not_mem (fun h => hk (List.mem_toFinset.mp h)),Function.update_of_ne hkb,hcurrent,if_neg hk]

/-- Picks in a row: what they selected and the weights they leave. -/
def spin (w : ℕ → ℤ) (is : List ℕ) : ℕ → (ℕ → ℤ) → Except Panic (List ℕ × (ℕ → ℤ))
  | 0, c => .ok ([],c)
  | n + 1, c =>
    match smoothWeightedRr w c is with
    | .error panic => .error panic
    | .ok (i,c) =>
      match spin w is n c with
      | .error panic => .error panic
      | .ok (picks,c) => .ok (i :: picks,c)

theorem spin_add {n k : ℕ} {xs ys : List ℕ} {c c₁ c₂ : ℕ → ℤ} (hx : spin w is n c = .ok (xs,c₁))
    (hy : spin w is k c₁ = .ok (ys,c₂)) : spin w is (n + k) c = .ok (xs ++ ys,c₂) := by
  induction n generalizing c xs with
  | zero =>
    cases hx
    rw [Nat.zero_add]
    exact hy
  | succ n ih =>
    rw [Nat.succ_add,spin]
    rw [spin] at hx
    split at hx
    · cases hx
    · split at hx
      · cases hx
      · rename_i i c' hstep picks c'' hrest
        cases hx
        rw [ih hrest]
        rfl

/-- Picks in a row are fair turns. -/
theorem spin_fair (hn : is.Nodup) (hne : is ≠ []) (hw : ∀ i ∈ is, 0 < w i) (hb : SmoothShare.Balanced is.toFinset w c) (n : ℕ) :
    ∃ picks, spin w is n c = .ok (picks,SmoothShare.after is.toFinset w c picks) ∧ picks.length = n ∧
      SmoothShare.Fair is.toFinset w c picks := by
  induction n generalizing c with
  | zero => exact ⟨[],rfl,rfl,trivial⟩
  | succ n ih =>
    obtain ⟨i,hi,hstep⟩ := smoothWeightedRr_turn hn hne hw hb
    have hw' : ∀ i ∈ is.toFinset, 0 < w i := fun i hi => hw i (List.mem_toFinset.mp hi)
    obtain ⟨picks,hspin,hlen,hfair⟩ := ih (hb.turn hw' hi)
    refine ⟨i :: picks,?_,by rw [List.length_cons,hlen],hi,hfair⟩
    rw [spin,hstep]
    simp only [hspin]
    rfl

/-- Any `W` picks in a row after any number of picks from the start give everyone their weight. -/
theorem spin_window (hn : is.Nodup) (hne : is ≠ []) (hw : ∀ i ∈ is, 0 < w i) (n k : ℕ) (hk : (k : ℤ) = (is.map w).sum) :
    ∃ xs ys c', spin w is n (fun _ => 0) = .ok (xs,c') ∧ spin w is k c' = .ok (ys,c') ∧ ∀ i ∈ is, (ys.count i : ℤ) = w i := by
  have hw' : ∀ i ∈ is.toFinset, 0 < w i := fun i hi => hw i (List.mem_toFinset.mp hi)
  obtain ⟨first,hfirst⟩ := List.exists_mem_of_ne_nil is hne
  have hne' : is.toFinset.Nonempty := ⟨first,List.mem_toFinset.mpr hfirst⟩
  have hb := SmoothShare.balanced_zero hne' hw' (fun _ _ => rfl : ∀ i ∈ is.toFinset, (fun _ => 0 : ℕ → ℤ) i = 0)
  rw [sum_map_eq_total hn] at hk
  -- the first round brings the weights back to zero, so that the picks repeat after it
  obtain ⟨zs,hzs,hlen,hfair⟩ := spin_fair hn hne hw hb k
  have hround := SmoothShare.full_round hw' (fun _ _ => rfl) hne' hfair (by rw [hlen]; exact hk)
  have hback : SmoothShare.after is.toFinset w (fun _ => 0) zs = fun _ => 0 := by
    funext j
    by_cases hj : j ∈ is.toFinset
    · exact (hround j hj).2
    · exact SmoothShare.after_not_mem hj zs
  rw [hback] at hzs
  obtain ⟨xs,hxs,-,hfair'⟩ := spin_fair hn hne hw hb n
  obtain ⟨ys,hys,-,-⟩ := spin_fair hn hne hw (hb.after hw' hfair') k
  have htwice := (spin_add hxs hys).symm.trans ((congrArg (spin w is · fun _ => 0) (Nat.add_comm n k)).trans (spin_add hzs hxs))
  rw [Except.ok.injEq,Prod.mk.injEq] at htwice
  refine ⟨xs,ys,_,hxs,by rw [hys,htwice.2],?_⟩
  intro i hi
  have hcount := congrArg (List.count i) htwice.1
  rw [List.count_append,List.count_append] at hcount
  have hshare := (hround i (List.mem_toFinset.mpr hi)).1
  omega

end Turns

namespace LbState
variable (lb : LbState)

/-- No endpoint is ramping up, neither since it entered the set nor since it recovered. -/
def Settled (m : Moment) : Prop := (∀ i, lb.slowStartMs ≤ m.enteredAgoMs i) ∧ ∀ i w, m.rampedWeight i w = w

/-- Sequential round-robin picks, each at its moment. -/
def rounds (cand : Option (List ℕ)) : List Moment → Cells → Except Panic (List ℕ × Cells)
  | [], cells => .ok ([],cells)
  | m :: ms, cells =>
    match lb.roundRobin m cells cand with
    | .error panic => .error panic
    | .ok (i,cells) =>
      match rounds cand ms cells with
      | .error panic => .error panic
      | .ok (picks,cells) => .ok (i :: picks,cells)

/-- The configured weight of an endpoint, at least one. -/
def settledWeight (i : ℕ) : ℤ := max ((lb.endpoints[i]?.map fun e => (e.weight : ℤ)).getD 1) 1

variable {lb}

theorem walkWeight_settled {m : Moment} (h : lb.Settled m) : lb.walkWeight m = lb.settledWeight := by
  funext i
  have hweight : lb.effectiveWeight m i = fun e => (e.weight : ℤ) := by
    funext e
    rw [effectiveWeight,if_pos (h.1 i),ite_self]
  rw [walkWeight,settledWeight,hweight]
  simp only [h.2,ite_self]

theorem rounds_settled (cand : Option (List ℕ)) {ms : List Moment} (h : ∀ m ∈ ms, lb.Settled m) (cells : Cells) :
    lb.rounds cand ms cells =
      (spin lb.settledWeight (lb.indices cand) ms.length cells.currentWeight).map fun p => (p.1,{ cells with currentWeight := p.2 }) := by
  induction ms generalizing cells with
  | nil => rfl
  | cons m ms ih =>
    rw [rounds,roundRobin,walkWeight_settled (h m List.mem_cons_self),List.length_cons,spin]
    cases smoothWeightedRr lb.settledWeight cells.currentWeight (lb.indices cand) with
    | error panic => rfl
    | ok p =>
      simp only [Except.map,ih fun m hm => h m (List.mem_cons_of_mem _ hm)]
      cases spin lb.settledWeight (lb.indices cand) ms.length p.2 with
      | error panic => rfl
      | ok q => rfl

theorem settledWeight_eq (hpos : ∀ e ∈ lb.endpoints, 1 ≤ e.weight) (i : ℕ) (e : LbEndpoint) (hi : lb.endpoints[i]? = some e) :
    lb.settledWeight i = e.weight := by
  have hone : (1 : ℤ) ≤ e.weight := by exact_mod_cast hpos e (List.mem_of_getElem? hi)
  rw [settledWeight,hi]
  exact max_eq_left hone

theorem sum_settledWeight (hpos : ∀ e ∈ lb.endpoints, 1 ≤ e.weight) :
    (((lb.endpoints.map (·.weight)).sum : ℕ) : ℤ) = ((lb.indices none).map lb.settledWeight).sum := by
  have hmap : (lb.indices none).map lb.settledWeight = lb.endpoints.map fun e => (e.weight : ℤ) := by
    apply List.ext_getElem
    · simp [indices]
    · intro i hi hi'
      rw [List.length_map] at hi'
      rw [List.getElem_map,List.getElem_map]
      simp only [indices,Option.getD_none,List.getElem_range]
      exact settledWeight_eq hpos i lb.endpoints[i] (List.getElem?_eq_getElem hi')
  rw [hmap]
  induction lb.endpoints with
  | nil => rfl
  | cons e es ih => simp [ih]

/-- Over any window of as many sequential picks as the total weight, at any point after the
start, every endpoint is picked exactly its weight many times, and the current weights
come back to what they were. -/
theorem rounds_share_exactly (lb : LbState) (hne : lb.endpoints ≠ []) (hpos : ∀ e ∈ lb.endpoints, 1 ≤ e.weight) (cells : Cells)
    (hzero : cells.currentWeight = fun _ => 0) (before window : List Moment) (hsettled : ∀ m ∈ before ++ window, lb.Settled m)
    (hlen : window.length = (lb.endpoints.map (·.weight)).sum) :
    ∃ xs ys cells', lb.rounds none before cells = .ok (xs,cells') ∧ lb.rounds none window cells' = .ok (ys,cells') ∧
      ∀ i e, lb.endpoints[i]? = some e → ys.count i = e.weight := by
  have hn : (lb.indices none).Nodup := List.nodup_range
  have hindices : lb.indices none ≠ [] := by
    rw [indices,Option.getD_none,ne_eq,List.range_eq_nil,List.length_eq_zero_iff]
    exact hne
  have hweight := settledWeight_eq hpos
  have hw : ∀ i ∈ lb.indices none, 0 < lb.settledWeight i := fun i _ => Int.lt_of_lt_of_le Int.one_pos (le_max_right _ _)
  obtain ⟨xs,ys,c,hxs,hys,hshare⟩ := spin_window hn hindices hw before.length window.length (by
    rw [hlen]
    exact sum_settledWeight hpos)
  refine ⟨xs,ys,{ cells with currentWeight := c },?_,?_,?_⟩
  · rw [rounds_settled none (fun m hm => hsettled m (List.mem_append_left _ hm)),hzero,hxs]
    rfl
  · rw [rounds_settled none (fun m hm => hsettled m (List.mem_append_right _ hm)),hys]
    rfl
  · intro i e hi
    have hmem : i ∈ lb.indices none := List.mem_range.mpr (List.getElem?_eq_some_iff.mp hi).1
    have hcount := hshare i hmem
    rw [hweight i e hi] at hcount
    exact_mod_cast hcount

/-- Three endpoints of weights five, one and two. -/
def fiveOneTwo : LbState where
  endpoints := [⟨"a",80,5,none,none⟩,⟨"b",80,1,none,none⟩,⟨"c",80,2,none,none⟩]
  algorithm := .roundRobin
  slowStartMs := 0
  ring := []
  maglevTable := []
  health := none
  locality := none
  endpoints_lt := by decide
  ring_sorted := emptyRing_sorted
  ring_lt := nofun
  maglev_lt := nofun
  maglev_ne_nil := nofun

def settledMoment : Moment := ⟨0,fun _ => 0,fun _ w => w⟩

def freshCells : Cells := ⟨fun _ => 0,fun _ => 0,fun _ => none,0#64⟩

theorem settled_settledMoment {m : Moment} {k : ℕ} (h : m ∈ List.replicate k settledMoment) : fiveOneTwo.Settled m := by
  obtain rfl := List.eq_of_mem_replicate h
  exact ⟨fun _ => Nat.le_refl 0,fun _ _ => rfl⟩

theorem rounds_share_exactly_fiveOneTwo :
    ∃ xs ys cells', fiveOneTwo.rounds none (List.replicate 3 settledMoment) freshCells = .ok (xs,cells') ∧
      fiveOneTwo.rounds none (List.replicate 8 settledMoment) cells' = .ok (ys,cells') ∧
      ∀ i e, fiveOneTwo.endpoints[i]? = some e → ys.count i = e.weight :=
  rounds_share_exactly fiveOneTwo (by decide) (by decide) freshCells rfl _ _
    (fun _ hm => (List.mem_append.mp hm).elim settled_settledMoment settled_settledMoment) rfl

end LbState

end Dwara.Dataplane.Balance
