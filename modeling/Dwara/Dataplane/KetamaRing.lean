import Dwara.Dataplane.BalanceChoose
import Dwara.Lib.SuccessorMap

/-! The consistent-hash ring: how it is built, and how little a new endpoint disturbs it. -/

namespace Dwara.Dataplane.Balance
open Dwara.Lib

def ketamaVnodes : ℕ := 160

/-- The number of positions of an endpoint on the ring. -/
def LbEndpoint.vnodes (e : LbEndpoint) : ℕ := max (ketamaVnodes * max e.weight 1) 1

/-- The position of the `v`th vnode of an endpoint, which its weight has no part in. -/
abbrev VnodeHash := String → ℕ → ℕ → BitVec 64

def bigEndian (bytes n : ℕ) : List UInt8 := ((List.range bytes).reverse).map fun i => UInt8.ofNat (n / 256 ^ i)

/-- The hash the ring is built with: address, port and vnode number. -/
def vnodeHash : VnodeHash := fun address port v =>
  fnvFinish (fnvUpdate (fnvUpdate (fnvUpdate 0xcbf29ce484222325#64 address.toUTF8.toList) (bigEndian 2 port)) (bigEndian 8 v))

/-- The writes of one endpoint into the ring. -/
def LbEndpoint.vnodeWrites (hash : VnodeHash) (i : ℕ) (e : LbEndpoint) : List (BitVec 64 × ℕ) :=
  (List.range e.vnodes).map fun v => (hash e.address e.port v,i)

/-- The writes of endpoints numbered from `i` on. -/
def ringWrites (hash : VnodeHash) : ℕ → List LbEndpoint → List (BitVec 64 × ℕ)
  | _, [] => []
  | i, e :: rest => e.vnodeWrites hash i ++ ringWrites hash (i + 1) rest

/-- The ring of a set of endpoints. A later write of a position replaces an earlier one. -/
def buildRing (hash : VnodeHash) (eps : List LbEndpoint) : List (BitVec 64 × ℕ) :=
  SuccessorMap.ofWrites (ringWrites hash 0 eps)

/-- The endpoint a key is hashed to when nothing is filtered. -/
def ketamaOwner (ring : List (BitVec 64 × ℕ)) (key : String) : Option ℕ := ringOwner ring (keyHash key) fun _ => true

/-- Where an endpoint is found after one was inserted at `p`. -/
def shiftFrom (p i : ℕ) : ℕ := if i < p then i else i + 1

section Writes
variable (hash : VnodeHash)

theorem ringWrites_append (i : ℕ) (xs ys : List LbEndpoint) :
    ringWrites hash i (xs ++ ys) = ringWrites hash i xs ++ ringWrites hash (i + xs.length) ys := by
  induction xs generalizing i with
  | nil => rfl
  | cons e xs ih =>
    rw [List.cons_append,ringWrites,ringWrites,ih,List.append_assoc,List.length_cons,Nat.add_assoc,Nat.add_comm 1]

theorem ringWrites_map (f : ℕ → ℕ) {i k : ℕ} (xs : List LbEndpoint) (hf : ∀ j < xs.length, f (i + j) = k + j) :
    ringWrites hash k xs = (ringWrites hash i xs).map (Prod.map id f) := by
  induction xs generalizing i k with
  | nil => rfl
  | cons e xs ih =>
    have hhead : f i = k := hf 0 (Nat.succ_pos _)
    have htail := ih (i := i + 1) (k := k + 1) fun j hj => by
      rw [Nat.add_right_comm i,Nat.add_right_comm k]
      exact hf (j + 1) (Nat.succ_lt_succ hj)
    rw [ringWrites,ringWrites,List.map_append,htail]
    congr 1
    rw [LbEndpoint.vnodeWrites,LbEndpoint.vnodeWrites,List.map_map]
    apply List.map_congr_left
    intro v hv
    simp [hhead]

theorem vnodeWrites_snd {e : LbEndpoint} {i : ℕ} {w : BitVec 64 × ℕ} (hw : w ∈ e.vnodeWrites hash i) : w.2 = i := by
  obtain ⟨v,-,rfl⟩ := List.mem_map.mp hw
  rfl

end Writes

section Disruption
variable (hash : VnodeHash) (before after : List LbEndpoint) (e : LbEndpoint)

theorem vnodes_pos : 0 < e.vnodes := Nat.lt_of_lt_of_le Nat.one_pos (le_max_right _ _)

omit before after e in
/-- With an endpoint every key has an owner. -/
theorem ketamaOwner_isSome {eps : List LbEndpoint} (hne : eps ≠ []) (key : String) :
    ∃ i, ketamaOwner (buildRing hash eps) key = some i := by
  obtain ⟨e,rest,rfl⟩ := List.exists_cons_of_ne_nil hne
  have hfirst : (hash e.address e.port 0,0) ∈ ringWrites hash 0 (e :: rest) :=
    List.mem_append_left _ (List.mem_map.mpr ⟨0,List.mem_range.mpr (vnodes_pos e),rfl⟩)
  exact Option.isSome_iff_exists.mp (SuccessorMap.owner_isSome _ (SuccessorMap.ofWrites_ne_nil hfirst))

/-- The endpoint found at a shifted index is the one that was there. -/
theorem getElem?_shiftFrom (j : ℕ) : (before ++ e :: after)[shiftFrom before.length j]? = (before ++ after)[j]? := by
  rw [shiftFrom]
  split
  · rename_i hlt
    rw [List.getElem?_append_left hlt,List.getElem?_append_left hlt]
  · rename_i hge
    rw [List.getElem?_append_right (by omega),List.getElem?_append_right (by omega)]
    have hnext : j + 1 - before.length = j - before.length + 1 := by omega
    rw [hnext,List.getElem?_cons_succ]

/-- An inserted endpoint takes keys over, and moves none between the others. -/
theorem ketamaOwner_insert (key : String) :
    ∃ i, ketamaOwner (buildRing hash (before ++ e :: after)) key = some i ∧
      (i = before.length ∨ ∃ j, ketamaOwner (buildRing hash (before ++ after)) key = some j ∧ i = shiftFrom before.length j) := by
  have hbefore : ringWrites hash 0 before = (ringWrites hash 0 before).map (Prod.map id (shiftFrom before.length)) := by
    apply ringWrites_map
    intro j hj
    rw [Nat.zero_add,shiftFrom,if_pos hj]
  have hafter : ringWrites hash (before.length + 1) after =
      (ringWrites hash before.length after).map (Prod.map id (shiftFrom before.length)) := by
    apply ringWrites_map
    intro j _
    rw [shiftFrom,if_neg (by omega)]
    omega
  have hold : buildRing hash (before ++ after) = SuccessorMap.ofWrites (ringWrites hash 0 before ++ ringWrites hash before.length after) := by
    rw [buildRing,ringWrites_append,Nat.zero_add]
  have hnew : buildRing hash (before ++ e :: after) = SuccessorMap.ofWrites
      ((ringWrites hash 0 before).map (Prod.map id (shiftFrom before.length)) ++ e.vnodeWrites hash before.length ++
        (ringWrites hash before.length after).map (Prod.map id (shiftFrom before.length))) := by
    rw [buildRing,ringWrites_append,Nat.zero_add,ringWrites,← hbefore,← hafter,List.append_assoc]
  have hgrows := SuccessorMap.grows_ofWrites (shiftFrom before.length) before.length (ringWrites hash 0 before)
    (ringWrites hash before.length after) (e.vnodeWrites hash before.length) (fun w hw => vnodeWrites_snd hash hw)
  rw [← hold,← hnew] at hgrows
  obtain ⟨i,hi⟩ := ketamaOwner_isSome hash (List.append_ne_nil_of_right_ne_nil before (List.cons_ne_nil e after)) key
  exact ⟨i,hi,hgrows.owner (SuccessorMap.sorted_ofWrites _) (SuccessorMap.sorted_ofWrites _) (keyHash key) hi⟩

/-- More weight takes keys over, and moves none between the others. -/
theorem ketamaOwner_heavier (weight : ℕ) (hw : e.weight ≤ weight) (key : String) :
    ∃ i, ketamaOwner (buildRing hash (before ++ { e with weight := weight } :: after)) key = some i ∧
      (i = before.length ∨ ketamaOwner (buildRing hash (before ++ e :: after)) key = some i) := by
  have hvnodes : e.vnodes ≤ { e with weight := weight }.vnodes := by
    rw [LbEndpoint.vnodes,LbEndpoint.vnodes,ketamaVnodes]
    simp only
    omega
  obtain ⟨extra,hextra⟩ := Nat.exists_eq_add_of_le hvnodes
  have hwrites : { e with weight := weight }.vnodeWrites hash before.length =
      e.vnodeWrites hash before.length ++ (List.range extra).map fun v => (hash e.address e.port (e.vnodes + v),before.length) := by
    rw [LbEndpoint.vnodeWrites,hextra,List.range_add,List.map_append,List.map_map]
    rfl
  have hold : buildRing hash (before ++ e :: after) = SuccessorMap.ofWrites
      (ringWrites hash 0 before ++ e.vnodeWrites hash before.length ++ ringWrites hash (before.length + 1) after) := by
    rw [buildRing,ringWrites_append,Nat.zero_add,ringWrites,List.append_assoc]
  have hnew : buildRing hash (before ++ { e with weight := weight } :: after) = SuccessorMap.ofWrites
      ((ringWrites hash 0 before ++ e.vnodeWrites hash before.length) ++
        ((List.range extra).map fun v => (hash e.address e.port (e.vnodes + v),before.length)) ++
          ringWrites hash (before.length + 1) after) := by
    rw [buildRing,ringWrites_append,Nat.zero_add,ringWrites,hwrites]
    simp only [List.append_assoc]
  have hgrows := SuccessorMap.grows_ofWrites id before.length (ringWrites hash 0 before ++ e.vnodeWrites hash before.length)
    (ringWrites hash (before.length + 1) after)
    ((List.range extra).map fun v => (hash e.address e.port (e.vnodes + v),before.length)) (fun w hw => by
      obtain ⟨v,-,rfl⟩ := List.mem_map.mp hw
      rfl)
  rw [Prod.map_id,List.map_id,List.map_id,← hold,← hnew] at hgrows
  obtain ⟨i,hi⟩ := ketamaOwner_isSome hash
    (List.append_ne_nil_of_right_ne_nil before (List.cons_ne_nil { e with weight := weight } after)) key
  refine ⟨i,hi,(hgrows.owner (SuccessorMap.sorted_ofWrites _) (SuccessorMap.sorted_ofWrites _) (keyHash key) hi).imp_right ?_⟩
  rintro ⟨u,hu,rfl⟩
  exact hu

end Disruption

section Filtered
variable {lb : LbState} {ctx : LocalityContext} {trackers : Trackers} {m : Moment} {cells : Cells} {cand : Option (List ℕ)}

theorem eligible_of_mem {j : ℕ} (hj : j ∈ lb.indices cand) : lb.eligible cand j := by
  cases cand with
  | none => rfl
  | some c =>
    have hmem : j ∈ c := hj
    simp [LbState.eligible,hmem]

variable (m cells) in
/-- Among several candidates the pick is one of them, and the owner when it is among them. -/
theorem select_ketama (halg : lb.algorithm = .ipHash) (hc : lb.Narrows cand) (hne : lb.indices cand ≠ []) (key : String) :
    ∃ i cells', lb.select m cells cand (some key) = .ok (.selected i,cells') ∧ i ∈ lb.indices cand ∧
      ∀ j ∈ lb.indices cand, ketamaOwner lb.ring key = some j → i = j := by
  have howned : ∀ j ∈ lb.indices cand, ketamaOwner lb.ring key = some j →
      ringOwner lb.ring (keyHash key) (lb.eligible cand) = some j := fun j hj hkey =>
    SuccessorMap.owner_eligible hkey (eligible_of_mem hj)
  cases howner : ringOwner lb.ring (keyHash key) (lb.eligible cand) with
  | some i =>
    have hselect : lb.select m cells cand (some key) = .ok (.selected i,cells) := by
      simp only [LbState.select,halg,howner]
    rw [howner] at howned
    exact ⟨i,cells,hselect,select_mem hc hselect,fun j hj hkey => Option.some.inj (howned j hj hkey)⟩
  | none =>
    rw [howner] at howned
    obtain ⟨p,hp⟩ := smoothWeightedRr_ok (lb.walkWeight m) cells.currentWeight hne
    have hok : lb.select m cells cand (some key) = .ok (.selected p.1,{ cells with currentWeight := p.2 }) := by
      simp only [LbState.select,halg,howner]
      rw [LbState.roundRobin,hp]
      rfl
    exact ⟨p.1,_,hok,select_mem hc hok,fun j hj hkey => absurd (howned j hj hkey).symm (Option.some_ne_none j)⟩

/-- The pick among the candidates that health and locality leave. -/
theorem choose_ketama (halg : lb.algorithm = .ipHash)
    (hl : lb.localityCandidates ctx (lb.healthCandidates trackers m.nowMs).2 = some cand) (hne : lb.indices cand ≠ []) (key : String) :
    ∃ p i, lb.choose ctx trackers cells m (some key) = .ok p ∧ p.index = some i ∧ i ∈ lb.indices cand ∧
      ∀ j ∈ lb.indices cand, ketamaOwner lb.ring key = some j → i = j := by
  have hc : lb.Narrows cand := (localityCandidates_sublist hl).trans (healthCandidates_narrows lb trackers m.nowMs)
  have hpool : lb.endpoints ≠ [] := by
    intro hnil
    rw [LbState.Narrows,hnil] at hc
    exact hne (List.sublist_nil.mp hc)
  rw [LbState.choose]
  simp only [hpool,hl,if_false]
  split
  · rename_i i hi
    refine ⟨_,i,rfl,rfl,hi ▸ List.mem_singleton_self i,fun j hj _ => ?_⟩
    rw [hi] at hj
    exact (List.mem_singleton.mp hj).symm
  · obtain ⟨i,cells',hselect,hmem,howned⟩ := select_ketama m cells halg hc hne key
    rw [hselect]
    exact ⟨_,i,rfl,rfl,hmem,howned⟩

end Filtered

/-- An inserted or heavier endpoint takes keys over and moves none between the others, and
a filtered pick is a candidate, the owner itself whenever it is one. -/
theorem ketama_disrupts_minimally (hash : VnodeHash) (before after : List LbEndpoint) (e : LbEndpoint) (key : String) :
    (∃ i, ketamaOwner (buildRing hash (before ++ e :: after)) key = some i ∧
      (i = before.length ∨ ∃ j, ketamaOwner (buildRing hash (before ++ after)) key = some j ∧
        i = shiftFrom before.length j ∧ (before ++ e :: after)[i]? = (before ++ after)[j]?)) ∧
    (∀ weight, e.weight ≤ weight →
      ∃ i, ketamaOwner (buildRing hash (before ++ { e with weight := weight } :: after)) key = some i ∧
        (i = before.length ∨ ketamaOwner (buildRing hash (before ++ e :: after)) key = some i)) ∧
    ∀ (lb : LbState) (ctx : LocalityContext) (trackers : Trackers) (cells : Cells) (m : Moment) (cand : Option (List ℕ)),
      lb.algorithm = .ipHash → lb.ring = buildRing hash lb.endpoints →
      lb.localityCandidates ctx (lb.healthCandidates trackers m.nowMs).2 = some cand → lb.indices cand ≠ [] →
      ∃ p i, lb.choose ctx trackers cells m (some key) = .ok p ∧ p.index = some i ∧ i ∈ lb.indices cand ∧
        ∀ j ∈ lb.indices cand, ketamaOwner (buildRing hash lb.endpoints) key = some j → i = j := by
  refine ⟨?_,fun weight hw => ketamaOwner_heavier hash before after e weight hw key,?_⟩
  · obtain ⟨i,hi,hcase⟩ := ketamaOwner_insert hash before after e key
    refine ⟨i,hi,hcase.imp_right ?_⟩
    rintro ⟨j,hj,rfl⟩
    exact ⟨j,hj,rfl,getElem?_shiftFrom before after e j⟩
  · intro lb ctx trackers cells m cand halg hring hl hne
    rw [← hring]
    exact choose_ketama halg hl hne key

end Dwara.Dataplane.Balance
