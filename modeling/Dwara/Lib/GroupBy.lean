import Mathlib.Algebra.BigOperators.Group.List.Basic
import Mathlib.Data.List.Dedup
import Mathlib.Data.List.Perm.Basic
import Mathlib.Data.List.Defs
import Mathlib.Data.Nat.Notation

/-! Rows grouped by a key, with the sum of a measure for each group. Rows are compared up to
their order. -/

namespace Dwara.Lib.GroupBy
variable {α κ ι M : Type*} [DecidableEq κ] [DecidableEq ι] [AddCommMonoid M]

def groupBy (key : α → κ) (measure : α → M) (rows : List α) : List (κ × M) :=
  (rows.map key).dedup.map fun k => (k,((rows.filter (key · = k)).map measure).sum)

section Members
variable (key : α → κ) (measure : α → M) (rows : List α)

theorem mem_groupBy {g : κ × M} :
    g ∈ groupBy key measure rows ↔ g.1 ∈ rows.map key ∧ g.2 = ((rows.filter (key · = g.1)).map measure).sum := by
  rw [groupBy,List.mem_map]
  constructor
  · rintro ⟨k,hk,rfl⟩
    exact ⟨List.mem_dedup.mp hk,rfl⟩
  · rintro ⟨hk,hsum⟩
    exact ⟨g.1,List.mem_dedup.mpr hk,Prod.ext rfl hsum.symm⟩

theorem keys_groupBy : (groupBy key measure rows).map Prod.fst = (rows.map key).dedup := by
  rw [groupBy,List.map_map]
  exact List.map_id _

theorem nodup_keys_groupBy : ((groupBy key measure rows).map Prod.fst).Nodup := by
  rw [keys_groupBy]
  exact List.nodup_dedup _

theorem nodup_groupBy : (groupBy key measure rows).Nodup := (nodup_keys_groupBy key measure rows).of_map _

/-- The groups of some of the keys are those of the rows with these keys. -/
theorem filter_groupBy (p : κ → Bool) :
    ((groupBy key measure rows).filter (p ·.1)).Perm (groupBy key measure (rows.filter (p <| key ·))) := by
  rw [List.perm_ext_iff_of_nodup ((nodup_groupBy key measure rows).filter _) (nodup_groupBy key measure _)]
  intro g
  have hgroup : p g.1 → (rows.filter (p <| key ·)).filter (key · = g.1) = rows.filter (key · = g.1) := by
    intro hp
    rw [List.filter_filter]
    apply List.filter_congr
    intro a ha
    by_cases hkey : key a = g.1 <;> simp [hkey,hp]
  rw [List.mem_filter,mem_groupBy,mem_groupBy]
  constructor
  · rintro ⟨⟨hkey,hsum⟩,hp⟩
    obtain ⟨a,ha,hag⟩ := List.mem_map.mp hkey
    rw [hgroup hp]
    exact ⟨List.mem_map.mpr ⟨a,List.mem_filter.mpr ⟨ha,hag ▸ hp⟩,hag⟩,hsum⟩
  · rintro ⟨hkey,hsum⟩
    obtain ⟨a,ha,hag⟩ := List.mem_map.mp hkey
    obtain ⟨ha,hp⟩ := List.mem_filter.mp ha
    have hp : p g.1 := hag ▸ hp
    rw [hgroup hp] at hsum
    exact ⟨⟨List.mem_map.mpr ⟨a,ha,hag⟩,hsum⟩,hp⟩

end Members

theorem groupBy_perm (key : α → κ) (measure : α → M) {rows rows' : List α} (h : rows.Perm rows') :
    (groupBy key measure rows).Perm (groupBy key measure rows') := by
  rw [List.perm_ext_iff_of_nodup (nodup_groupBy key measure rows) (nodup_groupBy key measure rows')]
  intro g
  rw [mem_groupBy,mem_groupBy,(h.map key).mem_iff,((h.filter _).map measure).sum_eq]

theorem groupBy_congr {key key' : α → κ} (measure : α → M) {rows : List α} (h : ∀ a ∈ rows, key a = key' a) :
    groupBy key measure rows = groupBy key' measure rows := by
  rw [groupBy,groupBy,List.map_congr_left h]
  apply List.map_congr_left
  intro k hk
  rw [List.filter_congr fun a ha => by rw [h a ha]]

/-- Sums over disjoint groups add up to the sum over the rows of all of them. -/
private theorem sum_groups (key : α → κ) (measure : α → M) (rows : List α) {keys : List κ} (h : keys.Nodup) :
    (keys.map fun k => ((rows.filter (key · = k)).map measure).sum).sum = ((rows.filter (key · ∈ keys)).map measure).sum := by
  induction keys with
  | nil => simp
  | cons k keys ih =>
    obtain ⟨hk,hkeys⟩ := List.nodup_cons.mp h
    have hhead : (rows.filter (key · ∈ k :: keys)).filter (key · = k) = rows.filter (key · = k) := by
      rw [List.filter_filter]
      apply List.filter_congr
      intro a ha
      by_cases hkey : key a = k <;> simp [hkey]
    have htail : (rows.filter (key · ∈ k :: keys)).filter (fun a => !decide (key a = k)) = rows.filter (key · ∈ keys) := by
      rw [List.filter_filter]
      apply List.filter_congr
      intro a ha
      by_cases hkey : key a = k <;> simp [hkey,hk]
    have hsplit := List.filter_append_perm (fun a => decide (key a = k)) (rows.filter (key · ∈ k :: keys))
    rw [hhead,htail] at hsplit
    rw [List.map_cons,List.sum_cons,ih hkeys,← (hsplit.map measure).sum_eq,List.map_append,List.sum_append]

/-- The groups together measure what the rows do. -/
theorem sum_groupBy (key : α → κ) (measure : α → M) (rows : List α) :
    ((groupBy key measure rows).map Prod.snd).sum = (rows.map measure).sum := by
  have hall : rows.filter (key · ∈ (rows.map key).dedup) = rows := by
    rw [List.filter_eq_self]
    intro a ha
    exact decide_eq_true (List.mem_dedup.mpr (List.mem_map_of_mem ha))
  rw [groupBy,List.map_map]
  exact (sum_groups key measure rows (List.nodup_dedup _)).trans (by rw [hall])

/-- Grouping groups by a coarser key is grouping the rows by it. -/
theorem groupBy_groupBy (coarse : κ → ι) (key : α → κ) (measure : α → M) (rows : List α) :
    (groupBy (coarse ·.1) Prod.snd (groupBy key measure rows)).Perm (groupBy (coarse <| key ·) measure rows) := by
  rw [List.perm_ext_iff_of_nodup (nodup_groupBy _ _ _) (nodup_groupBy _ _ _)]
  intro g
  have hkeys : g.1 ∈ (groupBy key measure rows).map (coarse ·.1) ↔ g.1 ∈ rows.map (coarse <| key ·) := by
    have hmap : (groupBy key measure rows).map (coarse ·.1) = (rows.map key).dedup.map coarse := by
      rw [← keys_groupBy key measure,List.map_map]
      rfl
    rw [hmap]
    simp
  have hsum : (((groupBy key measure rows).filter (coarse ·.1 = g.1)).map Prod.snd).sum =
      ((rows.filter fun a => coarse (key a) = g.1).map measure).sum := by
    have hperm := filter_groupBy key measure rows fun k => decide (coarse k = g.1)
    rw [(hperm.map Prod.snd).sum_eq,sum_groupBy]
  rw [mem_groupBy,mem_groupBy,hkeys,hsum]

/-- Rows put into a table, in the place of those with the same keys. -/
def replaceInto (new table : List (κ × M)) : List (κ × M) := table.filter (·.1 ∉ new.map Prod.fst) ++ new

omit [AddCommMonoid M] in
/-- Groups put among groups of the same rows: those with one of the keys are there once. -/
theorem replaceInto_perm {groups table new : List (κ × M)} {p q : κ → Bool} (htable : table.Perm (groups.filter (p ·.1)))
    (hnew : new.Perm (groups.filter (q ·.1))) : (replaceInto new table).Perm (groups.filter fun g => p g.1 || q g.1) := by
  have hkeys : table.filter (·.1 ∉ new.map Prod.fst) = table.filter (!q ·.1) := by
    apply List.filter_congr
    intro g hg
    have hmem : g.1 ∈ new.map Prod.fst ↔ q g.1 := by
      constructor
      · intro hin
        obtain ⟨g',hg',hkey⟩ := List.mem_map.mp hin
        exact hkey ▸ (List.mem_filter.mp (hnew.mem_iff.mp hg')).2
      · intro hq
        exact List.mem_map_of_mem (hnew.mem_iff.mpr (List.mem_filter.mpr ⟨(List.mem_filter.mp (htable.mem_iff.mp hg)).1,hq⟩))
    cases hq : q g.1 <;> simp [hmem,hq]
  have hold : (groups.filter (p ·.1)).filter (!q ·.1) = (groups.filter fun g => p g.1 || q g.1).filter (!q ·.1) := by
    rw [List.filter_filter,List.filter_filter]
    apply List.filter_congr
    intro g hg
    cases p g.1 <;> cases q g.1 <;> rfl
  have hboth : groups.filter (q ·.1) = (groups.filter fun g => p g.1 || q g.1).filter (q ·.1) := by
    rw [List.filter_filter]
    apply List.filter_congr
    intro g hg
    cases p g.1 <;> cases q g.1 <;> rfl
  rw [replaceInto,hkeys]
  refine ((htable.filter _).append hnew).trans ?_
  rw [hold,hboth]
  exact List.perm_append_comm.trans (List.filter_append_perm _ _)

end Dwara.Lib.GroupBy

/-! Lists cut into chunks: nothing is lost, and no chunk is too long. -/

namespace Dwara.Lib.Chunks

variable {α : Type*} {n : ℕ}

theorem flatten_go (xs : List α) (chunk : Array α) (done : Array (List α)) :
    (List.toChunks.go n xs chunk done).flatten = done.toList.flatten ++ chunk.toList ++ xs := by
  induction xs generalizing chunk done with
  | nil => simp [List.toChunks.go]
  | cons x xs ih =>
    rw [List.toChunks.go]
    split <;> simp [ih]

theorem flatten_toChunks (n : ℕ) (xs : List α) : (xs.toChunks n).flatten = xs := by
  cases xs with
  | nil => simp [List.toChunks]
  | cons x xs =>
    cases n with
    | zero => simp [List.toChunks]
    | succ n => simp [List.toChunks,flatten_go]

theorem length_le_of_mem_go (xs : List α) {chunk : Array α} {done : Array (List α)} (hn : 0 < n) (hchunk : chunk.size ≤ n)
    (hdone : ∀ c ∈ done.toList, c.length ≤ n) : ∀ c ∈ List.toChunks.go n xs chunk done, c.length ≤ n := by
  induction xs generalizing chunk done with
  | nil =>
    intro c hc
    simp only [List.toChunks.go,Array.toList_push,List.mem_append,List.mem_singleton] at hc
    rcases hc with hc | rfl
    · exact hdone c hc
    · simpa using hchunk
  | cons x xs ih =>
    rw [List.toChunks.go]
    split
    · apply ih
      · exact hn
      · intro c hc
        simp only [Array.toList_push,List.mem_append,List.mem_singleton] at hc
        rcases hc with hc | rfl
        · exact hdone c hc
        · simpa using hchunk
    · rename_i hroom
      refine ih ?_ hdone
      rw [beq_iff_eq] at hroom
      rw [Array.size_push]
      omega

theorem length_le_of_mem_toChunks (hn : 0 < n) {xs c : List α} (hc : c ∈ xs.toChunks n) : c.length ≤ n := by
  cases xs with
  | nil => simp [List.toChunks] at hc
  | cons x xs =>
    cases n with
    | zero => exact absurd hn (Nat.lt_irrefl 0)
    | succ n =>
      rw [List.toChunks] at hc
      · exact length_le_of_mem_go xs hn (by simp) (by simp) c hc
      · simp

end Dwara.Lib.Chunks
