import Mathlib.Data.List.Basic
import Mathlib.Data.List.Induction
import Mathlib.Tactic.TypeStar

/-! Ordered maps whose later writes replace earlier ones, and the successor of a key in
such a map, wrapping around at its end. -/

namespace Dwara.Lib.SuccessorMap

variable {α β γ : Type*} [LT α] [DecidableLT α] [DecidableEq α]

def insert (x : α) (v : β) : List (α × β) → List (α × β)
  | [] => [(x,v)]
  | (y,u) :: rest =>
    if x < y then (x,v) :: (y,u) :: rest
    else if x = y then (x,v) :: rest
    else (y,u) :: insert x v rest

/-- The map after some writes in order. -/
def ofWrites (writes : List (α × β)) : List (α × β) := writes.foldl (fun m w => insert w.1 w.2 m) []

/-- The last value written for a key. -/
def lastWrite (writes : List (α × β)) (x : α) : Option β := (writes.reverse.find? (·.1 = x)).map (·.2)

/-- The first eligible value from a key on, wrapping. -/
def owner [LE α] [DecidableLE α] (m : List (α × β)) (h : α) (eligible : β → Bool) : Option β :=
  (((m.filter (fun p => h ≤ p.1)).find? (fun p => eligible p.2)).map (·.2)).or
    ((m.find? (fun p => eligible p.2)).map (·.2))

def Sorted (m : List (α × β)) : Prop := m.Pairwise (fun p q => p.1 < q.1)

theorem ofWrites_concat (ws : List (α × β)) (w : α × β) : ofWrites (ws ++ [w]) = insert w.1 w.2 (ofWrites ws) :=
  List.foldl_append

section Writes

omit [LT α] [DecidableLT α]

theorem lastWrite_append (xs ys : List (α × β)) (x : α) : lastWrite (xs ++ ys) x = (lastWrite ys x).or (lastWrite xs x) := by
  rw [lastWrite,List.reverse_append,List.find?_append,Option.map_or]
  rfl

theorem lastWrite_map (f : β → γ) (ws : List (α × β)) (x : α) :
    lastWrite (ws.map (Prod.map id f)) x = (lastWrite ws x).map f := by
  rw [lastWrite,lastWrite,← List.map_reverse,List.find?_map,Option.map_map,Option.map_map]
  rfl

theorem mem_of_lastWrite {ws : List (α × β)} {x : α} {v : β} (h : lastWrite ws x = some v) : (x,v) ∈ ws := by
  obtain ⟨p,hp,rfl⟩ := Option.map_eq_some_iff.mp h
  have hkey := List.find?_some hp
  simp only [decide_eq_true_eq] at hkey
  rw [← hkey]
  exact List.mem_reverse.mp (List.mem_of_find?_eq_some hp)

/-- Writes of one value in the middle of others: what they do not cover stays. -/
theorem lastWrite_between {before added after : List (α × β)} {p : β} (hadded : ∀ w ∈ added, w.2 = p) (x : α) :
    lastWrite (before ++ added ++ after) x = lastWrite (before ++ after) x ∨
      lastWrite (before ++ added ++ after) x = some p := by
  rw [lastWrite_append,lastWrite_append,lastWrite_append]
  cases lastWrite after x with
  | some v => exact .inl rfl
  | none =>
    simp only [Option.none_or]
    cases hw : lastWrite added x with
    | none => exact .inl rfl
    | some v =>
      have hv : v = p := hadded _ (mem_of_lastWrite hw)
      exact .inr (congrArg some hv)

theorem lastWrite_ne_none {ws : List (α × β)} {x : α} {v : β} (h : (x,v) ∈ ws) : lastWrite ws x ≠ none := by
  rw [lastWrite,ne_eq,Option.map_eq_none_iff,List.find?_eq_none]
  intro hnone
  exact hnone (x,v) (List.mem_reverse.mpr h) (by simp)

end Writes

variable [LE α] [Std.IsLinearOrder α] [Std.LawfulOrderLT α]

theorem mem_insert {x y : α} {v u : β} {m : List (α × β)} (hs : Sorted m) :
    (y,u) ∈ insert x v m ↔ y = x ∧ u = v ∨ y ≠ x ∧ (y,u) ∈ m := by
  induction m with
  | nil => simp [insert]
  | cons q rest ih =>
    obtain ⟨z,t⟩ := q
    obtain ⟨hz,hrest⟩ := List.pairwise_cons.mp hs
    have hlater : ∀ {u}, (y,u) ∈ rest → z < y := fun h => hz _ h
    rw [insert]
    split
    · rename_i hlt
      have hne : ∀ {u}, (y,u) ∈ (z,t) :: rest → y ≠ x := by
        intro u hmem heq
        rcases List.mem_cons.mp hmem with h | h
        · have hyz : y = z := congrArg Prod.fst h
          exact Std.lt_irrefl (heq ▸ hyz ▸ hlt)
        · exact Std.lt_irrefl (Std.lt_trans (heq ▸ hlt) (hlater h))
      rw [List.mem_cons,Prod.mk.injEq]
      constructor
      · rintro (h | h)
        · exact .inl h
        · exact .inr ⟨hne h,h⟩
      · rintro (h | h)
        · exact .inl h
        · exact .inr h.2
    · rename_i hge
      split
      · rename_i heq
        subst heq
        rw [List.mem_cons,List.mem_cons,Prod.mk.injEq,Prod.mk.injEq]
        constructor
        · rintro (h | h)
          · exact .inl h
          · exact .inr ⟨fun hyx => Std.lt_irrefl (hyx ▸ hlater h),.inr h⟩
        · rintro (h | ⟨hne,h | h⟩)
          · exact .inl h
          · exact absurd h.1 hne
          · exact .inr h
      · rename_i hne
        rw [List.mem_cons,List.mem_cons,ih hrest,Prod.mk.injEq]
        constructor
        · rintro (h | h | h)
          · exact .inr ⟨fun hyx => hne (hyx.symm.trans h.1),.inl h⟩
          · exact .inl h
          · exact .inr ⟨h.1,.inr h.2⟩
        · rintro (h | ⟨hyx,h | h⟩)
          · exact .inr (.inl h)
          · exact .inl h
          · exact .inr (.inr ⟨hyx,h⟩)

theorem sorted_insert {x : α} {v : β} {m : List (α × β)} (hs : Sorted m) : Sorted (insert x v m) := by
  induction m with
  | nil => exact List.pairwise_singleton _ _
  | cons q rest ih =>
    obtain ⟨z,t⟩ := q
    obtain ⟨hz,hrest⟩ := List.pairwise_cons.mp hs
    rw [insert]
    split
    · rename_i hlt
      refine List.pairwise_cons.mpr ⟨?_,hs⟩
      intro q hq
      rcases List.mem_cons.mp hq with rfl | hq
      · exact hlt
      · exact Std.lt_trans hlt (hz q hq)
    · rename_i hge
      split
      · rename_i heq
        exact List.pairwise_cons.mpr ⟨heq ▸ hz,hrest⟩
      · rename_i hne
        refine List.pairwise_cons.mpr ⟨?_,ih hrest⟩
        intro q hq
        rcases (mem_insert hrest).mp hq with h | h
        · have hle : z ≤ x := Std.not_lt.mp hge
          rw [h.1]
          exact Std.lt_of_le_of_ne hle fun heq => hne heq.symm
        · exact hz q h.2

theorem sorted_ofWrites (ws : List (α × β)) : Sorted (ofWrites ws) := by
  induction ws using List.reverseRecOn with
  | nil => exact List.Pairwise.nil
  | append_singleton ws w ih =>
    rw [ofWrites_concat]
    exact sorted_insert ih

/-- The map holds the last value written for each key. -/
theorem mem_ofWrites {ws : List (α × β)} {x : α} {v : β} : (x,v) ∈ ofWrites ws ↔ lastWrite ws x = some v := by
  induction ws using List.reverseRecOn with
  | nil => simp [ofWrites,lastWrite]
  | append_singleton ws w ih =>
    rw [ofWrites_concat,mem_insert (sorted_ofWrites ws),ih,lastWrite_append]
    by_cases hx : x = w.1
    · subst hx
      simp [lastWrite,eq_comm]
    · have hx' : ¬ w.1 = x := fun h => hx h.symm
      simp [lastWrite,hx,hx']

section Owner

omit [DecidableLT α] [DecidableEq α] in
/-- The first entry of a sorted map from some key on is the one with the least such key. -/
theorem find?_sorted {m : List (α × β)} (hs : Sorted m) {q : α → Bool} {x : α} {v : β} :
    m.find? (fun p => q p.1) = some (x,v) ↔ (x,v) ∈ m ∧ q x ∧ ∀ y u, (y,u) ∈ m → q y → x ≤ y := by
  induction m with
  | nil => simp
  | cons p rest ih =>
    obtain ⟨z,t⟩ := p
    obtain ⟨hz,hrest⟩ := List.pairwise_cons.mp hs
    by_cases hq : q z
    · have hfind : ((z,t) :: rest).find? (fun p => q p.1) = some (z,t) := by simp [hq]
      rw [hfind,Option.some.injEq,Prod.mk.injEq]
      constructor
      · rintro ⟨rfl,rfl⟩
        refine ⟨List.mem_cons_self,hq,fun y u hy _ => ?_⟩
        rcases List.mem_cons.mp hy with h | h
        · exact Std.le_of_eq (congrArg Prod.fst h).symm
        · exact Std.le_of_lt (hz _ h)
      · rintro ⟨hmem,-,hleast⟩
        rcases List.mem_cons.mp hmem with h | h
        · exact Prod.mk.inj h.symm
        · have hlt : z < x := hz _ h
          exact absurd (hleast z t List.mem_cons_self hq) (Std.not_le_of_gt hlt)
    · have hfind : ((z,t) :: rest).find? (fun p => q p.1) = rest.find? (fun p => q p.1) := by simp [hq]
      rw [hfind,ih hrest]
      constructor
      · rintro ⟨hmem,hx,hleast⟩
        refine ⟨List.mem_cons_of_mem _ hmem,hx,fun y u hy hqy => ?_⟩
        rcases List.mem_cons.mp hy with h | h
        · exact absurd ((show y = z from congrArg Prod.fst h) ▸ hqy) hq
        · exact hleast y u h hqy
      · rintro ⟨hmem,hx,hleast⟩
        rcases List.mem_cons.mp hmem with h | h
        · exact absurd ((show x = z from congrArg Prod.fst h) ▸ hx) hq
        · exact ⟨h,hx,fun y u hy => hleast y u (List.mem_cons_of_mem _ hy)⟩

/-- A map that holds `p` or what another map holds, wherever that other map holds something. -/
structure Grows (f : β → γ) (p : γ) (old : List (α × β)) (new : List (α × γ)) : Prop where
  value : ∀ x v, (x,v) ∈ new → v = p ∨ ∃ u, (x,u) ∈ old ∧ v = f u
  keeps : ∀ x u, (x,u) ∈ old → ∃ v, (x,v) ∈ new

variable {f : β → γ} {p : γ} {old : List (α × β)} {new : List (α × γ)}

omit [DecidableLT α] [DecidableEq α] in
theorem Grows.find? (hg : Grows f p old new) (ho : Sorted old) (hn : Sorted new) (q : α → Bool) :
    match new.find? (fun r => q r.1) with
    | none => old.find? (fun r => q r.1) = none
    | some (x,v) => v = p ∨ ∃ u, old.find? (fun r => q r.1) = some (x,u) ∧ v = f u := by
  cases hnew : new.find? (fun r => q r.1) with
  | none =>
    rw [List.find?_eq_none] at hnew ⊢
    intro r hr
    obtain ⟨v,hv⟩ := hg.keeps r.1 r.2 hr
    exact hnew (r.1,v) hv
  | some r =>
    obtain ⟨x,v⟩ := r
    obtain ⟨hmem,hq,hleast⟩ := (find?_sorted hn).mp hnew
    rcases hg.value x v hmem with hv | ⟨u,hu,hv⟩
    · exact .inl hv
    · refine .inr ⟨u,(find?_sorted ho).mpr ⟨hu,hq,fun y w hy hqy => ?_⟩,hv⟩
      obtain ⟨w',hw'⟩ := hg.keeps y w hy
      exact hleast y w' hw' hqy

omit [LT α] [DecidableLT α] [DecidableEq α] [Std.IsLinearOrder α] [Std.LawfulOrderLT α] in
theorem owner_eq [DecidableLE α] (m : List (α × β)) (h : α) (eligible : β → Bool) :
    owner m h eligible = ((m.find? (fun r => h ≤ r.1 && eligible r.2)).map (·.2)).or ((m.find? (fun r => eligible r.2)).map (·.2)) := by
  rw [owner,List.find?_filter]
  simp only [Bool.decide_and,Bool.decide_eq_true]

/-- The first entry that passes one test is the first that passes two when it passes both. -/
theorem find?_and {δ : Type*} {q r : δ → Bool} {l : List δ} {a : δ} (h : l.find? q = some a) (hr : r a) :
    l.find? (fun b => q b && r b) = some a := by
  induction l with
  | nil => cases h
  | cons b l ih =>
    rw [List.find?_cons] at h ⊢
    cases hq : q b with
    | true =>
      rw [hq] at h
      cases h
      simp [hr]
    | false =>
      rw [hq] at h
      simpa using ih h

omit [LT α] [DecidableLT α] [DecidableEq α] [Std.IsLinearOrder α] [Std.LawfulOrderLT α] in
/-- An owner that is eligible stays the owner. -/
theorem owner_eligible [DecidableLE α] {m : List (α × β)} {h : α} {eligible : β → Bool} {v : β}
    (hv : owner m h (fun _ => true) = some v) (hel : eligible v) : owner m h eligible = some v := by
  rw [owner_eq] at hv ⊢
  simp only [Bool.and_true] at hv
  cases hfrom : m.find? (fun r => decide (h ≤ r.1)) with
  | some r =>
    rw [hfrom] at hv
    cases hv
    rw [find?_and (r := fun r => eligible r.2) hfrom hel]
    rfl
  | none =>
    rw [hfrom] at hv
    have hnone : m.find? (fun r => decide (h ≤ r.1) && eligible r.2) = none := by
      rw [List.find?_eq_none] at hfrom ⊢
      intro r hr
      have hr' := hfrom r hr
      simp_all
    rw [hnone]
    cases hfirst : m.find? (fun _ => true) with
    | none =>
      rw [hfirst] at hv
      cases hv
    | some r =>
      rw [hfirst] at hv
      cases hv
      have hboth := find?_and (r := fun r => eligible r.2) hfirst hel
      simp only [Bool.true_and] at hboth
      rw [hboth]
      rfl

omit [DecidableLT α] [DecidableEq α] in
/-- The successor of a key in the grown map is `p`, or comes from its successor before. -/
theorem Grows.owner [DecidableLE α] (hg : Grows f p old new) (ho : Sorted old) (hn : Sorted new) (h : α) {v : γ}
    (hv : owner new h (fun _ => true) = some v) : v = p ∨ ∃ u, SuccessorMap.owner old h (fun _ => true) = some u ∧ v = f u := by
  have hfrom := hg.find? ho hn (fun x => decide (h ≤ x))
  have hall := hg.find? ho hn (fun _ => true)
  rw [owner_eq] at hv ⊢
  simp only [Bool.and_true] at hv ⊢
  cases hnew : new.find? (fun r => decide (h ≤ r.1)) with
  | some r =>
    rw [hnew] at hfrom hv
    cases hv
    rcases hfrom with hp | ⟨u,hu,hf⟩
    · exact .inl hp
    · exact .inr ⟨u,by rw [hu]; rfl,hf⟩
  | none =>
    rw [hnew] at hfrom hv
    simp only at hfrom
    rw [hfrom]
    cases hfirst : new.find? (fun _ => true) with
    | none =>
      rw [hfirst] at hv
      cases hv
    | some r =>
      rw [hfirst] at hall hv
      cases hv
      rcases hall with hp | ⟨u,hu,hf⟩
      · exact .inl hp
      · exact .inr ⟨u,by rw [hu]; rfl,hf⟩

/-- Writes of one value among others let the map grow. -/
theorem grows_ofWrites (f : β → γ) (p : γ) (before after : List (α × β)) (added : List (α × γ)) (hadded : ∀ w ∈ added, w.2 = p) :
    Grows f p (ofWrites (before ++ after))
      (ofWrites (before.map (Prod.map id f) ++ added ++ after.map (Prod.map id f))) := by
  have hboth : ∀ x, lastWrite (before.map (Prod.map id f) ++ after.map (Prod.map id f)) x = (lastWrite (before ++ after) x).map f := by
    intro x
    rw [← List.map_append,lastWrite_map]
  constructor
  · intro x v hv
    rw [mem_ofWrites] at hv
    rcases lastWrite_between hadded x with h | h
    · rw [h,hboth] at hv
      obtain ⟨u,hu,rfl⟩ := Option.map_eq_some_iff.mp hv
      exact .inr ⟨u,mem_ofWrites.mpr hu,rfl⟩
    · exact .inl (Option.some.inj (hv.symm.trans h))
  · intro x u hu
    rw [mem_ofWrites] at hu
    rcases lastWrite_between hadded x with h | h
    · exact ⟨f u,mem_ofWrites.mpr (by rw [h,hboth,hu]; rfl)⟩
    · exact ⟨p,mem_ofWrites.mpr h⟩

omit [LT α] [DecidableLT α] [DecidableEq α] [Std.IsLinearOrder α] [Std.LawfulOrderLT α] in
theorem owner_isSome [DecidableLE α] {m : List (α × β)} (h : α) (hne : m ≠ []) : (owner m h (fun _ => true)).isSome := by
  obtain ⟨r,rest,rfl⟩ := List.exists_cons_of_ne_nil hne
  rw [owner,Option.isSome_or]
  simp

theorem ofWrites_ne_nil {ws : List (α × β)} {w : α × β} (hw : w ∈ ws) : ofWrites ws ≠ [] := by
  intro hnil
  obtain ⟨v,hv⟩ := Option.ne_none_iff_exists'.mp (lastWrite_ne_none (x := w.1) (v := w.2) hw)
  have hmem := mem_ofWrites.mpr hv
  rw [hnil] at hmem
  exact absurd hmem List.not_mem_nil

end Owner
end Dwara.Lib.SuccessorMap
