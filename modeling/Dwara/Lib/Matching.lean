import Mathlib.Data.List.Basic
import Mathlib.Data.Nat.Notation

/-! Patterns that are searched for in a text, and texts with parts of them replaced. -/

namespace Dwara.Lib

/-- A pattern, as where in a text a match that starts at a place ends. -/
structure Pattern where
  matchAt : List Char → ℕ → Option ℕ
  start_le : ∀ {text s e}, matchAt text s = some e → s ≤ e
  le_length : ∀ {text s e}, matchAt text s = some e → e ≤ text.length

namespace Pattern

/-- The places where the text has `word`. -/
def literal (word : List Char) : Pattern where
  matchAt text s := if s + word.length ≤ text.length ∧ word.isPrefixOf (text.drop s) then some (s + word.length) else none
  start_le h := by
    split at h
    · cases h
      omega
    · cases h
  le_length h := by
    split at h
    · rename_i hle
      cases h
      exact hle.1
    · cases h

/-- A pattern that matches nowhere. -/
def never : Pattern where
  matchAt _ _ := none
  start_le h := by cases h
  le_length h := by cases h

variable (p : Pattern) (text : List Char)

/-- The leftmost match that starts at `pos` or behind it. -/
def findAt (pos : ℕ) : Option (ℕ × ℕ) :=
  (List.range' pos (text.length + 1 - pos)).findSome? fun s => (p.matchAt text s).map fun e => (s,e)

def isMatch : Bool := (p.findAt text 0).isSome

/-- The matches found one after another, each behind the one before. -/
def matchesFrom : ℕ → ℕ → List (ℕ × ℕ)
  | 0, _ => []
  | n + 1, pos =>
    match p.findAt text pos with
    | none => []
    | some (s,e) => (s,e) :: matchesFrom n (if s < e then e else e + 1)

/-- Every match the pattern has in the text by itself. -/
def allMatches : List (ℕ × ℕ) := p.matchesFrom text (text.length + 1) 0

variable {p text}

theorem findAt_eq_none {pos s : ℕ} (h : p.findAt text pos = none) (hs : pos ≤ s) : p.matchAt text s = none := by
  cases hmatch : p.matchAt text s with
  | none => rfl
  | some e =>
    have hle := p.start_le hmatch
    have hlength := p.le_length hmatch
    have hnone := List.findSome?_eq_none_iff.mp h s (List.mem_range'_1.mpr (by omega))
    rw [hmatch] at hnone
    cases hnone

theorem findAt_eq_some {pos s e : ℕ} (h : p.findAt text pos = some (s,e)) :
    pos ≤ s ∧ p.matchAt text s = some e ∧ ∀ s', pos ≤ s' → s' < s → p.matchAt text s' = none := by
  obtain ⟨before,found,after,hrange,hfound,hbefore⟩ := List.findSome?_eq_some_iff.mp h
  obtain ⟨e',he,heq⟩ := Option.map_eq_some_iff.mp hfound
  obtain ⟨rfl,rfl⟩ := Prod.mk.inj heq
  obtain ⟨n,-,rfl,hrest⟩ := List.range'_eq_append_iff.mp hrange
  obtain ⟨rfl,-,-⟩ := List.range'_eq_cons_iff.mp hrest.symm
  refine ⟨by omega,he,fun s' hpos hlt => ?_⟩
  exact Option.map_eq_none_iff.mp (hbefore s' (List.mem_range'_1.mpr (by omega)))

theorem le_of_findAt {pos s e : ℕ} (h : p.findAt text pos = some (s,e)) {s' : ℕ} (hpos : pos ≤ s') (hmatch : (p.matchAt text s').isSome) :
    s ≤ s' := by
  by_contra hlt
  rw [(findAt_eq_some h).2.2 s' hpos (by omega)] at hmatch
  cases hmatch

theorem isSome_findAt {pos s : ℕ} (hpos : pos ≤ s) (hmatch : (p.matchAt text s).isSome) : (p.findAt text pos).isSome := by
  cases h : p.findAt text pos with
  | none =>
    rw [findAt_eq_none h hpos] at hmatch
    cases hmatch
  | some m => rfl

theorem mem_matchesFrom {n pos : ℕ} {m : ℕ × ℕ} (h : m ∈ p.matchesFrom text n pos) : pos ≤ m.1 ∧ p.matchAt text m.1 = some m.2 := by
  induction n generalizing pos with
  | zero => cases h
  | succ n ih =>
    rw [matchesFrom] at h
    split at h
    · cases h
    · rename_i s e hfind
      obtain ⟨hle,hmatch,-⟩ := findAt_eq_some hfind
      have hend := p.start_le hmatch
      rcases List.mem_cons.mp h with rfl | h
      · exact ⟨hle,hmatch⟩
      · obtain ⟨hpos,hm⟩ := ih h
        refine ⟨?_,hm⟩
        split at hpos
        · omega
        · omega

/-- Of two matches of one pattern one ends before the other starts. -/
theorem matchesFrom_disjoint (n pos : ℕ) : (p.matchesFrom text n pos).Pairwise fun m m' => m.2 ≤ m'.1 := by
  induction n generalizing pos with
  | zero => exact .nil
  | succ n ih =>
    rw [matchesFrom]
    split
    · exact .nil
    · refine List.pairwise_cons.mpr ⟨fun m' hm' => ?_,ih _⟩
      have hpos := (mem_matchesFrom hm').1
      split at hpos
      · exact hpos
      · dsimp only
        omega

/-- A match is passed over only if it starts within the one before. -/
theorem mem_matchesFrom_of {n pos s e : ℕ} (hn : text.length < n + pos) (hpos : pos ≤ s) (hmatch : p.matchAt text s = some e)
    (hfree : ∀ m ∈ p.matchesFrom text n pos, m.1 < s → m.2 ≤ s) : (s,e) ∈ p.matchesFrom text n pos := by
  have hle := p.start_le hmatch
  have hlength := p.le_length hmatch
  have hsome : (p.matchAt text s).isSome := Option.isSome_of_eq_some hmatch
  induction n generalizing pos with
  | zero => omega
  | succ n ih =>
    obtain ⟨⟨s',e'⟩,hfind⟩ := Option.isSome_iff_exists.mp (isSome_findAt hpos hsome)
    have hs' := le_of_findAt hfind hpos hsome
    obtain ⟨hpos',hmatch',-⟩ := findAt_eq_some hfind
    have hend := p.start_le hmatch'
    rw [matchesFrom,hfind] at hfree ⊢
    rcases Nat.lt_or_eq_of_le hs' with hlt | rfl
    · have he' : e' ≤ s := hfree (s',e') List.mem_cons_self hlt
      refine List.mem_cons_of_mem _ (ih ?_ ?_ fun m hm => hfree m (List.mem_cons_of_mem _ hm))
      · split
        · omega
        · omega
      · split
        · omega
        · omega
    · rw [hmatch] at hmatch'
      cases hmatch'
      exact List.mem_cons_self

theorem matchAt_of_mem {m : ℕ × ℕ} (h : m ∈ p.allMatches text) : p.matchAt text m.1 = some m.2 := (mem_matchesFrom h).2

theorem disjoint_of_mem {m m' : ℕ × ℕ} (h : m ∈ p.allMatches text) (h' : m' ∈ p.allMatches text) : m = m' ∨ m.2 ≤ m'.1 ∨ m'.2 ≤ m.1 := by
  have hpairwise : (p.allMatches text).Pairwise fun m m' => m.2 ≤ m'.1 := matchesFrom_disjoint _ _
  obtain ⟨before,after,hsplit⟩ := List.append_of_mem h
  rw [hsplit] at hpairwise h'
  obtain ⟨-,hafter,hbefore⟩ := List.pairwise_append.mp hpairwise
  rcases List.mem_append.mp h' with h' | h'
  · exact .inr (.inr (hbefore m' h' m List.mem_cons_self))
  · rcases List.mem_cons.mp h' with rfl | h'
    · exact .inl rfl
    · exact .inr (.inl ((List.pairwise_cons.mp hafter).1 m' h'))

end Pattern

namespace Spans

/-- Parts of a text one behind the other, from a place on. -/
def Ordered : ℕ → List (ℕ × ℕ) → Prop
  | _, [] => True
  | pos, (s,e) :: spans => pos ≤ s ∧ s ≤ e ∧ Ordered e spans

/-- A place within one of the parts. -/
def Has (spans : List (ℕ × ℕ)) (i : ℕ) : Prop := ∃ m ∈ spans, m.1 ≤ i ∧ i < m.2

def slice (text : List Char) (s e : ℕ) : List Char := (text.drop s).take (e - s)

/-- The text from a place on, with parts of it replaced. -/
def render (text replacement : List Char) : ℕ → List (ℕ × ℕ) → List Char
  | pos, [] => text.drop pos
  | pos, (s,e) :: spans => slice text pos s ++ replacement ++ render text replacement e spans

theorem not_has_nil (i : ℕ) : ¬ Has [] i := by
  rintro ⟨m,hm,-⟩
  exact List.not_mem_nil hm

theorem le_of_has {pos i : ℕ} {spans : List (ℕ × ℕ)} (hordered : Ordered pos spans) (h : Has spans i) : pos ≤ i := by
  induction spans generalizing pos with
  | nil => exact (not_has_nil i h).elim
  | cons span spans ih =>
    obtain ⟨hs,he,hordered⟩ := hordered
    obtain ⟨m,hm,hle,hlt⟩ := h
    rcases List.mem_cons.mp hm with rfl | hm
    · omega
    · have := ih hordered ⟨m,hm,hle,hlt⟩
      omega

theorem has_cons {i : ℕ} {span : ℕ × ℕ} {spans : List (ℕ × ℕ)} :
    Has (span :: spans) i ↔ span.1 ≤ i ∧ i < span.2 ∨ Has spans i := by
  rw [Has,Has]
  constructor
  · rintro ⟨m,hm,hi⟩
    rcases List.mem_cons.mp hm with rfl | hm
    · exact .inl hi
    · exact .inr ⟨m,hm,hi⟩
  · rintro (hi | ⟨m,hm,hi⟩)
    · exact ⟨span,List.mem_cons_self,hi⟩
    · exact ⟨m,List.mem_cons_of_mem _ hm,hi⟩

theorem getElem?_of_mem_drop {text : List Char} {c : Char} {pos : ℕ} (h : c ∈ text.drop pos) : ∃ i, pos ≤ i ∧ text[i]? = some c := by
  obtain ⟨i,hi⟩ := List.mem_iff_getElem?.mp h
  rw [List.getElem?_drop] at hi
  exact ⟨pos + i,Nat.le_add_right _ _,hi⟩

theorem getElem?_of_mem_slice {text : List Char} {c : Char} {s e : ℕ} (h : c ∈ slice text s e) : ∃ i, s ≤ i ∧ i < e ∧ text[i]? = some c := by
  obtain ⟨i,hi⟩ := List.mem_iff_getElem?.mp h
  rw [slice,List.getElem?_take] at hi
  split at hi
  · rw [List.getElem?_drop] at hi
    exact ⟨s + i,by omega,by omega,hi⟩
  · cases hi

/-- What stands in the result is from the replacement, or from a place in no part. -/
theorem mem_render {text replacement : List Char} {pos : ℕ} {spans : List (ℕ × ℕ)} (hordered : Ordered pos spans) {c : Char}
    (h : c ∈ render text replacement pos spans) : c ∈ replacement ∨ ∃ i, pos ≤ i ∧ text[i]? = some c ∧ ¬ Has spans i := by
  induction spans generalizing pos with
  | nil =>
    obtain ⟨i,hi,hc⟩ := getElem?_of_mem_drop h
    exact .inr ⟨i,hi,hc,not_has_nil i⟩
  | cons span spans ih =>
    obtain ⟨hs,he,hrest⟩ := hordered
    rw [render] at h
    rcases List.mem_append.mp h with h | h
    · rcases List.mem_append.mp h with h | h
      · obtain ⟨i,hi,hlt,hc⟩ := getElem?_of_mem_slice h
        refine .inr ⟨i,hi,hc,fun hhas => ?_⟩
        rcases has_cons.mp hhas with hspan | hhas
        · omega
        · have := le_of_has hrest hhas
          omega
      · exact .inl h
    · rcases ih hrest h with h | ⟨i,hi,hc,hnot⟩
      · exact .inl h
      · refine .inr ⟨i,by omega,hc,fun hhas => ?_⟩
        rcases has_cons.mp hhas with hspan | hhas
        · omega
        · exact hnot hhas

end Spans

end Dwara.Lib
