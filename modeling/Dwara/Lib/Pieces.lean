import Mathlib.Data.List.Basic
import Mathlib.Data.List.Infix
import Mathlib.Data.Nat.Notation
import Mathlib.Data.List.TakeWhile
import Mathlib.Data.Nat.Basic
import Mathlib.Tactic.TypeStar

/-! A text decoded piece by piece: every piece stands for some of the input, and is left
alone or decoded. -/

namespace Dwara.Lib

structure Piece (α : Type*) where
  source : List α
  out : List α
  deriving DecidableEq, Repr

namespace Piece
variable {α : Type*}

/-- An element left alone. -/
def raw (a : α) : Piece α := ⟨[a],[a]⟩

def raws (as : List α) : List (Piece α) := as.map raw

def sources (ps : List (Piece α)) : List α := ps.flatMap source

def outs (ps : List (Piece α)) : List α := ps.flatMap out

/-- Every piece stands for something. -/
def Solid (ps : List (Piece α)) : Prop := ∀ p ∈ ps, p.source ≠ []

@[simp] theorem sources_nil : sources ([] : List (Piece α)) = [] := rfl
@[simp] theorem outs_nil : outs ([] : List (Piece α)) = [] := rfl
@[simp] theorem sources_cons (p : Piece α) (ps : List (Piece α)) : sources (p :: ps) = p.source ++ sources ps := rfl
@[simp] theorem outs_cons (p : Piece α) (ps : List (Piece α)) : outs (p :: ps) = p.out ++ outs ps := rfl
@[simp] theorem sources_append (ps qs : List (Piece α)) : sources (ps ++ qs) = sources ps ++ sources qs := List.flatMap_append
@[simp] theorem outs_append (ps qs : List (Piece α)) : outs (ps ++ qs) = outs ps ++ outs qs := List.flatMap_append

@[simp] theorem raws_append (as bs : List α) : raws (as ++ bs) = raws as ++ raws bs := List.map_append

@[simp] theorem sources_raws (as : List α) : sources (raws as) = as := by
  induction as with
  | nil => rfl
  | cons a as ih => exact congrArg (a :: ·) ih

@[simp] theorem outs_raws (as : List α) : outs (raws as) = as := by
  induction as with
  | nil => rfl
  | cons a as ih => exact congrArg (a :: ·) ih

theorem solid_raws (as : List α) : Solid (raws as) := by
  intro p hp
  obtain ⟨a,-,rfl⟩ := List.mem_map.mp hp
  exact List.cons_ne_nil a []

theorem Solid.append {ps qs : List (Piece α)} (hps : Solid ps) (hqs : Solid qs) : Solid (ps ++ qs) :=
  fun p hp => (List.mem_append.mp hp).elim (hps p) (hqs p)

theorem Solid.cons {p : Piece α} {ps : List (Piece α)} (hp : p.source ≠ []) (hps : Solid ps) : Solid (p :: ps) :=
  List.forall_mem_cons.mpr ⟨hp,hps⟩

theorem Solid.eq_nil {ps : List (Piece α)} (h : Solid ps) (hnil : sources ps = []) : ps = [] := by
  cases ps with
  | nil => rfl
  | cons p ps => exact absurd (List.append_eq_nil_iff.mp hnil).1 (h p List.mem_cons_self)

/-- There is one way to cut the pieces at a place of the input. -/
theorem Solid.cut_eq {ps qs ps' qs' : List (Piece α)} (h : Solid (ps ++ qs)) (heq : ps ++ qs = ps' ++ qs')
    (hsource : sources ps = sources ps') : ps = ps' ∧ qs = qs' := by
  rcases List.append_eq_append_iff.mp heq with ⟨rs,rfl,rfl⟩ | ⟨rs,rfl,rfl⟩
  · have hnil : sources rs = [] := by simpa using hsource
    have hsolid : Solid rs := fun p hp => h p (List.mem_append_right _ (List.mem_append_left _ hp))
    obtain rfl := hsolid.eq_nil hnil
    simp
  · have hnil : sources rs = [] := by simpa using hsource
    have hsolid : Solid rs := fun p hp => h p (List.mem_append_left _ (List.mem_append_right _ hp))
    obtain rfl := hsolid.eq_nil hnil
    simp

end Piece
end Dwara.Lib

/-! Numerals, and lists of pieces joined at a separator: what can be read back. -/

namespace Dwara.Lib.Joined

section Numerals

theorem digitChar_inj {i j : ℕ} (hi : i < 16) (hj : j < 16) (h : i.digitChar = j.digitChar) : i = j := by
  have hall : ∀ a b : Fin 16, a.val.digitChar = b.val.digitChar → a = b := by decide
  exact congrArg Fin.val (hall ⟨i,hi⟩ ⟨j,hj⟩ h)

variable {b : ℕ} (hb : 1 < b)
include hb

theorem length_toDigits_of_le {n : ℕ} (h : b ≤ n) : 1 < (Nat.toDigits b n).length := by
  have hpos : 0 < (Nat.toDigits b (n / b)).length := Nat.length_toDigits_pos
  rw [Nat.toDigits_of_base_le hb h,List.length_append,List.length_singleton]
  omega

/-- Numerals of up to sixteen digits tell the numbers apart. -/
theorem toDigits_injective (hb' : b ≤ 16) : Function.Injective (Nat.toDigits b) := by
  intro i
  induction i using Nat.strongRecOn with
  | ind i ih =>
    intro j h
    have hlast : ∀ n : ℕ, n % b < 16 := fun n => Nat.lt_of_lt_of_le (Nat.mod_lt n (by omega)) hb'
    by_cases hi : i < b
    · by_cases hj : j < b
      · rw [Nat.toDigits_of_lt_base hi,Nat.toDigits_of_lt_base hj] at h
        exact digitChar_inj (by omega) (by omega) (List.singleton_inj.mp h)
      · have hlong := length_toDigits_of_le hb (Nat.le_of_not_lt hj)
        rw [← h,Nat.toDigits_of_lt_base hi] at hlong
        exact absurd hlong (Nat.lt_irrefl 1)
    · by_cases hj : j < b
      · have hlong := length_toDigits_of_le hb (Nat.le_of_not_lt hi)
        rw [h,Nat.toDigits_of_lt_base hj] at hlong
        exact absurd hlong (Nat.lt_irrefl 1)
      · rw [Nat.toDigits_of_base_le hb (Nat.le_of_not_lt hi) ,Nat.toDigits_of_base_le (n := j) hb (Nat.le_of_not_lt hj)] at h
        obtain ⟨hrest,hdigit⟩ := List.append_inj' h rfl
        have hdiv := ih (i / b) (Nat.div_lt_self (by omega) hb) hrest
        have hmod := digitChar_inj (hlast i) (hlast j) (List.singleton_inj.mp hdigit)
        rw [← Nat.div_add_mod i b,hdiv,hmod,Nat.div_add_mod]

/-- A numeral is made of the digits of its base. -/
theorem mem_toDigits {n : ℕ} {c : Char} (h : c ∈ Nat.toDigits b n) : ∃ i < b, c = i.digitChar := by
  induction n using Nat.strongRecOn with
  | ind n ih =>
    by_cases hn : n < b
    · rw [Nat.toDigits_of_lt_base hn,List.mem_singleton] at h
      exact ⟨n,hn,h⟩
    · rw [Nat.toDigits_of_base_le hb (Nat.le_of_not_lt hn),List.mem_append,List.mem_singleton] at h
      rcases h with h | h
      · exact ih (n / b) (Nat.div_lt_self (by omega) hb) h
      · exact ⟨n % b,Nat.mod_lt n (by omega),h⟩

end Numerals

section Pieces
variable {α : Type*} {sep : α}

/-- What stands in a joined list is the separator or part of a piece. -/
theorem mem_join {c : α} {pieces : List (List α)} (h : c ∈ [sep].intercalate pieces) : c = sep ∨ ∃ p ∈ pieces, c ∈ p := by
  induction pieces with
  | nil => cases h
  | cons p rest ih =>
    cases rest with
    | nil => exact .inr ⟨p,List.mem_cons_self,by simpa using h⟩
    | cons q rest =>
      rw [List.intercalate_cons_cons,List.mem_append,List.mem_append,List.mem_singleton] at h
      rcases h with (h | h) | h
      · exact .inr ⟨p,List.mem_cons_self,h⟩
      · exact .inl h
      · rcases ih h with h | ⟨r,hr,h⟩
        · exact .inl h
        · exact .inr ⟨r,List.mem_cons_of_mem _ hr,h⟩

variable [DecidableEq α]

private theorem splitOn_cons {x : α} {text first : List α} {lines : List (List α)} (h : text.splitOn sep = first :: lines) :
    (x :: text).splitOn sep = if x = sep then [] :: first :: lines else (x :: first) :: lines := by
  rw [List.splitOn_cons_eq_if_modifyHead,h]
  simp

/-- A piece of a list has none but its elements, and not the separator. -/
theorem mem_of_mem_splitOn {c : α} {piece text : List α} (h : piece ∈ text.splitOn sep) (hc : c ∈ piece) : c ∈ text ∧ c ≠ sep := by
  induction text generalizing piece with
  | nil =>
    rw [List.splitOn_nil,List.mem_singleton] at h
    exact absurd (h ▸ hc) List.not_mem_nil
  | cons x text ih =>
    obtain ⟨first,lines,hlines⟩ := List.exists_cons_of_ne_nil (List.splitOn_ne_nil sep text)
    rw [splitOn_cons hlines] at h
    rw [hlines] at ih
    split_ifs at h with hx
    · obtain rfl | h := List.mem_cons.mp h
      · cases hc
      · exact (ih h hc).imp_left (List.mem_cons_of_mem x)
    · obtain rfl | h := List.mem_cons.mp h
      · obtain rfl | hc := List.mem_cons.mp hc
        · exact ⟨List.mem_cons_self,hx⟩
        · exact (ih List.mem_cons_self hc).imp_left (List.mem_cons_of_mem x)
      · exact (ih (List.mem_cons_of_mem first h) hc).imp_left (List.mem_cons_of_mem x)

/-- Pieces without the separator are read back from the joined list. -/
theorem splitOn_join {pieces : List (List α)} (hsep : ∀ p ∈ pieces, sep ∉ p) (hne : pieces ≠ []) :
    ([sep].intercalate pieces).splitOn sep = pieces := List.splitOn_intercalate sep hsep hne

section Gap
variable {pieces : List (List α)} (hsep : ∀ p ∈ pieces, sep ∉ p) (hne : ∀ p ∈ pieces, p ≠ []) (rest : List (List α))
include hsep hne

/-- Up to the first gap stand the pieces that were joined, none of them empty. -/
theorem takeWhile_join : (([sep].intercalate pieces).splitOn sep ++ [] :: rest).takeWhile (· ≠ []) = pieces := by
  by_cases hnil : pieces = []
  · subst hnil
    simp
  · rw [splitOn_join hsep hnil,List.takeWhile_append_of_pos (by simpa using hne)]
    simp

/-- Back to the last gap stand the pieces that were joined. -/
theorem takeWhile_reverse_join :
    ((([sep].intercalate pieces).splitOn sep).reverse ++ [] :: rest).takeWhile (· ≠ []) = pieces.reverse := by
  by_cases hnil : pieces = []
  · subst hnil
    simp
  · rw [splitOn_join hsep hnil,List.takeWhile_append_of_pos (by simpa using hne)]
    simp

end Gap
end Pieces
end Dwara.Lib.Joined
