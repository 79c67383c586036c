import Mathlib.Data.Int.Notation
import Mathlib.Data.List.Basic
import Mathlib.Data.List.Infix
import Mathlib.Data.List.TakeDrop
import Mathlib.Data.List.TakeWhile
import Mathlib.Data.Nat.Basic
import Mathlib.Tactic.TypeStar

/-! Strings cut into pieces, compared without regard to ASCII case. -/

namespace Dwara.Lib.Text

/-- The characters with the Unicode property `White_Space`. -/
def isWhitespace (c : Char) : Bool :=
  (9 ≤ c.toNat && c.toNat ≤ 13) || (0x2000 ≤ c.toNat && c.toNat ≤ 0x200A) ||
    [0x20,0x85,0xA0,0x1680,0x2028,0x2029,0x202F,0x205F,0x3000].contains c.toNat

def trimChars (cs : List Char) : List Char :=
  ((cs.dropWhile isWhitespace).reverse.dropWhile isWhitespace).reverse

def trim (s : String) : String := String.ofList (trimChars s.toList)

/-- The pieces between separators, empty ones included. -/
def split (sep : Char) (s : String) : List String := (s.toList.splitOn sep).map String.ofList

/-- The pieces around the first separator. -/
def splitOnce (sep : Char) (s : String) : Option (String × String) :=
  match s.toList.span (· ≠ sep) with
  | (_, []) => none
  | (before, _ :: after) => some (String.ofList before,String.ofList after)

def startsWith (start s : String) : Bool := start.toList.isPrefixOf s.toList

def contains (pattern s : String) : Bool := s.toList.tails.any pattern.toList.isPrefixOf

def toAsciiLowercase (s : String) : String := String.ofList (s.toList.map Char.toLower)

/-- What follows `start`, when the text begins with it. -/
def afterStart (start s : String) : Option String :=
  if start.toList.isPrefixOf s.toList then some (String.ofList (s.toList.drop start.length)) else none

/-- What stands before the last separator. -/
def beforeLast (sep : Char) (s : String) : Option String :=
  match s.toList.reverse.span (· ≠ sep) with
  | (_, []) => none
  | (_, _ :: before) => some (String.ofList before.reverse)

/-- The text around the first occurrence of `pattern`. -/
def splitOnceAt (pattern : List Char) : List Char → Option (List Char × List Char)
  | [] => if pattern = [] then some ([],[]) else none
  | c :: cs =>
    if pattern.isPrefixOf (c :: cs) then some ([],(c :: cs).drop pattern.length)
    else (splitOnceAt pattern cs).map fun (before,after) => (c :: before,after)

/-- The text around the last separator. -/
def splitLast (sep : Char) (cs : List Char) : Option (List Char × List Char) :=
  match cs.reverse.span (· ≠ sep) with
  | (_, []) => none
  | (after, _ :: before) => some (before.reverse,after.reverse)

/-- The first line, without its end. -/
def firstLine (cs : List Char) : List Char :=
  match cs.span (· ≠ '\n') with
  | (line, []) => line
  | (line, _ :: _) => if line.getLast? = some '\r' then line.dropLast else line

/-- A number of 16 bits in decimal, after an optional plus sign. -/
def parseU16 (cs : List Char) : Option ℕ :=
  let digits := if cs.head? = some '+' then cs.tail else cs
  if digits = [] ∨ ¬ digits.all Char.isDigit then none
  else
    let n := Nat.ofDigitChars 10 digits 0
    if n < 65536 then some n else none

def splitWhitespace (s : String) : List String :=
  ((s.toList.splitOnP isWhitespace).filter (· ≠ [])).map String.ofList

def eqIgnoreAsciiCase (a b : String) : Bool := a.toList.map Char.toLower = b.toList.map Char.toLower

theorem contains_iff {pattern s : String} : contains pattern s = true ↔ pattern.toList <:+: s.toList := by
  simp only [contains,List.any_eq_true,List.mem_tails,List.isPrefixOf_iff_prefix,List.infix_iff_prefix_suffix,And.comm]

/-- What stands before the first separator, and after it. -/
theorem append_sep_inj {α : Type*} {sep : α} {x y xs ys : List α} (hx : sep ∉ x) (hy : sep ∉ y)
    (h : x ++ sep :: xs = y ++ sep :: ys) : x = y ∧ xs = ys := by
  induction x generalizing y with
  | nil =>
    cases y with
    | nil => exact ⟨rfl,(List.cons.inj h).2⟩
    | cons b y => exact absurd ((List.cons.inj h).1 ▸ List.mem_cons_self) hy
  | cons a x ih =>
    cases y with
    | nil => exact absurd ((List.cons.inj h).1 ▸ List.mem_cons_self) hx
    | cons b y =>
      obtain ⟨hhead,htail⟩ := List.cons.inj h
      obtain ⟨hxy,hrest⟩ := ih (List.not_mem_of_not_mem_cons hx) (List.not_mem_of_not_mem_cons hy) htail
      exact ⟨by rw [hhead,hxy],hrest⟩

section Splitting

/-- A separator between two texts separates their pieces. -/
theorem split_append_sep (sep : Char) (a b : String) : split sep (a ++ String.ofList [sep] ++ b) = split sep a ++ split sep b := by
  have hchars : (a ++ String.ofList [sep] ++ b).toList = a.toList ++ sep :: b.toList := by
    rw [String.toList_append,String.toList_append,String.toList_ofList]
    simp
  rw [split,hchars,List.splitOn_append_cons_self,List.map_append]
  rfl

theorem split_eq_singleton {sep : Char} {s : String} (h : sep ∉ s.toList) : split sep s = [s] := by
  rw [split,List.splitOn_eq_singleton h]
  simp

theorem splitOnceAt_eq_none {a : Char} {as cs : List Char} (h : a ∉ cs) : splitOnceAt (a :: as) cs = none := by
  induction cs with
  | nil => rfl
  | cons c cs ih =>
    have hc : ¬ (a :: as).isPrefixOf (c :: cs) := by
      have hne : a ≠ c := fun he => h (he ▸ List.mem_cons_self)
      simp [List.isPrefixOf,hne]
    rw [splitOnceAt,if_neg hc,ih (List.not_mem_of_not_mem_cons h)]
    rfl

/-- Before the first occurrence stands no first character of the pattern. -/
theorem splitOnceAt_append {a : Char} {as before : List Char} (h : a ∉ before) (cs : List Char) :
    splitOnceAt (a :: as) (before ++ cs) = (splitOnceAt (a :: as) cs).map fun parts => (before ++ parts.1,parts.2) := by
  induction before with
  | nil =>
    rw [List.nil_append]
    cases splitOnceAt (a :: as) cs with
    | none => rfl
    | some parts => rfl
  | cons c before ih =>
    have hc : ¬ (a :: as).isPrefixOf (c :: (before ++ cs)) := by
      have hne : a ≠ c := fun he => h (he ▸ List.mem_cons_self)
      simp [List.isPrefixOf,hne]
    rw [List.cons_append,splitOnceAt,if_neg hc,ih (List.not_mem_of_not_mem_cons h),Option.map_map]
    rfl

theorem splitOnceAt_eq {a : Char} {as before after : List Char} (h : a ∉ before) :
    splitOnceAt (a :: as) (before ++ (a :: as ++ after)) = some (before,after) := by
  have hpattern : (a :: as).isPrefixOf (a :: (as ++ after)) := List.isPrefixOf_iff_prefix.mpr (List.prefix_append (a :: as) after)
  rw [splitOnceAt_append h,List.cons_append,splitOnceAt,if_pos hpattern,← List.cons_append,List.drop_left]
  simp

/-- A pattern that occurs is found. -/
theorem splitOnceAt_isSome (pattern before after : List Char) : (splitOnceAt pattern (before ++ (pattern ++ after))).isSome := by
  induction before with
  | nil =>
    rw [List.nil_append]
    cases hcs : pattern ++ after with
    | nil =>
      rw [splitOnceAt,if_pos (List.append_eq_nil_iff.mp hcs).1]
      rfl
    | cons c cs =>
      have hpattern : pattern.isPrefixOf (c :: cs) := by
        rw [← hcs]
        exact List.isPrefixOf_iff_prefix.mpr (List.prefix_append _ _)
      rw [splitOnceAt,if_pos hpattern]
      rfl
  | cons c cs ih =>
    rw [List.cons_append,splitOnceAt]
    split
    · rfl
    · rw [Option.isSome_map]
      exact ih

private theorem span_ne {sep : Char} {cs : List Char} (h : sep ∉ cs) (rest : List Char) :
    (cs ++ sep :: rest).span (· ≠ sep) = (cs,sep :: rest) ∧ cs.span (· ≠ sep) = (cs,[]) := by
  have hne : ∀ c ∈ cs, decide (c ≠ sep) = true := by
    intro c hc
    exact decide_eq_true fun he => h (he ▸ hc)
  rw [List.span_eq_takeWhile_dropWhile,List.span_eq_takeWhile_dropWhile,List.takeWhile_append_of_pos hne,
    List.dropWhile_append_of_pos hne]
  constructor
  · simp
  · rw [List.takeWhile_eq_self_iff.mpr hne,List.dropWhile_eq_nil_iff.mpr hne]

theorem splitLast_eq_none {sep : Char} {cs : List Char} (h : sep ∉ cs) : splitLast sep cs = none := by
  rw [splitLast,(span_ne (fun hr => h (List.mem_reverse.mp hr)) []).2]

theorem splitLast_eq {sep : Char} {before after : List Char} (h : sep ∉ after) :
    splitLast sep (before ++ sep :: after) = some (before,after) := by
  rw [splitLast,List.reverse_append,List.reverse_cons,List.append_assoc,List.singleton_append,
    (span_ne (fun hr => h (List.mem_reverse.mp hr)) _).1]
  simp

theorem firstLine_eq {line rest : List Char} (h : '\n' ∉ line) : firstLine (line ++ '\r' :: '\n' :: rest) = line := by
  have hline : '\n' ∉ line ++ ['\r'] := by simp [h]
  have hspan := (span_ne hline rest).1
  rw [List.append_assoc] at hspan
  rw [firstLine]
  simp only [List.singleton_append] at hspan
  rw [hspan]
  simp

end Splitting

section Numerals

theorem toString_nat_injective : Function.Injective (toString : ℕ → String) := by
  intro i j h
  rw [Nat.toString_eq_ofList_toDigits,Nat.toString_eq_ofList_toDigits,String.ofList_inj] at h
  rw [← Nat.ofDigitChars_ten_toDigits (n := i),h,Nat.ofDigitChars_ten_toDigits]

theorem isDigit_of_mem_toString_nat {n : ℕ} {c : Char} (h : c ∈ (toString n).toList) : c.isDigit := by
  rw [Nat.toString_eq_ofList_toDigits,String.toList_ofList] at h
  exact Nat.isDigit_of_mem_toDigits (by decide) (by decide) h

theorem toString_int (z : ℤ) : (toString z).toList = if 0 ≤ z then (toString z.toNat).toList else '-' :: (toString (-z).toNat).toList := by
  rw [Int.toString_eq_repr,Int.repr_eq_if]
  split
  · rfl
  · rw [String.toList_append]
    rfl

theorem parseU16_toString {n : ℕ} (h : n < 65536) : parseU16 (toString n).toList = some n := by
  have hdigits : (toString n).toList = Nat.toDigits 10 n := by rw [Nat.toString_eq_ofList_toDigits,String.toList_ofList]
  have hall : ∀ c ∈ Nat.toDigits 10 n, c.isDigit := fun c hc => Nat.isDigit_of_mem_toDigits (by decide) (by decide) hc
  have hne : Nat.toDigits 10 n ≠ [] := Nat.toDigits_ne_nil
  have hplus : (Nat.toDigits 10 n).head? ≠ some '+' := by
    intro hhead
    have hdigit := hall '+' (List.mem_of_mem_head? hhead)
    exact absurd hdigit (by decide)
  have hall' : (Nat.toDigits 10 n).all Char.isDigit := List.all_eq_true.mpr hall
  rw [parseU16,hdigits]
  simp only
  rw [if_neg hplus,if_neg (by simp [hne,hall']),Nat.ofDigitChars_ten_toDigits,if_pos h]

/-- What ends in a closing bracket is no number. -/
theorem parseU16_bracket (cs : List Char) : parseU16 (cs ++ [']']) = none := by
  have hmem : ']' ∈ (if (cs ++ [']']).head? = some '+' then (cs ++ [']']).tail else cs ++ [']']) := by
    split
    · cases cs with
      | nil => simp at *
      | cons c cs => simp
    · simp
  rw [parseU16]
  simp only
  rw [if_pos]
  right
  intro hall
  have hdigit := List.all_eq_true.mp hall _ hmem
  exact absurd hdigit (by decide)

theorem mem_toString_int {z : ℤ} {c : Char} (h : c ∈ (toString z).toList) : c = '-' ∨ c.isDigit := by
  rw [toString_int] at h
  split at h
  · exact .inr (isDigit_of_mem_toString_nat h)
  · rcases List.mem_cons.mp h with hc | h
    · exact .inl hc
    · exact .inr (isDigit_of_mem_toString_nat h)

theorem toString_int_injective : Function.Injective (toString : ℤ → String) := by
  have hsign : ∀ (n : ℕ) (cs : List Char), (toString n).toList ≠ '-' :: cs := by
    intro n cs h
    have hdigit : '-'.isDigit := isDigit_of_mem_toString_nat (h ▸ List.mem_cons_self)
    exact absurd hdigit (by decide)
  intro i j h
  have hlist := congrArg String.toList h
  rw [toString_int,toString_int] at hlist
  split at hlist
  · split at hlist
    · have hnat := toString_nat_injective (String.toList_inj.mp hlist)
      omega
    · exact absurd hlist (hsign _ _)
  · split at hlist
    · exact absurd hlist.symm (hsign _ _)
    · have hnat := toString_nat_injective (String.toList_inj.mp (List.cons.inj hlist).2)
      omega

end Numerals
end Dwara.Lib.Text
