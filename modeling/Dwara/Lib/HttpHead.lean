import Mathlib.Data.List.Basic
import Mathlib.Data.Nat.Notation

/-! The first head of an HTTP/1 stream, as a tolerant parser reads it: empty lines before the
request line are skipped, and a line ends at a line feed, with or without a carriage return. -/

namespace Dwara.Lib.HttpHead

abbrev Bytes := List UInt8

def cr : UInt8 := 13

def lf : UInt8 := 10

/-- What is left of an empty line without its line feed. -/
def isBlank (line : Bytes) : Bool := line == [] || line == [cr]

def stripCr (line : Bytes) : Bytes := if line.getLast? = some cr then line.dropLast else line

/-- The number of empty lines in front, and what is behind them. -/
def skipEmpty : Bytes → ℕ × Bytes
  | [] => (0,[])
  | [b] => if b = lf then (1,[]) else (0,[b])
  | b :: c :: rest =>
    if b = lf then ((skipEmpty (c :: rest)).1 + 1,(skipEmpty (c :: rest)).2)
    else if b = cr ∧ c = lf then ((skipEmpty rest).1 + 1,(skipEmpty rest).2)
    else (0,b :: c :: rest)

/-- The lines up to an empty one, and what is behind it; the line that is being read comes first. -/
def readLines : Bytes → Bytes → Option (List Bytes × Bytes)
  | _, [] => none
  | line, b :: rest =>
    if b = lf then if isBlank line then some ([],rest) else (readLines [] rest).map fun x => (line :: x.1,x.2)
    else readLines (line ++ [b]) rest

/-- A request head. Its lines are without their line feeds. -/
structure Head where
  empties : ℕ
  request : Bytes
  fields : List Bytes
  rest : Bytes

def firstHead (stream : Bytes) : Option Head :=
  match readLines [] (skipEmpty stream).2 with
  | some (request :: fields,rest) => some { empties := (skipEmpty stream).1, request, fields, rest }
  | _ => none

def toLower (b : UInt8) : UInt8 := if 65 ≤ b ∧ b ≤ 90 then b + 32 else b

def eqIgnoreCase (a b : Bytes) : Bool := a.map toLower == b.map toLower

/-- The name in front of the colon of a line. -/
def fieldName (line : Bytes) : Option Bytes := if 58 ∈ line then some (line.takeWhile (· ≠ 58)) else none

def isNamed (name line : Bytes) : Bool := (fieldName (stripCr line)).any (eqIgnoreCase · name)

/-- The line starts with a blank or a tab. -/
def isFolded (line : Bytes) : Bool := line.head? == some 32 || line.head? == some 9

/-- `content-length` -/
def contentLength : Bytes := [99,111,110,116,101,110,116,45,108,101,110,103,116,104]

/-- `transfer-encoding` -/
def transferEncoding : Bytes := [116,114,97,110,115,102,101,114,45,101,110,99,111,100,105,110,103]

namespace Head

/-- Two framings are given, or a line is folded. -/
def carries (h : Head) : Bool :=
  h.fields.any (isNamed contentLength) && h.fields.any (isNamed transferEncoding) || h.fields.any isFolded

end Head

/-- The lines with their line feeds. -/
def terminated (lines : List Bytes) : Bytes := lines.flatMap (· ++ [lf])

@[simp] theorem terminated_nil : terminated [] = [] := rfl

@[simp] theorem terminated_cons (line : Bytes) (lines : List Bytes) : terminated (line :: lines) = line ++ lf :: terminated lines := by
  simp [terminated]

@[simp] theorem terminated_append (xs ys : List Bytes) : terminated (xs ++ ys) = terminated xs ++ terminated ys := List.flatMap_append

theorem isBlank_eq_true {line : Bytes} : isBlank line = true ↔ line = [] ∨ line = [cr] := by simp [isBlank]

/-- A line of a head. -/
structure IsLine (line : Bytes) : Prop where
  notMem : lf ∉ line
  notBlank : isBlank line = false

theorem readLines_eq {line s : Bytes} {lines : List Bytes} {rest : Bytes} (hline : lf ∉ line) (h : readLines line s = some (lines,rest)) :
    ∃ blank, isBlank blank = true ∧ line ++ s = terminated lines ++ (blank ++ lf :: rest) ∧ ∀ l ∈ lines, IsLine l := by
  induction s generalizing line lines with
  | nil => exact nomatch h
  | cons b s ih =>
    rw [readLines] at h
    split_ifs at h with hb hblank
    · obtain ⟨rfl,rfl⟩ := Prod.mk.inj (Option.some.inj h)
      exact ⟨line,hblank,by rw [hb]; rfl,fun l hl => absurd hl List.not_mem_nil⟩
    · obtain ⟨x,hx,heq⟩ := Option.map_eq_some_iff.mp h
      obtain ⟨rfl,rfl⟩ := Prod.mk.inj heq
      obtain ⟨blank,hblank',hs,hlines⟩ := ih List.not_mem_nil hx
      rw [List.nil_append] at hs
      refine ⟨blank,hblank',?_,?_⟩
      · rw [hb,terminated_cons,hs,List.append_assoc,List.cons_append]
      · intro l hl
        obtain rfl | hl := List.mem_cons.mp hl
        · exact ⟨hline,by simpa using hblank⟩
        · exact hlines l hl
    · have hline' : lf ∉ line ++ [b] := by
        rw [List.mem_append,List.mem_singleton]
        rintro (hmem | heq)
        · exact hline hmem
        · exact hb heq.symm
      obtain ⟨blank,hblank',hs,hlines⟩ := ih hline' h
      exact ⟨blank,hblank',by rw [← hs,List.append_assoc]; rfl,hlines⟩

theorem skipEmpty_eq (s : Bytes) :
    ∃ empties : List Bytes, empties.length = (skipEmpty s).1 ∧ (∀ l ∈ empties, isBlank l = true) ∧
      s = terminated empties ++ (skipEmpty s).2 := by
  fun_induction skipEmpty s with
  | case1 => exact ⟨[],rfl,fun l hl => absurd hl List.not_mem_nil,rfl⟩
  | case2 => exact ⟨[[]],rfl,by simp [isBlank],rfl⟩
  | case3 b hb => exact ⟨[],rfl,fun l hl => absurd hl List.not_mem_nil,rfl⟩
  | case4 c rest ih =>
    obtain ⟨empties,hlen,hblank,hs⟩ := ih
    refine ⟨[] :: empties,by simp [hlen],?_,?_⟩
    · intro l hl
      obtain rfl | hl := List.mem_cons.mp hl
      · rfl
      · exact hblank l hl
    · rw [terminated_cons,List.nil_append,List.cons_append,← hs]
  | case5 b c rest _ hc ih =>
    obtain ⟨empties,hlen,hblank,hs⟩ := ih
    refine ⟨[cr] :: empties,by simp [hlen],?_,?_⟩
    · intro l hl
      obtain rfl | hl := List.mem_cons.mp hl
      · rfl
      · exact hblank l hl
    · rw [hc.1,hc.2,terminated_cons]
      exact congrArg (cr :: lf :: ·) hs
  | case6 b c rest _ _ => exact ⟨[],rfl,fun l hl => absurd hl List.not_mem_nil,rfl⟩

/-- What a stream consists of that has a head. -/
theorem firstHead_eq {stream : Bytes} {head : Head} (h : firstHead stream = some head) :
    ∃ (empties : List Bytes) (blank : Bytes), empties.length = head.empties ∧ (∀ l ∈ empties, isBlank l = true) ∧ isBlank blank = true ∧
      (∀ l ∈ head.request :: head.fields, IsLine l) ∧
      stream = terminated (empties ++ head.request :: head.fields) ++ (blank ++ lf :: head.rest) := by
  rw [firstHead] at h
  split at h
  · rename_i request fields rest hread
    obtain rfl := Option.some.inj h
    obtain ⟨empties,hlen,hempties,hs⟩ := skipEmpty_eq stream
    obtain ⟨blank,hblank,hlines,hall⟩ := readLines_eq List.not_mem_nil hread
    rw [List.nil_append] at hlines
    refine ⟨empties,blank,hlen,hempties,hblank,hall,?_⟩
    rw [terminated_append,List.append_assoc,← hlines]
    exact hs
  · exact nomatch h

/-- A text of whole lines is split into them. -/
theorem splitOn_terminated {lines : List Bytes} (h : ∀ l ∈ lines, lf ∉ l) : (terminated lines).splitOn lf = lines ++ [[]] := by
  induction lines with
  | nil => rfl
  | cons line lines ih =>
    have hline : ∀ b ∈ line, (b == lf) = false := by
      intro b hb
      exact beq_eq_false_iff_ne.mpr fun heq => h line List.mem_cons_self (heq ▸ hb)
    rw [terminated_cons,List.splitOn,List.splitOnP_append_cons_of_forall_mem hline lf (by simp)]
    exact congrArg (line :: ·) (ih fun l hl => h l (List.mem_cons_of_mem line hl))

end Dwara.Lib.HttpHead
