import Dwara.Lib.Text
import Dwara.Lib.Json
import Mathlib.Data.Bool.AllAny
import Mathlib.Data.List.Chain

/-! The lexical grammar of GraphQL, with every ignored character kept, so that the lexemes of a
text are its whole content. -/

namespace Dwara.Lib.Graphql

def isNameStart (c : Char) : Bool := c.isAlpha || c == '_'

def isNameChar (c : Char) : Bool := c.isAlphanum || c == '_'

def isLineEnd (c : Char) : Bool := c == '\n' || c == '\r'

/-- White space, line ends, commas and the byte order mark. -/
def isIgnored (c : Char) : Bool := c == ' ' || c == '\t' || isLineEnd c || c == ',' || c.toNat == 0xfeff

def isPunctuator (c : Char) : Bool := ['!','$','&','(',')',':','=','@','[',']','\x7b','|','\x7d'].contains c

def isHex (c : Char) : Bool := c.isDigit || ('a' ≤ c && c ≤ 'f') || ('A' ≤ c && c ≤ 'F')

def isSimpleEscape (c : Char) : Bool := ['"','\\','/','b','f','n','r','t'].contains c

/-- A `$` with a name behind it is one lexeme. -/
inductive Lexeme where
  | ignored (c : Char)
  | comment (text : List Char)
  | punctuator (c : Char)
  | spread
  | name (text : List Char)
  | reference (name : List Char)
  | number (text : List Char)
  | string (raw : List Char)
  | blockString (raw : List Char)
  deriving DecidableEq, Repr

namespace Lexeme

def text : Lexeme → List Char
  | ignored c => [c]
  | comment t => '#' :: t
  | punctuator c => [c]
  | spread => ['.','.','.']
  | name t => t
  | reference t => '$' :: t
  | number t => t
  | string raw => '"' :: (raw ++ ['"'])
  | blockString raw => '"' :: '"' :: '"' :: (raw ++ ['"','"','"'])

def isReference : Lexeme → Bool
  | reference _ => true
  | _ => false

end Lexeme

def render (ls : List Lexeme) : List Char := ls.flatMap Lexeme.text

@[simp] theorem render_nil : render [] = [] := rfl

@[simp] theorem render_cons (a : Lexeme) (ls : List Lexeme) : render (a :: ls) = a.text ++ render ls := rfl

@[simp] theorem render_append (xs ys : List Lexeme) : render (xs ++ ys) = render xs ++ render ys := List.flatMap_append

def isName : List Char → Bool
  | [] => false
  | c :: cs => isNameStart c && cs.all isNameChar

/-- How far a number has been read. -/
inductive NumberState where
  | start | minus | zero | int | dot | frac | e | sign | exp
  deriving DecidableEq, Repr

namespace NumberState

def leading (c : Char) : Option NumberState := if c = '0' then some zero else if c.isDigit then some int else none

def tail (c : Char) : Option NumberState := if c = '.' then some dot else if c = 'e' ∨ c = 'E' then some e else none

def digit (s : NumberState) (c : Char) : Option NumberState := if c.isDigit then some s else none

def step : NumberState → Char → Option NumberState
  | start, c => if c = '-' then some minus else leading c
  | minus, c => leading c
  | zero, c => tail c
  | int, c => (digit int c).or (tail c)
  | dot, c => digit frac c
  | frac, c => (digit frac c).or (if c = 'e' ∨ c = 'E' then some e else none)
  | e, c => if c = '+' ∨ c = '-' then some sign else digit exp c
  | sign, c => digit exp c
  | exp, c => digit exp c

def accepting : NumberState → Bool
  | zero | int | frac | exp => true
  | _ => false

/-- The longest start that can be part of a number. -/
def munch : NumberState → List Char → NumberState × List Char × List Char
  | s, [] => (s,[],[])
  | s, c :: cs =>
    match s.step c with
    | none => (s,[],c :: cs)
    | some s' => ((munch s' cs).1,c :: (munch s' cs).2.1,(munch s' cs).2.2)

end NumberState

def isNumber (t : List Char) : Bool := (t.foldlM NumberState.step .start).any NumberState.accepting

/-- What may not stand right behind a number. -/
def isNumberFollow (c : Char) : Bool := c.isDigit || c == '.' || isNameStart c

def lexNumber (cs : List Char) : Option (List Char × List Char) :=
  let m := NumberState.munch .start cs
  if m.1.accepting ∧ ¬ m.2.2.head?.any isNumberFollow then some m.2 else none

/-- How far an escape in a string has been read. -/
inductive StringState where
  | plain | escaped | unicode (left : ℕ)
  deriving DecidableEq, Repr

namespace StringState

def step : StringState → Char → Option StringState
  | plain, c => if c = '\\' then some escaped else if isLineEnd c then none else some plain
  | escaped, c => if c = 'u' then some (unicode 3) else if isSimpleEscape c then some plain else none
  | unicode 0, c => if isHex c then some plain else none
  | unicode (left + 1), c => if isHex c then some (unicode left) else none

end StringState

/-- A string up to its closing quotation mark. -/
def lexString : StringState → List Char → Option (List Char × List Char)
  | _, [] => none
  | s, c :: cs =>
    if s = .plain ∧ c = '"' then some ([],cs)
    else (s.step c).bind fun s' => (lexString s' cs).map fun x => (c :: x.1,x.2)

/-- A block string up to its closing quotation marks; the first characters may be skipped. -/
def lexBlockString : ℕ → List Char → Option (List Char × List Char)
  | _, [] => none
  | skip + 1, c :: cs => (lexBlockString skip cs).map fun x => (c :: x.1,x.2)
  | 0, c :: cs =>
    if ['"','"','"'].isPrefixOf (c :: cs) then some ([],cs.drop 2)
    else (lexBlockString (if ['\\','"','"','"'].isPrefixOf (c :: cs) then 3 else 0) cs).map fun x => (c :: x.1,x.2)

/-- What begins with a quotation mark, behind it. -/
def lexQuoted (cs : List Char) : Option (Lexeme × List Char) :=
  if ['"','"'].isPrefixOf cs then (lexBlockString 0 (cs.drop 2)).map fun x => (.blockString x.1,x.2)
  else (lexString .plain cs).map fun x => (.string x.1,x.2)

/-- The first lexeme of a text. -/
def next : List Char → Option (Lexeme × List Char)
  | [] => none
  | c :: cs =>
    if isIgnored c then some (.ignored c,cs)
    else if c = '#' then some (.comment (cs.takeWhile (! isLineEnd ·)),cs.dropWhile (! isLineEnd ·))
    else if c = '$' ∧ cs.head?.any isNameStart then some (.reference (cs.takeWhile isNameChar),cs.dropWhile isNameChar)
    else if isPunctuator c then some (.punctuator c,cs)
    else if c = '.' then if ['.','.'].isPrefixOf cs then some (.spread,cs.drop 2) else none
    else if isNameStart c then some (.name (c :: cs.takeWhile isNameChar),cs.dropWhile isNameChar)
    else if c = '"' then lexQuoted cs
    else (lexNumber (c :: cs)).map fun x => (.number x.1,x.2)

namespace NumberState

theorem munch_eq {s s' : NumberState} {cs t r : List Char} (h : munch s cs = (s',t,r)) :
    cs = t ++ r ∧ t.foldlM step s = some s' ∧ ∀ c ∈ r.head?, s'.step c = none := by
  induction cs generalizing s s' t r with
  | nil =>
    obtain ⟨rfl,rfl,rfl⟩ : s = s' ∧ [] = t ∧ [] = r := by simpa [munch] using h
    exact ⟨rfl,rfl,by simp⟩
  | cons c cs ih =>
    rw [munch] at h
    split at h
    · rename_i hnone
      obtain ⟨rfl,rfl,rfl⟩ : s = s' ∧ [] = t ∧ c :: cs = r := by simpa using h
      exact ⟨rfl,rfl,by simpa using hnone⟩
    · rename_i q hq
      obtain ⟨rfl,rfl,rfl⟩ : (munch q cs).1 = s' ∧ c :: (munch q cs).2.1 = t ∧ (munch q cs).2.2 = r := by simpa using h
      obtain ⟨hcs,hrun,hstop⟩ := ih (s := q) rfl
      refine ⟨by rw [List.cons_append,← hcs],?_,hstop⟩
      rw [List.foldlM_cons,hq]
      exact hrun

theorem munch_append {s s' : NumberState} {t : List Char} (h : t.foldlM step s = some s') {r : List Char}
    (hstop : ∀ c ∈ r.head?, s'.step c = none) : munch s (t ++ r) = (s',t,r) := by
  induction t generalizing s with
  | nil =>
    obtain rfl := Option.some.inj h
    cases r with
    | nil => rfl
    | cons c r =>
      have hnone : s.step c = none := hstop c rfl
      rw [List.nil_append,munch,hnone]
  | cons c t ih =>
    rw [List.foldlM_cons] at h
    obtain ⟨q,hq,h⟩ := Option.bind_eq_some_iff.mp h
    rw [List.cons_append,munch,hq]
    dsimp only
    rw [ih h]

/-- A number that has been read whole goes on only with what may not follow one. -/
theorem step_eq_none {s : NumberState} (h : s.accepting = true) {c : Char} (hc : isNumberFollow c = false) : s.step c = none := by
  simp only [isNumberFollow,Bool.or_eq_false_iff,beq_eq_false_iff_ne] at hc
  obtain ⟨⟨hdigit,hdot⟩,hname⟩ := hc
  have he : c ≠ 'e' := by
    rintro rfl
    exact absurd hname (by decide)
  have hE : c ≠ 'E' := by
    rintro rfl
    exact absurd hname (by decide)
  cases s with
  | zero => simp [step,tail,hdot,he,hE]
  | int => simp [step,tail,digit,hdigit,hdot,he,hE]
  | frac => simp [step,digit,hdigit,he,hE]
  | exp => simp [step,digit,hdigit]
  | _ => exact nomatch h

end NumberState

theorem isNumber_eq_true {t : List Char} : isNumber t = true ↔ ∃ s, t.foldlM NumberState.step .start = some s ∧ s.accepting = true := by
  rw [isNumber]
  cases t.foldlM NumberState.step .start <;> simp

theorem lexNumber_eq_some {cs t r : List Char} :
    lexNumber cs = some (t,r) ↔ cs = t ++ r ∧ isNumber t = true ∧ r.head?.any isNumberFollow = false := by
  constructor
  · intro h
    obtain ⟨s,t',r',hm⟩ : ∃ s t' r', NumberState.munch .start cs = (s,t',r') := ⟨_,_,_,rfl⟩
    rw [lexNumber,hm] at h
    dsimp only at h
    split at h
    · rename_i haccepts
      obtain ⟨rfl,rfl⟩ := Prod.mk.inj (Option.some.inj h)
      obtain ⟨hcs,hrun,-⟩ := NumberState.munch_eq hm
      exact ⟨hcs,isNumber_eq_true.mpr ⟨s,hrun,haccepts.1⟩,by simpa using haccepts.2⟩
    · exact nomatch h
  · rintro ⟨rfl,hnumber,hfollow⟩
    obtain ⟨s,hs,haccepts⟩ := isNumber_eq_true.mp hnumber
    have hm : NumberState.munch .start (t ++ r) = (s,t,r) := by
      apply NumberState.munch_append hs
      intro c hc
      rw [Option.mem_def.mp hc] at hfollow
      exact NumberState.step_eq_none haccepts hfollow
    rw [lexNumber,hm]
    exact if_pos ⟨haccepts,by simp [hfollow]⟩

theorem lexString_eq {s : StringState} {cs raw r : List Char} (h : lexString s cs = some (raw,r)) :
    cs = raw ++ '"' :: r ∧ ∀ r', lexString s (raw ++ '"' :: r') = some (raw,r') := by
  induction cs generalizing s raw with
  | nil => exact nomatch h
  | cons c cs ih =>
    rw [lexString] at h
    split at h
    · rename_i hclose
      obtain ⟨rfl,rfl⟩ := Prod.mk.inj (Option.some.inj h)
      rw [hclose.1,hclose.2]
      exact ⟨rfl,fun r' => rfl⟩
    · rename_i hopen
      obtain ⟨s',hs',h⟩ := Option.bind_eq_some_iff.mp h
      obtain ⟨x,hx,heq⟩ := Option.map_eq_some_iff.mp h
      obtain ⟨rfl,rfl⟩ := Prod.mk.inj heq
      obtain ⟨hcs,hraw⟩ := ih hx
      refine ⟨by rw [hcs]; rfl,fun r' => ?_⟩
      rw [List.cons_append,lexString,if_neg hopen,hs',Option.bind_some,hraw r']
      rfl

private theorem isPrefixOf_append {p u : List Char} (h : p.length ≤ u.length) (r : List Char) :
    p.isPrefixOf (u ++ r) = p.isPrefixOf u := by
  rw [Bool.eq_iff_iff,List.isPrefixOf_iff_prefix,List.isPrefixOf_iff_prefix]
  constructor
  · intro hp
    exact List.prefix_of_prefix_length_le hp (List.prefix_append u r) h
  · intro hp
    exact hp.trans (List.prefix_append u r)

theorem lexBlockString_eq {skip : ℕ} {cs raw r : List Char} (h : lexBlockString skip cs = some (raw,r)) :
    cs = raw ++ ['"','"','"'] ++ r ∧ ∀ r', lexBlockString skip (raw ++ ['"','"','"'] ++ r') = some (raw,r') := by
  induction cs generalizing skip raw with
  | nil => cases skip <;> exact nomatch h
  | cons c cs ih =>
    cases skip with
    | succ skip =>
      rw [lexBlockString] at h
      obtain ⟨x,hx,heq⟩ := Option.map_eq_some_iff.mp h
      obtain ⟨rfl,rfl⟩ := Prod.mk.inj heq
      obtain ⟨hcs,hraw⟩ := ih hx
      refine ⟨by rw [hcs]; rfl,fun r' => ?_⟩
      rw [List.cons_append,List.cons_append,lexBlockString,hraw r']
      rfl
    | zero =>
      rw [lexBlockString] at h
      split at h
      · rename_i hclose
        obtain ⟨rfl,rfl⟩ := Prod.mk.inj (Option.some.inj h)
        obtain ⟨t,ht⟩ := List.isPrefixOf_iff_prefix.mp hclose
        rw [← ht]
        obtain ⟨-,rfl⟩ := List.cons.inj ht
        exact ⟨rfl,fun r' => rfl⟩
      · rename_i hopen
        obtain ⟨x,hx,heq⟩ := Option.map_eq_some_iff.mp h
        obtain ⟨rfl,rfl⟩ := Prod.mk.inj heq
        obtain ⟨hcs,hraw⟩ := ih hx
        refine ⟨by rw [hcs]; rfl,fun r' => ?_⟩
        have hsame : ∀ p : List Char, p.length ≤ 4 → ∀ r', p.isPrefixOf (c :: (x.1 ++ ['"','"','"'] ++ r')) = p.isPrefixOf (c :: (x.1 ++ ['"','"','"'])) :=
          fun p hp r' => isPrefixOf_append (u := c :: (x.1 ++ ['"','"','"'])) (by simp; omega) r'
        rw [hcs,hsame _ (by decide)] at hopen
        rw [hcs,hsame _ (by decide)] at hraw
        rw [List.cons_append,List.cons_append,lexBlockString,hsame _ (by decide),if_neg hopen,hsame _ (by decide),hraw r']
        rfl

namespace Lexeme

/-- The lexeme can be read. -/
def Valid : Lexeme → Prop
  | ignored c => isIgnored c = true
  | comment t => ∀ c ∈ t, isLineEnd c = false
  | punctuator c => isPunctuator c = true
  | spread => True
  | name t => isName t = true
  | reference t => isName t = true
  | number t => isNumber t = true
  | string raw => ∀ r, lexString .plain (raw ++ '"' :: r) = some (raw,r)
  | blockString raw => ∀ r, lexBlockString 0 (raw ++ ['"','"','"'] ++ r) = some (raw,r)

/-- Whether the lexeme is read differently with this character right behind it. -/
def joins : Lexeme → Char → Bool
  | comment _, c => ! isLineEnd c
  | punctuator p, c => p == '$' && isNameStart c
  | name _, c => isNameChar c
  | reference _, c => isNameChar c
  | number _, c => isNumberFollow c
  | string raw, c => raw.isEmpty && c == '"'
  | _, _ => false

end Lexeme

theorem takeWhile_append_head {α : Type*} {p : α → Bool} {t r : List α} (ht : ∀ c ∈ t, p c = true) (hr : r.head?.any p = false) :
    (t ++ r).takeWhile p = t ∧ (t ++ r).dropWhile p = r := by
  rw [List.takeWhile_append_of_pos ht,List.dropWhile_append_of_pos ht]
  cases r with
  | nil => simp
  | cons c r =>
    have hc : ¬ p c = true := by simpa using hr
    simp [hc]

theorem head_dropWhile (p : Char → Bool) (cs : List Char) : (cs.dropWhile p).head?.any p = false := by
  induction cs with
  | nil => rfl
  | cons c cs ih =>
    rw [List.dropWhile_cons]
    split
    · exact ih
    · simpa using ‹¬ p c = true›

private theorem isNameStart_of_isDigit {c : Char} (h : c.isDigit = true) : isNameStart c = false := by
  have hval : 48 ≤ c.toNat ∧ c.toNat ≤ 57 := by simpa [Char.isDigit,UInt32.le_iff_toNat_le] using h
  have halpha : c.isAlpha = false := by
    have hranges : c.isAlpha = (decide (c.val ≥ 'A'.val ∧ c.val ≤ 'Z'.val) || (c.val ≥ 'a'.val && c.val ≤ 'z'.val)) := rfl
    simp only [hranges,UInt32.le_iff_toNat_le,Bool.or_eq_false_iff,Bool.and_eq_false_iff,decide_eq_false_iff_not,ge_iff_le]
    change ¬ (65 ≤ c.toNat ∧ c.toNat ≤ 90) ∧ (¬ 97 ≤ c.toNat ∨ ¬ c.toNat ≤ 122)
    omega
  have hunderscore : c ≠ '_' := by
    rintro rfl
    exact absurd h (by decide)
  simp [isNameStart,halpha,hunderscore]

theorem isNameChar_of_isNameStart {c : Char} (h : isNameStart c = true) : isNameChar c = true := by
  simp only [isNameStart,isNameChar,Char.isAlphanum,Bool.or_eq_true] at h ⊢
  tauto

theorem isNumberFollow_of_isNameChar {c : Char} (h : isNameChar c = true) : isNumberFollow c = true := by
  simp only [isNameChar,Char.isAlphanum,isNumberFollow,isNameStart,Bool.or_eq_true] at h ⊢
  tauto

theorem isNameChar_of_high {c : Char} (h : 128 ≤ c.toNat) : isNameChar c = false := by
  have hgt : ∀ n : UInt32, n.toNat < 128 → n < c.val := fun n hn => UInt32.lt_iff_toNat_lt.mpr (Nat.lt_of_lt_of_le hn h)
  have hunderscore : c ≠ '_' := by
    rintro rfl
    exact absurd h (by decide)
  have h₁ := hgt 90 (by decide)
  have h₂ := hgt 122 (by decide)
  have h₃ := hgt 57 (by decide)
  have hranges : c.isAlpha = (decide (c.val ≥ 'A'.val ∧ c.val ≤ 'Z'.val) || (c.val ≥ 'a'.val && c.val ≤ 'z'.val)) := rfl
  simp [isNameChar,Char.isAlphanum,hranges,Char.isDigit,h₁,h₂,h₃,hunderscore]

theorem isNameChar_of_isName {t : List Char} (h : isName t = true) : ∀ c ∈ t, isNameChar c = true := by
  cases t with
  | nil => exact fun c hc => absurd hc List.not_mem_nil
  | cons d t =>
    obtain ⟨hd,ht⟩ := Bool.and_eq_true_iff.mp h
    intro c hc
    obtain rfl | hc := List.mem_cons.mp hc
    · exact isNameChar_of_isNameStart hd
    · exact List.all_eq_true.mp ht c hc

private theorem isNumber_head {c : Char} {t : List Char} (h : isNumber (c :: t) = true) : c = '-' ∨ c.isDigit = true := by
  obtain ⟨s,hs,-⟩ := isNumber_eq_true.mp h
  rw [List.foldlM_cons] at hs
  obtain ⟨q,hq,-⟩ := Option.bind_eq_some_iff.mp hs
  by_contra hc
  obtain ⟨hminus,hdigit⟩ := not_or.mp hc
  have hzero : c ≠ '0' := by
    rintro rfl
    exact hdigit (by decide)
  simp [NumberState.step,NumberState.leading,hminus,hdigit,hzero] at hq

/-- The characters a number can consist of. -/
theorem mem_number {t : List Char} (h : isNumber t = true) {c : Char} (hc : c ∈ t) : c.isDigit = true ∨ c ∈ ['-','+','.','e','E'] := by
  obtain ⟨s,hs,-⟩ := isNumber_eq_true.mp h
  have hstep : ∀ q q' : NumberState, q.step c = some q' → c.isDigit = true ∨ c ∈ ['-','+','.','e','E'] := by
    intro q q' hq
    by_contra hnot
    simp only [List.mem_cons,List.not_mem_nil,or_false,not_or] at hnot
    obtain ⟨hdigit,hminus,hplus,hdot,he,hE⟩ := hnot
    have hzero : c ≠ '0' := by
      rintro rfl
      exact hdigit (by decide)
    cases q <;> simp [NumberState.step,NumberState.leading,NumberState.tail,NumberState.digit,hdigit,hminus,hplus,hdot,he,hE,hzero] at hq
  clear h
  generalize NumberState.start = q at hs
  induction t generalizing q with
  | nil => exact absurd hc List.not_mem_nil
  | cons d t ih =>
    rw [List.foldlM_cons] at hs
    obtain ⟨q',hq',hs⟩ := Option.bind_eq_some_iff.mp hs
    obtain rfl | hc := List.mem_cons.mp hc
    · exact hstep q q' hq'
    · exact ih hc q' hs

private def ignoredChars : List Char := [' ','\t','\n','\r',',',Char.ofNat 0xfeff]

private theorem mem_ignoredChars {c : Char} (h : isIgnored c = true) : c ∈ ignoredChars := by
  simp only [isIgnored,isLineEnd,Bool.or_eq_true,beq_iff_eq] at h
  obtain ((((rfl | rfl) | (rfl | rfl)) | rfl) | hbom) := h
  · decide
  · decide
  · decide
  · decide
  · decide
  · rw [← Char.ofNat_toNat c,hbom]
    decide

private theorem isNameStart_eq_false {c : Char} (h : c ∈ ignoredChars ++ ['!','$','&','(',')',':','=','@','[',']','\x7b','|','\x7d','#','.','"','-']) :
    isNameStart c = false ∧ c.isDigit = false := by
  have hall : ∀ c ∈ ignoredChars ++ ['!','$','&','(',')',':','=','@','[',']','\x7b','|','\x7d','#','.','"','-'],
      isNameStart c = false ∧ c.isDigit = false := List.all_iff_forall_prop.mp (by decide)
  exact hall c h

private theorem isNameChar_eq_false {c : Char}
    (h : c ∈ ignoredChars ++ ['!','$','&','(',')',':','=','@','[',']','\x7b','|','\x7d']) : isNameChar c = false := by
  have hall : ∀ c ∈ ignoredChars ++ ['!','$','&','(',')',':','=','@','[',']','\x7b','|','\x7d'], isNameChar c = false :=
    List.all_iff_forall_prop.mp (by decide)
  exact hall c h

theorem isNameChar_of_isIgnored {c : Char} (h : isIgnored c = true) : isNameChar c = false :=
  isNameChar_eq_false (List.mem_append_left _ (mem_ignoredChars h))

theorem isNameChar_of_isPunctuator {c : Char} (h : isPunctuator c = true) : isNameChar c = false :=
  isNameChar_eq_false (List.mem_append_right _ (by simpa [isPunctuator] using h))

private theorem isPunctuator_eq_false {c : Char} (h : c ∈ ignoredChars ++ ['#','.','"','-']) : isPunctuator c = false := by
  have hall : ∀ c ∈ ignoredChars ++ ['#','.','"','-'], isPunctuator c = false := List.all_iff_forall_prop.mp (by decide)
  exact hall c h

private theorem isIgnored_eq_false {c : Char} (h : c ∉ ignoredChars) : isIgnored c = false := by
  cases hc : isIgnored c
  · rfl
  · exact absurd (mem_ignoredChars hc) h

theorem next_text {s r : List Char} {a : Lexeme} (h : next s = some (a,r)) :
    s = a.text ++ r ∧ a.Valid ∧ r.head?.any a.joins = false := by
  cases s with
  | nil => exact nomatch h
  | cons c cs =>
    rw [next] at h
    split at h
    · rename_i hc
      obtain ⟨rfl,rfl⟩ := Prod.mk.inj (Option.some.inj h)
      exact ⟨rfl,hc,by cases cs <;> rfl⟩
    split at h
    · rename_i hc
      obtain ⟨rfl,rfl⟩ := Prod.mk.inj (Option.some.inj h)
      subst hc
      refine ⟨by simp [Lexeme.text],?_,?_⟩
      · intro d hd
        simpa using List.mem_takeWhile_imp hd
      · exact head_dropWhile (! isLineEnd ·) cs
    split at h
    · rename_i hc
      obtain ⟨rfl,rfl⟩ := Prod.mk.inj (Option.some.inj h)
      obtain ⟨rfl,hstart⟩ := hc
      refine ⟨by simp [Lexeme.text],?_,?_⟩
      · cases cs with
        | nil => exact nomatch hstart
        | cons d cs =>
          have hd : isNameStart d = true := hstart
          rw [Lexeme.Valid,List.takeWhile_cons,if_pos (isNameChar_of_isNameStart hd),isName,hd]
          exact List.all_eq_true.mpr fun x hx => List.mem_takeWhile_imp hx
      · exact head_dropWhile isNameChar cs
    split at h
    · rename_i hdollar hc
      obtain ⟨rfl,rfl⟩ := Prod.mk.inj (Option.some.inj h)
      refine ⟨rfl,hc,?_⟩
      cases cs with
      | nil => rfl
      | cons d cs => simpa [Lexeme.joins] using hdollar
    split at h
    · rename_i hc
      split at h
      · rename_i hdots
        obtain ⟨rfl,rfl⟩ := Prod.mk.inj (Option.some.inj h)
        obtain ⟨t,rfl⟩ := List.isPrefixOf_iff_prefix.mp hdots
        exact ⟨by rw [hc]; rfl,trivial,by cases t <;> rfl⟩
      · exact nomatch h
    split at h
    · rename_i hc
      obtain ⟨rfl,rfl⟩ := Prod.mk.inj (Option.some.inj h)
      refine ⟨by simp [Lexeme.text],?_,head_dropWhile isNameChar cs⟩
      rw [Lexeme.Valid,isName,hc]
      exact List.all_eq_true.mpr fun x hx => List.mem_takeWhile_imp hx
    split at h
    · rename_i hc
      subst hc
      rw [lexQuoted] at h
      split at h
      · rename_i hblock
        obtain ⟨x,hx,heq⟩ := Option.map_eq_some_iff.mp h
        obtain ⟨rfl,rfl⟩ := Prod.mk.inj heq
        obtain ⟨t,rfl⟩ := List.isPrefixOf_iff_prefix.mp hblock
        obtain ⟨hcs,hraw⟩ := lexBlockString_eq hx
        have ht : t = x.1 ++ ['"','"','"'] ++ x.2 := hcs
        exact ⟨by rw [ht]; simp [Lexeme.text],hraw,by cases x.2 <;> rfl⟩
      · rename_i hnoblock
        obtain ⟨x,hx,heq⟩ := Option.map_eq_some_iff.mp h
        obtain ⟨rfl,rfl⟩ := Prod.mk.inj heq
        obtain ⟨hcs,hraw⟩ := lexString_eq hx
        refine ⟨by rw [hcs]; simp [Lexeme.text],hraw,?_⟩
        by_contra hjoins
        have hopen : x.1 = [] ∧ x.2.head? = some '"' := by
          cases hhead : x.2.head? with
          | none => simp [hhead] at hjoins
          | some d => simpa [hhead,Lexeme.joins] using hjoins
        obtain ⟨r',hr'⟩ : ∃ r', x.2 = '"' :: r' := List.head?_eq_some_iff.mp hopen.2
        rw [hcs,hopen.1,hr'] at hnoblock
        exact hnoblock rfl
    · obtain ⟨x,hx,heq⟩ := Option.map_eq_some_iff.mp h
      obtain ⟨rfl,rfl⟩ := Prod.mk.inj heq
      exact lexNumber_eq_some.mp hx

/-- None of the first characters a lexeme is told by. -/
private theorem next_of_isNameStart {c : Char} (hc : isNameStart c = true) (cs : List Char) :
    next (c :: cs) = some (.name (c :: cs.takeWhile isNameChar),cs.dropWhile isNameChar) := by
  have hne : ∀ d, isNameStart d = false → c ≠ d := by
    rintro d hd rfl
    exact absurd hd (by simp [hc])
  have hignored : isIgnored c = false := by
    apply isIgnored_eq_false
    intro hmem
    exact absurd (isNameStart_eq_false (List.mem_append_left _ hmem)).1 (by simp [hc])
  have hpunct : isPunctuator c = false := by
    cases hp : isPunctuator c
    · rfl
    · exact absurd (isNameStart_eq_false (c := c) (by simp [isPunctuator] at hp ⊢; tauto)).1 (by simp [hc])
  rw [next,if_neg (by simp [hignored]),if_neg (hne '#' (by decide)),if_neg (fun h => hne '$' (by decide) h.1),if_neg (by simp [hpunct]),
    if_neg (hne '.' (by decide)),if_pos hc]

private theorem next_of_number {c : Char} (hc : c = '-' ∨ c.isDigit = true) (cs : List Char) :
    next (c :: cs) = (lexNumber (c :: cs)).map fun x => (.number x.1,x.2) := by
  obtain rfl | hdigit := hc
  · rw [next,if_neg (by decide),if_neg (by decide),if_neg (fun h => absurd h.1 (by decide)),if_neg (by decide),if_neg (by decide),
      if_neg (by decide),if_neg (by decide)]
  · have hne : ∀ d, d.isDigit = false → c ≠ d := by
      rintro d hd rfl
      exact absurd hd (by simp [hdigit])
    have hignored : isIgnored c = false := by
      apply isIgnored_eq_false
      intro hmem
      exact absurd (isNameStart_eq_false (List.mem_append_left _ hmem)).2 (by simp [hdigit])
    have hpunct : isPunctuator c = false := by
      cases hp : isPunctuator c
      · rfl
      · exact absurd (isNameStart_eq_false (c := c) (by simp [isPunctuator] at hp ⊢; tauto)).2 (by simp [hdigit])
    have hname : isNameStart c = false := isNameStart_of_isDigit hdigit
    rw [next,if_neg (by simp [hignored]),if_neg (hne '#' (by decide)),if_neg (fun h => hne '$' (by decide) h.1),if_neg (by simp [hpunct]),
      if_neg (hne '.' (by decide)),if_neg (by simp [hname]),if_neg (hne '"' (by decide))]

private theorem next_of_quote (cs : List Char) : next ('"' :: cs) = lexQuoted cs := by
  rw [next,if_neg (by decide),if_neg (by decide),if_neg (fun h => absurd h.1 (by decide)),if_neg (by decide),if_neg (by decide),
    if_neg (by decide),if_pos rfl]

theorem next_append {a : Lexeme} (ha : a.Valid) {r : List Char} (hr : r.head?.any a.joins = false) : next (a.text ++ r) = some (a,r) := by
  cases a with
  | ignored c => exact if_pos ha
  | comment t =>
    have hnot : ∀ c ∈ t, (! isLineEnd c) = true := by
      intro c hc
      rw [show isLineEnd c = false from ha c hc]
      rfl
    obtain ⟨htake,hdrop⟩ := takeWhile_append_head (p := (! isLineEnd ·)) (t := t) (r := r) hnot hr
    rw [Lexeme.text,List.cons_append,next,if_neg (by decide),if_pos rfl,htake,hdrop]
  | punctuator c =>
    have hc : isPunctuator c = true := ha
    have hignored : isIgnored c = false := by
      apply isIgnored_eq_false
      intro hmem
      exact absurd (isPunctuator_eq_false (List.mem_append_left _ hmem)) (by simp [hc])
    have hhash : c ≠ '#' := by
      rintro rfl
      exact absurd hc (by decide)
    have hbare : ¬ (c = '$' ∧ r.head?.any isNameStart = true) := by
      rintro ⟨rfl,hname⟩
      cases r with
      | nil => exact nomatch hname
      | cons d r =>
        have hd : isNameStart d = true := hname
        simp [Lexeme.joins,hd] at hr
    change next (c :: r) = _
    rw [next,if_neg (by simp [hignored]),if_neg hhash,if_neg hbare,if_pos hc]
  | spread => rfl
  | name t =>
    cases t with
    | nil => exact nomatch ha
    | cons c t =>
      obtain ⟨hc,ht⟩ : isNameStart c = true ∧ t.all isNameChar = true := by simpa [Lexeme.Valid,isName] using ha
      obtain ⟨htake,hdrop⟩ := takeWhile_append_head (List.all_eq_true.mp ht) hr
      change next (c :: (t ++ r)) = _
      rw [next_of_isNameStart hc,htake,hdrop]
  | reference t =>
    cases t with
    | nil => exact nomatch ha
    | cons c t =>
      obtain ⟨hc,ht⟩ : isNameStart c = true ∧ t.all isNameChar = true := by simpa [Lexeme.Valid,isName] using ha
      obtain ⟨htake,hdrop⟩ := takeWhile_append_head (isNameChar_of_isName ha) hr
      change next ('$' :: (c :: t ++ r)) = _
      rw [next,if_neg (by decide),if_neg (by decide),if_pos ⟨rfl,hc⟩,htake,hdrop]
  | number t =>
    have ht : isNumber t = true := ha
    have hlex : lexNumber (t ++ r) = some (t,r) := lexNumber_eq_some.mpr ⟨rfl,ht,hr⟩
    cases t with
    | nil => exact nomatch ht
    | cons c t =>
      change next (c :: (t ++ r)) = _
      rw [next_of_number (isNumber_head ht),← List.cons_append,hlex]
      rfl
  | string raw =>
    have hraw : lexString .plain (raw ++ '"' :: r) = some (raw,r) := ha r
    have hblock : ¬ ['"','"'].isPrefixOf (raw ++ '"' :: r) = true := by
      intro hstarts
      cases raw with
      | nil =>
        cases r with
        | nil => exact nomatch hstarts
        | cons d r =>
          have hd : '"' = d := by simpa using hstarts
          subst hd
          exact nomatch hr
      | cons c raw =>
        have hc : '"' = c := by
          simp only [List.cons_append,List.isPrefixOf,Bool.and_eq_true,beq_iff_eq] at hstarts
          exact hstarts.1
        subst hc
        exact nomatch hraw
    have htext : (Lexeme.string raw).text ++ r = '"' :: (raw ++ '"' :: r) := by simp [Lexeme.text]
    rw [htext,next_of_quote,lexQuoted,if_neg hblock,hraw]
    rfl
  | blockString raw =>
    have hraw : lexBlockString 0 (raw ++ ['"','"','"'] ++ r) = some (raw,r) := ha r
    have htext : (Lexeme.blockString raw).text ++ r = '"' :: '"' :: '"' :: (raw ++ ['"','"','"'] ++ r) := by simp [Lexeme.text]
    rw [htext,next_of_quote,lexQuoted,if_pos (by rfl)]
    change Option.map _ (lexBlockString 0 (raw ++ ['"','"','"'] ++ r)) = _
    rw [hraw]
    rfl

theorem Lexeme.Valid.text_ne_nil {a : Lexeme} (h : a.Valid) : a.text ≠ [] := by
  cases a with
  | name t =>
    rintro rfl
    exact nomatch h
  | number t =>
    rintro rfl
    exact nomatch h
  | _ => exact List.cons_ne_nil _ _

theorem length_of_next {s r : List Char} {a : Lexeme} (h : next s = some (a,r)) : r.length < s.length := by
  obtain ⟨rfl,ha,-⟩ := next_text h
  rw [List.length_append]
  have hpos := List.length_pos_iff.mpr ha.text_ne_nil
  omega

/-- All lexemes of a text. -/
def lex (s : List Char) : Option (List Lexeme) :=
  if s = [] then some []
  else
    match _h : next s with
    | none => none
    | some (a,r) => (lex r).map (a :: ·)
termination_by s.length
decreasing_by exact length_of_next _h

/-- The second lexeme can stand right behind the first. -/
def Apart (a b : Lexeme) : Prop := b.text.head?.any a.joins = false

instance (a b : Lexeme) : Decidable (Apart a b) := inferInstanceAs (Decidable (_ = _))

/-- Lexemes that are read back as they are written one behind the other. -/
structure WellSpaced (ls : List Lexeme) : Prop where
  valid : ∀ a ∈ ls, a.Valid
  apart : ls.IsChain Apart

theorem lex_cons {s r : List Char} {a : Lexeme} (h : next s = some (a,r)) : lex s = (lex r).map (a :: ·) := by
  have hne : s ≠ [] := by
    rintro rfl
    exact nomatch h
  rw [lex,if_neg hne]
  split
  · rename_i hnone
    exact nomatch hnone.symm.trans h
  · rename_i a' r' hsome
    obtain ⟨rfl,rfl⟩ := Prod.mk.inj (Option.some.inj (hsome.symm.trans h))
    rfl

private theorem head_render {b : Lexeme} (hb : b.Valid) (ls : List Lexeme) : (render (b :: ls)).head? = b.text.head? := by
  rw [render_cons,List.head?_append_of_ne_nil _ hb.text_ne_nil]

theorem wellSpaced_nil : WellSpaced [] where
  valid _ h := absurd h List.not_mem_nil
  apart := .nil

theorem wellSpaced_cons {a : Lexeme} {ls : List Lexeme} :
    WellSpaced (a :: ls) ↔ a.Valid ∧ (render ls).head?.any a.joins = false ∧ WellSpaced ls := by
  cases ls with
  | nil =>
    constructor
    · intro h
      exact ⟨h.valid a (List.mem_singleton_self a),rfl,wellSpaced_nil⟩
    · rintro ⟨ha,-,-⟩
      exact ⟨by simpa using ha,.singleton a⟩
  | cons b ls =>
    constructor
    · intro h
      have hb : b.Valid := h.valid b (by simp)
      obtain ⟨hapart,hrest⟩ := List.isChain_cons_cons.mp h.apart
      refine ⟨h.valid a (by simp),?_,fun c hc => h.valid c (List.mem_cons_of_mem a hc),hrest⟩
      rw [head_render hb]
      exact hapart
    · rintro ⟨ha,hhead,h⟩
      have hb : b.Valid := h.valid b (by simp)
      rw [head_render hb] at hhead
      refine ⟨?_,List.isChain_cons_cons.mpr ⟨hhead,h.apart⟩⟩
      intro c hc
      obtain rfl | hc := List.mem_cons.mp hc
      · exact ha
      · exact h.valid c hc

private theorem lex_render {ls : List Lexeme} (h : WellSpaced ls) : lex (render ls) = some ls := by
  induction ls with
  | nil =>
    rw [render_nil,lex]
    rfl
  | cons a ls ih =>
    obtain ⟨ha,hhead,hls⟩ := wellSpaced_cons.mp h
    rw [render_cons,lex_cons (next_append ha hhead),ih hls]
    rfl

/-- The lexemes of a text are those it consists of, when they are well spaced. -/
theorem lex_eq_some {s : List Char} {ls : List Lexeme} : lex s = some ls ↔ s = render ls ∧ WellSpaced ls := by
  constructor
  · intro h
    fun_induction lex s generalizing ls with
    | case1 =>
      obtain rfl := Option.some.inj h
      exact ⟨rfl,wellSpaced_nil⟩
    | case2 => exact nomatch h
    | case3 s hs a r hnext ih =>
      obtain ⟨rest,hrest,rfl⟩ := Option.map_eq_some_iff.mp h
      obtain ⟨hr,hspaced⟩ := ih hrest
      obtain ⟨htext,ha,hhead⟩ := next_text hnext
      rw [hr] at htext hhead
      exact ⟨htext,wellSpaced_cons.mpr ⟨ha,hhead,hspaced⟩⟩
  · rintro ⟨rfl,h⟩
    exact lex_render h

end Dwara.Lib.Graphql
