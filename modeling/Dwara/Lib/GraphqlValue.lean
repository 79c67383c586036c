import Dwara.Lib.GraphqlText

/-! GraphQL literals, and the JSON values they denote. -/

namespace Dwara.Lib.Graphql

def hexValue (c : Char) : ℕ := if c.isDigit then c.toNat - 48 else if 'a' ≤ c then c.toNat - 87 else c.toNat - 55

def simpleEscape (c : Char) : Option Char := [('"','"'),('\\','\\'),('/','/'),('b',Char.ofNat 8),('f',Char.ofNat 12),('n','\n'),('r','\r'),('t','\t')].lookup c

/-- The text a string stands for. -/
def unescape : List Char → Option (List Char)
  | [] => some []
  | '\\' :: 'u' :: h₁ :: h₂ :: h₃ :: h₄ :: cs =>
    (unescape cs).map (Char.ofNat (((hexValue h₁ * 16 + hexValue h₂) * 16 + hexValue h₃) * 16 + hexValue h₄) :: ·)
  | '\\' :: c :: cs => (simpleEscape c).bind fun d => (unescape cs).map (d :: ·)
  | c :: cs => (unescape cs).map (c :: ·)

/-- A character within a string. -/
def escapeChar (c : Char) : List Char :=
  if c = '"' then ['\\','"'] else if c = '\\' then ['\\','\\']
  else if c = '\n' then ['\\','n'] else if c = '\r' then ['\\','r'] else if c = '\t' then ['\\','t']
  else if c.toNat < 32 then ['\\','u','0','0',Nat.digitChar (c.toNat / 16),Nat.digitChar (c.toNat % 16)]
  else [c]

def separator : List Lexeme := [.ignored ',',.ignored ' ']

mutual

/-- The literal of a value. The fields of an object need names for keys. -/
def literal : Json → Option (List Lexeme)
  | .null => some [.name "null".toList]
  | .bool b => some [.name (toString b).toList]
  | .int n => some [.number (toString n).toList]
  | .float t => if isNumber t.toList then some [.number t.toList] else none
  | .string s => some [.string (s.toList.flatMap escapeChar)]
  | .array items => (literalItems items).map fun ls => .punctuator '[' :: (separator.intercalate ls ++ [.punctuator ']'])
  | .object fields => (literalFields fields).map fun ls => .punctuator '\x7b' :: (separator.intercalate ls ++ [.punctuator '\x7d'])

def literalItems : List Json → Option (List (List Lexeme))
  | [] => some []
  | v :: items => (literal v).bind fun l => (literalItems items).map (l :: ·)

def literalFields : List (String × Json) → Option (List (List Lexeme))
  | [] => some []
  | (key,v) :: fields =>
    if isName key.toList then
      (literal v).bind fun l => (literalFields fields).map ((.name key.toList :: .punctuator ':' :: .ignored ' ' :: l) :: ·)
    else none

end

mutual

/-- These lexemes are one literal, and it denotes this value. -/
inductive Denotes : List Lexeme → Json → Prop
  | null : Denotes [.name "null".toList] .null
  | bool (b : Bool) : Denotes [.name (toString b).toList] (.bool b)
  | int (n : ℤ) : Denotes [.number (toString n).toList] (.int n)
  | float {t : String} : isNumber t.toList = true → Denotes [.number t.toList] (.float t)
  | string {raw : List Char} {s : String} : unescape raw = some s.toList → Denotes [.string raw] (.string s)
  | array {ls : List Lexeme} {items : List Json} : DenotesItems ls items →
      Denotes (.punctuator '[' :: (ls ++ [.punctuator ']'])) (.array items)
  | object {ls : List Lexeme} {fields : List (String × Json)} : DenotesFields ls fields →
      Denotes (.punctuator '\x7b' :: (ls ++ [.punctuator '\x7d'])) (.object fields)

inductive DenotesItems : List Lexeme → List Json → Prop
  | nil : DenotesItems [] []
  | ignored {c : Char} {ls : List Lexeme} {items : List Json} : DenotesItems ls items → DenotesItems (.ignored c :: ls) items
  | item {l ls : List Lexeme} {v : Json} {items : List Json} : Denotes l v → DenotesItems ls items → DenotesItems (l ++ ls) (v :: items)

inductive DenotesFields : List Lexeme → List (String × Json) → Prop
  | nil : DenotesFields [] []
  | ignored {c : Char} {ls : List Lexeme} {fields : List (String × Json)} :
      DenotesFields ls fields → DenotesFields (.ignored c :: ls) fields
  | field {key : String} {gap l ls : List Lexeme} {v : Json} {fields : List (String × Json)} : isName key.toList = true →
      (∀ a ∈ gap, ∃ c, a = .ignored c) → Denotes l v → DenotesFields ls fields →
      DenotesFields (.name key.toList :: .punctuator ':' :: (gap ++ (l ++ ls))) ((key,v) :: fields)

end

private theorem escapeChar_cases (c : Char) : (∃ d, escapeChar c = ['\\',d] ∧ simpleEscape d = some c ∧ isSimpleEscape d = true) ∨
    (escapeChar c = ['\\','u','0','0',Nat.digitChar (c.toNat / 16),Nat.digitChar (c.toNat % 16)] ∧ c.toNat < 32) ∨
    (escapeChar c = [c] ∧ c ≠ '"' ∧ c ≠ '\\' ∧ isLineEnd c = false) := by
  rw [escapeChar]
  split
  · rename_i hc
    subst hc
    exact .inl ⟨'"',rfl,by decide,by decide⟩
  split
  · rename_i hc
    subst hc
    exact .inl ⟨'\\',rfl,by decide,by decide⟩
  split
  · rename_i hc
    subst hc
    exact .inl ⟨'n',rfl,by decide,by decide⟩
  split
  · rename_i hc
    subst hc
    exact .inl ⟨'r',rfl,by decide,by decide⟩
  split
  · rename_i hc
    subst hc
    exact .inl ⟨'t',rfl,by decide,by decide⟩
  split
  · rename_i hlt
    exact .inr (.inl ⟨rfl,hlt⟩)
  · rename_i hquote hback hn hr _ _
    exact .inr (.inr ⟨rfl,hquote,hback,by simp [isLineEnd,hn,hr]⟩)

private theorem hex_digits : ∀ d < 16, isHex (Nat.digitChar d) = true ∧ hexValue (Nat.digitChar d) = d := by decide

private theorem lexString_step {s t : StringState} {c : Char} (hs : s.step c = some t) (hopen : ¬ (s = .plain ∧ c = '"')) (cs : List Char) :
    lexString s (c :: cs) = (lexString t cs).map fun x => (c :: x.1,x.2) := by
  rw [lexString,if_neg hopen,hs,Option.bind_some]

theorem lexString_escapeChar (c : Char) (cs : List Char) :
    lexString .plain (escapeChar c ++ cs) = (lexString .plain cs).map fun x => (escapeChar c ++ x.1,x.2) := by
  obtain ⟨d,heq,-,hsimple⟩ | ⟨heq,hlt⟩ | ⟨heq,hquote,hback,hend⟩ := escapeChar_cases c
  · have hu : d ≠ 'u' := by
      rintro rfl
      exact absurd hsimple (by decide)
    have hd : StringState.step .escaped d = some .plain := by simp [StringState.step,hu,hsimple]
    rw [heq]
    change lexString .plain ('\\' :: d :: cs) = _
    rw [lexString_step (t := .escaped) rfl (by simp),lexString_step hd (by simp),Option.map_map]
    rfl
  · have h₁ : StringState.step (.unicode 1) (Nat.digitChar (c.toNat / 16)) = some (.unicode 0) := if_pos (hex_digits _ (by omega)).1
    have h₂ : StringState.step (.unicode 0) (Nat.digitChar (c.toNat % 16)) = some .plain := if_pos (hex_digits _ (by omega)).1
    rw [heq]
    change lexString .plain ('\\' :: 'u' :: '0' :: '0' :: Nat.digitChar (c.toNat / 16) :: Nat.digitChar (c.toNat % 16) :: cs) = _
    rw [lexString_step (t := .escaped) rfl (by simp),lexString_step (t := .unicode 3) rfl (by simp),
      lexString_step (t := .unicode 2) rfl (by simp),lexString_step (t := .unicode 1) rfl (by simp),lexString_step h₁ (by simp),
      lexString_step h₂ (by simp)]
    simp only [Option.map_map]
    rfl
  · have hc : StringState.step .plain c = some .plain := by simp [StringState.step,hback,hend]
    rw [heq]
    exact lexString_step hc (by simp [hquote]) cs

theorem lexString_escape (s r : List Char) : lexString .plain (s.flatMap escapeChar ++ '"' :: r) = some (s.flatMap escapeChar,r) := by
  induction s with
  | nil => rfl
  | cons c s ih =>
    rw [List.flatMap_cons,List.append_assoc,lexString_escapeChar,ih]
    rfl

theorem unescape_escapeChar (c : Char) (cs : List Char) : unescape (escapeChar c ++ cs) = (unescape cs).map (c :: ·) := by
  obtain ⟨d,heq,hd,hsimple⟩ | ⟨heq,hlt⟩ | ⟨heq,hquote,hback,hend⟩ := escapeChar_cases c
  · have hu : d ≠ 'u' := by
      rintro rfl
      exact absurd hsimple (by decide)
    rw [heq]
    change unescape ('\\' :: d :: cs) = _
    rw [unescape.eq_3 _ _ (by simp [hu]),hd]
    rfl
  · have h₁ := (hex_digits (c.toNat / 16) (by omega)).2
    have h₂ := (hex_digits (c.toNat % 16) (by omega)).2
    have hc : ((hexValue '0' * 16 + hexValue '0') * 16 + c.toNat / 16) * 16 + c.toNat % 16 = c.toNat := by
      have hzero : hexValue '0' = 0 := rfl
      rw [hzero]
      omega
    rw [heq]
    change unescape ('\\' :: 'u' :: '0' :: '0' :: Nat.digitChar (c.toNat / 16) :: Nat.digitChar (c.toNat % 16) :: cs) = _
    rw [unescape,h₁,h₂,hc,Char.ofNat_toNat]
  · rw [heq]
    change unescape (c :: cs) = _
    rw [unescape.eq_4 _ _ (by simp [hback]) (by simp [hback])]

theorem unescape_escape (s : List Char) : unescape (s.flatMap escapeChar) = some s := by
  induction s with
  | nil => rfl
  | cons c s ih =>
    rw [List.flatMap_cons,unescape_escapeChar,ih]
    rfl

private theorem digitChar_spec : ∀ d < 10, (Nat.digitChar d).isDigit = true ∧ (d ≠ 0 → Nat.digitChar d ≠ '0') := by decide

private theorem foldlM_toDigits {s : NumberState} (hs : ∀ c, c ≠ '0' → c.isDigit = true → s.step c = some .int) {n : ℕ} (hn : n ≠ 0) :
    (Nat.toDigits 10 n).foldlM NumberState.step s = some .int := by
  induction n using Nat.strongRecOn with
  | ind n ih =>
    by_cases hsmall : n < 10
    · obtain ⟨hdigit,hzero⟩ := digitChar_spec n hsmall
      rw [Nat.toDigits_of_lt_base hsmall,List.foldlM_cons,hs _ (hzero hn) hdigit]
      rfl
    · have hsplit : Nat.toDigits 10 n = Nat.toDigits 10 (n / 10) ++ Nat.toDigits 10 (n % 10) := by
        rw [Nat.toDigits_append_toDigits (by decide) (by omega) (by omega),Nat.div_add_mod]
      have hdigit := (digitChar_spec (n % 10) (by omega)).1
      have hlast : NumberState.step .int (Nat.digitChar (n % 10)) = some .int := by
        simp [NumberState.step,NumberState.digit,hdigit]
      rw [hsplit,List.foldlM_append,ih (n / 10) (by omega) (by omega),Nat.toDigits_of_lt_base (by omega)]
      simp [hlast]

private theorem isNumber_nat {s : NumberState} (hzero : s.step '0' = some .zero)
    (hs : ∀ c, c ≠ '0' → c.isDigit = true → s.step c = some .int) (n : ℕ) :
    ∃ t, (toString n).toList.foldlM NumberState.step s = some t ∧ t.accepting = true := by
  have htext : (toString n).toList = Nat.toDigits 10 n := by simp [Nat.repr]
  rw [htext]
  by_cases hn : n = 0
  · subst hn
    refine ⟨.zero,?_,rfl⟩
    rw [Nat.toDigits_zero,List.foldlM_cons,hzero]
    rfl
  · exact ⟨.int,foldlM_toDigits hs hn,rfl⟩

theorem isNumber_toString (n : ℤ) : isNumber (toString n).toList = true := by
  have hleading : ∀ c : Char, c ≠ '0' → c.isDigit = true → NumberState.leading c = some .int := by
    intro c hzero hdigit
    simp [NumberState.leading,hzero,hdigit]
  rw [isNumber_eq_true,Text.toString_int]
  split
  · apply isNumber_nat rfl
    intro c hzero hdigit
    have hminus : c ≠ '-' := by
      rintro rfl
      exact absurd hdigit (by decide)
    rw [NumberState.step,if_neg hminus,hleading c hzero hdigit]
  · rw [List.foldlM_cons]
    exact isNumber_nat (s := .minus) rfl hleading _

/-- A lexeme that ends before what stands between and behind the parts of a literal. -/
def closers : List Char := [',',':',']','\x7d']

theorem joins_of_mem_closers {a : Lexeme} (ha : ∀ t, a ≠ .comment t) {c : Char} (hc : c ∈ closers) : a.joins c = false := by
  have hclosers : ∀ c ∈ closers, isNameChar c = false ∧ isNumberFollow c = false ∧ isNameStart c = false ∧ (c == '"') = false :=
    List.all_iff_forall_prop.mp (by decide)
  obtain ⟨hname,hnumber,hstart,hquote⟩ := hclosers c hc
  cases a with
  | comment t => exact absurd rfl (ha t)
  | punctuator p => simp [Lexeme.joins,hstart]
  | name t => exact hname
  | reference t => exact hname
  | number t => exact hnumber
  | string raw => simp [Lexeme.joins,hquote]
  | _ => rfl

/-- Lexemes that can stand between the brackets of a literal. -/
structure Closed (ls : List Lexeme) : Prop where
  spaced : WellSpaced ls
  no_comment : ∀ a ∈ ls, ∀ t, a ≠ .comment t

theorem wellSpaced_append {xs ys : List Lexeme} (hxs : WellSpaced xs) (hys : WellSpaced ys)
    (h : ∀ a ∈ xs.getLast?, ∀ b ∈ ys.head?, Apart a b) : WellSpaced (xs ++ ys) where
  valid a ha := by
    obtain ha | ha := List.mem_append.mp ha
    · exact hxs.valid a ha
    · exact hys.valid a ha
  apart := List.isChain_append.mpr ⟨hxs.apart,hys.apart,h⟩

theorem Closed.append {xs ys : List Lexeme} (hxs : Closed xs) (hys : Closed ys)
    (h : ∀ b ∈ ys.head?, b.text.head?.all (closers.contains ·)) : Closed (xs ++ ys) where
  spaced := by
    apply wellSpaced_append hxs.spaced hys.spaced
    intro a ha b hb
    have hhead := h b hb
    rw [Apart]
    cases hc : b.text.head? with
    | none => rfl
    | some c =>
      rw [hc] at hhead
      exact joins_of_mem_closers (hxs.no_comment a (List.mem_of_getLast? ha)) (by simpa using hhead)
  no_comment a ha := by
    obtain ha | ha := List.mem_append.mp ha
    · exact hxs.no_comment a ha
    · exact hys.no_comment a ha

theorem closed_singleton {a : Lexeme} (ha : a.Valid) (hcomment : ∀ t, a ≠ .comment t) : Closed [a] where
  spaced := ⟨by simpa using ha,.singleton a⟩
  no_comment := by simpa using hcomment

theorem Closed.cons {a : Lexeme} {ls : List Lexeme} (h : Closed ls) (ha : a.Valid) (hcomment : ∀ t, a ≠ .comment t)
    (hfree : ∀ c, a.joins c = false) : Closed (a :: ls) where
  spaced := by
    refine wellSpaced_cons.mpr ⟨ha,?_,h.spaced⟩
    cases (render ls).head? with
    | none => rfl
    | some c => exact hfree c
  no_comment b hb := by
    obtain rfl | hb := List.mem_cons.mp hb
    · exact hcomment
    · exact h.no_comment b hb

theorem Closed.ignored {ls : List Lexeme} (h : Closed ls) {c : Char} (hc : isIgnored c = true) : Closed (.ignored c :: ls) :=
  h.cons (a := .ignored c) hc nofun fun _ => rfl

theorem closed_intercalate {lss : List (List Lexeme)} (h : ∀ ls ∈ lss, Closed ls) : Closed (separator.intercalate lss) := by
  induction lss with
  | nil => exact ⟨wellSpaced_nil,fun a ha => absurd ha List.not_mem_nil⟩
  | cons ls lss ih =>
    have hls : Closed ls := h ls (by simp)
    have hrest : Closed (separator.intercalate lss) := ih fun l hl => h l (List.mem_cons_of_mem ls hl)
    cases lss with
    | nil =>
      rw [List.intercalate_singleton]
      exact hls
    | cons l lss =>
      rw [List.intercalate_cons_cons,List.append_assoc]
      have hsep : Closed (separator ++ separator.intercalate (l :: lss)) :=
        (hrest.ignored (by decide)).ignored (by decide)
      exact hls.append hsep (by simp [separator,closers,Lexeme.text])

theorem closed_bracket {o c : Char} (ho : isPunctuator o = true) (hdollar : o ≠ '$') (hc : isPunctuator c = true) (hcloser : c ∈ closers)
    {lss : List (List Lexeme)} (h : ∀ ls ∈ lss, Closed ls) :
    Closed (.punctuator o :: (separator.intercalate lss ++ [.punctuator c])) := by
  have hend : Closed [.punctuator c] := closed_singleton hc nofun
  have hinner := (closed_intercalate h).append hend (by simpa [Lexeme.text] using hcloser)
  exact hinner.cons ho nofun (by simp [Lexeme.joins,hdollar])

mutual

/-- A literal is well spaced, and so is what stands next to it in a list. -/
theorem closed_literal : ∀ {v : Json} {ls : List Lexeme}, literal v = some ls → Closed ls
  | .null, ls, h => by
    obtain rfl := Option.some.inj h
    have hname : isName "null".toList = true := by decide
    exact closed_singleton hname nofun
  | .bool b, ls, h => by
    obtain rfl := Option.some.inj h
    have hname : isName (toString b).toList = true := by cases b <;> decide
    exact closed_singleton hname nofun
  | .int n, ls, h => by
    obtain rfl := Option.some.inj h
    exact closed_singleton (isNumber_toString n) nofun
  | .float t, ls, h => by
    rw [literal] at h
    split at h
    · rename_i ht
      obtain rfl := Option.some.inj h
      exact closed_singleton ht nofun
    · exact nomatch h
  | .string s, ls, h => by
    obtain rfl := Option.some.inj h
    exact closed_singleton (lexString_escape s.toList) nofun
  | .array items, ls, h => by
    rw [literal] at h
    obtain ⟨lss,hlss,rfl⟩ := Option.map_eq_some_iff.mp h
    exact closed_bracket rfl (by decide) rfl (by decide) (closed_literalItems hlss)
  | .object fields, ls, h => by
    rw [literal] at h
    obtain ⟨lss,hlss,rfl⟩ := Option.map_eq_some_iff.mp h
    exact closed_bracket rfl (by decide) rfl (by decide) (closed_literalFields hlss)

theorem closed_literalItems : ∀ {items : List Json} {lss : List (List Lexeme)}, literalItems items = some lss → ∀ ls ∈ lss, Closed ls
  | [], lss, h => by
    obtain rfl := Option.some.inj h
    simp
  | v :: items, lss, h => by
    rw [literalItems] at h
    obtain ⟨l,hl,h⟩ := Option.bind_eq_some_iff.mp h
    obtain ⟨rest,hrest,rfl⟩ := Option.map_eq_some_iff.mp h
    simpa using ⟨closed_literal hl,closed_literalItems hrest⟩

theorem closed_literalFields : ∀ {fields : List (String × Json)} {lss : List (List Lexeme)}, literalFields fields = some lss →
    ∀ ls ∈ lss, Closed ls
  | [], lss, h => by
    obtain rfl := Option.some.inj h
    simp
  | (key,v) :: fields, lss, h => by
    rw [literalFields] at h
    split at h
    · rename_i hkey
      obtain ⟨l,hl,h⟩ := Option.bind_eq_some_iff.mp h
      obtain ⟨rest,hrest,rfl⟩ := Option.map_eq_some_iff.mp h
      have hgap : Closed (.ignored ' ' :: l) := (closed_literal hl).ignored (by decide)
      have hvalue : Closed (.punctuator ':' :: .ignored ' ' :: l) := hgap.cons (a := .punctuator ':') rfl nofun fun _ => rfl
      have hfield : Closed (.name key.toList :: .punctuator ':' :: .ignored ' ' :: l) :=
        (closed_singleton (a := .name key.toList) hkey nofun).append hvalue (by simp [closers,Lexeme.text])
      simpa using ⟨hfield,closed_literalFields hrest⟩
    · exact nomatch h

end

mutual

/-- The literal of a value denotes it. -/
theorem denotes_literal : ∀ {v : Json} {ls : List Lexeme}, literal v = some ls → Denotes ls v
  | .null, ls, h => by
    obtain rfl := Option.some.inj h
    exact .null
  | .bool b, ls, h => by
    obtain rfl := Option.some.inj h
    exact .bool b
  | .int n, ls, h => by
    obtain rfl := Option.some.inj h
    exact .int n
  | .float t, ls, h => by
    rw [literal] at h
    split at h
    · rename_i ht
      obtain rfl := Option.some.inj h
      exact .float ht
    · exact nomatch h
  | .string s, ls, h => by
    obtain rfl := Option.some.inj h
    exact .string (unescape_escape s.toList)
  | .array items, ls, h => by
    rw [literal] at h
    obtain ⟨lss,hlss,rfl⟩ := Option.map_eq_some_iff.mp h
    exact .array (denotes_literalItems hlss)
  | .object fields, ls, h => by
    rw [literal] at h
    obtain ⟨lss,hlss,rfl⟩ := Option.map_eq_some_iff.mp h
    exact .object (denotes_literalFields hlss)

theorem denotes_literalItems : ∀ {items : List Json} {lss : List (List Lexeme)}, literalItems items = some lss →
    DenotesItems (separator.intercalate lss) items
  | [], lss, h => by
    obtain rfl := Option.some.inj h
    exact .nil
  | v :: items, lss, h => by
    rw [literalItems] at h
    obtain ⟨l,hl,h⟩ := Option.bind_eq_some_iff.mp h
    obtain ⟨rest,hrest,rfl⟩ := Option.map_eq_some_iff.mp h
    have hitem := denotes_literal hl
    have hitems := denotes_literalItems hrest
    cases rest with
    | nil => simpa using DenotesItems.item hitem hitems
    | cons l' rest =>
      rw [List.intercalate_cons_cons,List.append_assoc]
      exact .item hitem (.ignored (.ignored hitems))

theorem denotes_literalFields : ∀ {fields : List (String × Json)} {lss : List (List Lexeme)}, literalFields fields = some lss →
    DenotesFields (separator.intercalate lss) fields
  | [], lss, h => by
    obtain rfl := Option.some.inj h
    exact .nil
  | (key,v) :: fields, lss, h => by
    rw [literalFields] at h
    split at h
    · rename_i hkey
      obtain ⟨l,hl,h⟩ := Option.bind_eq_some_iff.mp h
      obtain ⟨rest,hrest,rfl⟩ := Option.map_eq_some_iff.mp h
      have hvalue := denotes_literal hl
      have hfields := denotes_literalFields hrest
      have hgap : ∀ a ∈ [Lexeme.ignored ' '], ∃ c, a = .ignored c := by simp
      cases rest with
      | nil => simpa using DenotesFields.field hkey hgap hvalue hfields
      | cons l' rest =>
        rw [List.intercalate_cons_cons,List.append_assoc]
        have hrest : DenotesFields (.ignored ',' :: .ignored ' ' :: separator.intercalate (l' :: rest)) fields := .ignored (.ignored hfields)
        have hfield : DenotesFields (.name key.toList :: .punctuator ':' ::
            ([.ignored ' '] ++ (l ++ .ignored ',' :: .ignored ' ' :: separator.intercalate (l' :: rest)))) ((key,v) :: fields) :=
          .field hkey hgap hvalue hrest
        exact hfield
    · exact nomatch h

end

mutual

theorem Denotes.isSome_literal : ∀ {ls : List Lexeme} {v : Json}, Denotes ls v → (literal v).isSome
  | _, _, .null => rfl
  | _, _, .bool _ => rfl
  | _, _, .int _ => rfl
  | _, _, .float ht => by simp [literal,ht]
  | _, _, .string _ => rfl
  | _, _, .array h => by simp [literal,h.isSome_literal]
  | _, _, .object h => by simp [literal,h.isSome_literal]

theorem DenotesItems.isSome_literal : ∀ {ls : List Lexeme} {items : List Json}, DenotesItems ls items → (literalItems items).isSome
  | _, _, .nil => rfl
  | _, _, .ignored h => h.isSome_literal
  | _, _, .item hv h => by
    obtain ⟨l,hl⟩ := Option.isSome_iff_exists.mp hv.isSome_literal
    simp [literalItems,hl,h.isSome_literal]

theorem DenotesFields.isSome_literal : ∀ {ls : List Lexeme} {fields : List (String × Json)}, DenotesFields ls fields →
    (literalFields fields).isSome
  | _, _, .nil => rfl
  | _, _, .ignored h => h.isSome_literal
  | _, _, .field hkey _ hv h => by
    obtain ⟨l,hl⟩ := Option.isSome_iff_exists.mp hv.isSome_literal
    simp [literalFields,hkey,hl,h.isSome_literal]

end

/-- A value has a literal just when some lexemes denote it. -/
theorem isSome_literal_iff {v : Json} : (literal v).isSome ↔ ∃ ls, Denotes ls v := by
  constructor
  · intro h
    obtain ⟨ls,hls⟩ := Option.isSome_iff_exists.mp h
    exact ⟨ls,denotes_literal hls⟩
  · rintro ⟨ls,hls⟩
    exact hls.isSome_literal

end Dwara.Lib.Graphql
