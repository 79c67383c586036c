import Dwara.Dataplane.TranslationGraphql
import Dwara.Lib.Utf8Chunks

/-! When a translated query has the lexemes of its template, with a literal for each reference. -/

namespace Dwara.Dataplane.TranslationGraphql
open Dwara.Lib Dwara.Lib.Graphql
variable {f : List UInt8 → List Char}

/-- The text of scanned bytes, given the text for a reference. -/
def Piece.textWith (f : List UInt8 → List Char) : Piece → List Char
  | byte b => [asChar b]
  | reference name => f name

def substituted (f : List UInt8 → List Char) (bs : List UInt8) : List Char := (scan bs).flatMap (Piece.textWith f)

theorem substituted_byte {b : UInt8} {bs : List UInt8} (h : ¬ (b = dollar ∧ bs.head?.any TranslationGraphql.isNameStart)) :
    substituted f (b :: bs) = asChar b :: substituted f bs := by
  rw [substituted,scan,if_neg h]
  rfl

theorem substituted_reference {bs : List UInt8} (h : bs.head?.any TranslationGraphql.isNameStart) :
    substituted f (dollar :: bs) = f (bs.takeWhile TranslationGraphql.isNameChar) ++
      substituted f (bs.dropWhile TranslationGraphql.isNameChar) := by
  rw [substituted,scan,if_pos ⟨rfl,h⟩]
  rfl

private theorem ascii_bytes : ∀ n < 128, TranslationGraphql.isNameStart (UInt8.ofNat n) = Graphql.isNameStart (Char.ofNat n) ∧
    TranslationGraphql.isNameChar (UInt8.ofNat n) = Graphql.isNameChar (Char.ofNat n) := by decide

private theorem asChar_ofNat {n : ℕ} (h : n < 128) : asChar (UInt8.ofNat n) = Char.ofNat n := by
  have hn : (UInt8.ofNat n).toNat = n := by simp [UInt8.toNat_ofNat']; omega
  rw [asChar,hn]

private theorem isNameChar_high {b : UInt8} (h : 128 ≤ b.toNat) :
    TranslationGraphql.isNameChar b = false ∧ TranslationGraphql.isNameStart b = false := by
  have h₁ : ¬ b ≤ 90 := fun hle => by
    have : b.toNat ≤ 90 := hle
    omega
  have h₂ : ¬ b ≤ 122 := fun hle => by
    have : b.toNat ≤ 122 := hle
    omega
  have h₃ : ¬ b ≤ 57 := fun hle => by
    have : b.toNat ≤ 57 := hle
    omega
  have h₄ : b ≠ 95 := by
    rintro rfl
    exact absurd h (by decide)
  simp [TranslationGraphql.isNameChar,TranslationGraphql.isNameStart,h₁,h₂,h₃,h₄]

/-- Bytes are name characters just when the characters are. -/
private theorem head_encode (cs : List Char) :
    (Utf8.encode cs).head?.any TranslationGraphql.isNameStart = cs.head?.any Graphql.isNameStart ∧
      (Utf8.encode cs).head?.any TranslationGraphql.isNameChar = cs.head?.any Graphql.isNameChar := by
  cases cs with
  | nil => exact ⟨rfl,rfl⟩
  | cons c cs =>
    rw [Utf8.encode_cons]
    by_cases hc : c.toNat < 128
    · obtain ⟨hstart,hchar⟩ := ascii_bytes c.toNat hc
      rw [Char.ofNat_toNat] at hstart hchar
      rw [Utf8.encodeChar_ascii hc]
      exact ⟨hstart,hchar⟩
    · obtain ⟨b,b',bs,heq,hhigh⟩ := Utf8.encodeChar_high (c := c) (by omega)
      obtain ⟨hchar,hstart⟩ := isNameChar_high (hhigh b (by simp))
      have hc' := isNameChar_of_high (c := c) (by omega)
      have hs' : Graphql.isNameStart c = false := by
        cases hs : Graphql.isNameStart c
        · rfl
        · exact absurd (isNameChar_of_isNameStart hs) (by simp [hc'])
      rw [heq]
      exact ⟨hstart.trans hs'.symm,hchar.trans hc'.symm⟩

theorem substituted_ascii {c : Char} (hc : c.toNat < 128) {cs : List Char} (h : ¬ (c = '$' ∧ cs.head?.any Graphql.isNameStart)) :
    substituted f (Utf8.encode (c :: cs)) = c :: substituted f (Utf8.encode cs) := by
  have hnot : ¬ (UInt8.ofNat c.toNat = dollar ∧ (Utf8.encode cs).head?.any TranslationGraphql.isNameStart) := by
    rintro ⟨hdollar,hname⟩
    rw [(head_encode cs).1] at hname
    have hchar := asChar_ofNat hc
    rw [hdollar,Char.ofNat_toNat] at hchar
    exact h ⟨hchar.symm,hname⟩
  rw [Utf8.encode_cons,Utf8.encodeChar_ascii hc]
  change substituted f (UInt8.ofNat c.toNat :: Utf8.encode cs) = _
  rw [substituted_byte hnot,asChar_ofNat hc,Char.ofNat_toNat]

private theorem substituted_highBytes {bs : List UInt8} (h : ∀ b ∈ bs, 128 ≤ b.toNat) (rest : List UInt8) :
    substituted f (bs ++ rest) = bs.map asChar ++ substituted f rest := by
  induction bs with
  | nil => rfl
  | cons b bs ih =>
    have hb : ¬ (b = dollar ∧ (bs ++ rest).head?.any TranslationGraphql.isNameStart) := by
      rintro ⟨rfl,-⟩
      exact absurd (h dollar (by simp)) (by decide)
    rw [List.cons_append,substituted_byte hb,ih fun d hd => h d (List.mem_cons_of_mem b hd)]
    rfl

private theorem asChar_high {b : UInt8} (h : 128 ≤ b.toNat) : 128 ≤ (asChar b).toNat ∧ (asChar b).toNat < 256 := by
  have hlt := b.toNat_lt
  have heq : (asChar b).toNat = b.toNat := by
    rw [asChar,Char.ofNat,dif_pos (.inl (by omega))]
    rfl
  omega

/-- A character beyond ASCII comes out as two or more others. -/
theorem substituted_high {c : Char} (hc : 128 ≤ c.toNat) (cs : List Char) :
    ∃ d e es, substituted f (Utf8.encode (c :: cs)) = d :: e :: es ++ substituted f (Utf8.encode cs) ∧
      ∀ x ∈ d :: e :: es, 128 ≤ x.toNat ∧ x.toNat < 256 := by
  obtain ⟨b,b',bs,heq,hhigh⟩ := Utf8.encodeChar_high hc
  refine ⟨asChar b,asChar b',bs.map asChar,?_,?_⟩
  · rw [Utf8.encode_cons,substituted_highBytes (by rw [heq]; exact hhigh),heq]
    rfl
  · intro x hx
    obtain ⟨d,hd,rfl⟩ := List.mem_map.mp (show x ∈ (b :: b' :: bs).map asChar from hx)
    exact asChar_high (hhigh d hd)

private theorem encode_name {t : List Char} (h : ∀ c ∈ t, Graphql.isNameChar c = true) :
    (∀ b ∈ Utf8.encode t, TranslationGraphql.isNameChar b = true) ∧ (Utf8.encode t).map asChar = t := by
  induction t with
  | nil => exact ⟨fun _ hb => absurd hb List.not_mem_nil,rfl⟩
  | cons c t ih =>
    have hname := h c (by simp)
    have hc : c.toNat < 128 := by
      by_contra hhigh
      exact absurd (isNameChar_of_high (c := c) (by omega)) (by simp [hname])
    obtain ⟨hall,hmap⟩ := ih fun d hd => h d (List.mem_cons_of_mem c hd)
    have hbyte := (ascii_bytes c.toNat hc).2
    rw [Char.ofNat_toNat,hname] at hbyte
    rw [Utf8.encode_cons,Utf8.encodeChar_ascii hc]
    constructor
    · intro b hb
      obtain rfl | hb := List.mem_cons.mp hb
      · exact hbyte
      · exact hall b hb
    · rw [List.map_append,hmap,List.map_singleton,asChar_ofNat hc,Char.ofNat_toNat]
      rfl

theorem substituted_name {t r : List Char} (ht : isName t = true) (hr : r.head?.any Graphql.isNameChar = false) :
    substituted f (Utf8.encode ('$' :: (t ++ r))) = f (Utf8.encode t) ++ substituted f (Utf8.encode r) := by
  have hstart : (Utf8.encode (t ++ r)).head?.any TranslationGraphql.isNameStart = true := by
    rw [(head_encode _).1]
    cases t with
    | nil => exact nomatch ht
    | cons c t => exact (Bool.and_eq_true_iff.mp ht).1
  obtain ⟨hchars,-⟩ := encode_name (isNameChar_of_isName ht)
  have hend : (Utf8.encode r).head?.any TranslationGraphql.isNameChar = false := (head_encode r).2.trans hr
  obtain ⟨htake,hdrop⟩ := takeWhile_append_head hchars hend
  change substituted f (dollar :: Utf8.encode (t ++ r)) = _
  rw [substituted_reference hstart,Utf8.encode_append,htake,hdrop]

/-- A `$` with the start of a name behind it. -/
def hasReference : List Char → Bool
  | c :: d :: cs => (c == '$' && Graphql.isNameStart d) || hasReference (d :: cs)
  | _ => false

/-- What has no reference and is ASCII comes out as it is. -/
theorem substituted_plain {u r : List Char} (hascii : ∀ c ∈ u, c.toNat < 128) (hplain : hasReference u = false)
    (hend : ¬ (u.getLast? = some '$' ∧ r.head?.any Graphql.isNameStart)) :
    substituted f (Utf8.encode (u ++ r)) = u ++ substituted f (Utf8.encode r) := by
  induction u with
  | nil => rfl
  | cons c u ih =>
    have hc := hascii c (by simp)
    have hu := fun d hd => hascii d (List.mem_cons_of_mem c hd)
    cases u with
    | nil => exact substituted_ascii hc (by simpa using hend)
    | cons d u =>
      obtain ⟨hhead,hrest⟩ : ¬ (c = '$' ∧ Graphql.isNameStart d = true) ∧ hasReference (d :: u) = false := by
        simpa [hasReference] using hplain
      have hnot : ¬ (c = '$' ∧ (d :: u ++ r).head?.any Graphql.isNameStart) := hhead
      rw [List.cons_append,substituted_ascii hc hnot,ih hu hrest (by simpa using hend)]
      rfl

/-- Characters beyond ASCII in front never let the text fall in with what is ASCII. -/
private theorem high_of_behind {u r ms y : List Char} (hms : ms ≠ []) (hhigh : ∀ x ∈ ms, 128 ≤ x.toNat)
    (h : ms ++ substituted f (Utf8.encode (u ++ r)) = u ++ y) :
    (∀ c ∈ u, 128 ≤ c.toNat) ∧ ∃ x, y.head? = some x ∧ 128 ≤ x.toNat := by
  induction u generalizing ms with
  | nil =>
    cases ms with
    | nil => exact absurd rfl hms
    | cons m ms =>
      refine ⟨fun c hc => absurd hc List.not_mem_nil,m,?_,hhigh m (by simp)⟩
      change _ = y at h
      rw [← h]
      rfl
  | cons c u ih =>
    cases ms with
    | nil => exact absurd rfl hms
    | cons m ms =>
      obtain ⟨rfl,hrest⟩ := List.cons.inj h
      have hm := hhigh m (by simp)
      obtain ⟨d,e,es,heq,hout⟩ := substituted_high hm (u ++ r)
      change ms ++ substituted f (Utf8.encode (m :: (u ++ r))) = u ++ y at hrest
      rw [heq,← List.append_assoc] at hrest
      have hnext : ∀ x ∈ ms ++ d :: e :: es, 128 ≤ x.toNat := by
        intro x hx
        obtain hx | hx := List.mem_append.mp hx
        · exact hhigh x (List.mem_cons_of_mem m hx)
        · exact (hout x hx).1
      obtain ⟨hu,hy⟩ := ih (by simp) hnext hrest
      refine ⟨?_,hy⟩
      intro x hx
      obtain rfl | hx := List.mem_cons.mp hx
      · exact hm
      · exact hu x hx

/-- What comes out as it is has no reference and is ASCII, or it ends beyond ASCII and so goes
on. -/
theorem plain_of_substituted (hf : ∀ name, (f name).head? ≠ some '$' ∧ f name ≠ []) {u r y : List Char}
    (hend : ¬ (u.getLast? = some '$' ∧ r.head?.any Graphql.isNameStart)) (h : substituted f (Utf8.encode (u ++ r)) = u ++ y) :
    ((∀ c ∈ u, c.toNat < 128) ∧ hasReference u = false ∧ substituted f (Utf8.encode r) = y) ∨
      ((∃ c ∈ u, 128 ≤ c.toNat ∧ c.toNat < 256) ∧ (∃ c, u.getLast? = some c ∧ 128 ≤ c.toNat) ∧ ∃ x, y.head? = some x ∧ 128 ≤ x.toNat) := by
  induction u with
  | nil => exact .inl ⟨fun c hc => absurd hc List.not_mem_nil,rfl,h⟩
  | cons c u ih =>
    by_cases hc : c.toNat < 128
    · by_cases href : c = '$' ∧ (u ++ r).head?.any Graphql.isNameStart = true
      · obtain ⟨rfl,hname⟩ := href
        rw [← (head_encode _).1] at hname
        change substituted f (dollar :: Utf8.encode (u ++ r)) = '$' :: (u ++ y) at h
        rw [substituted_reference hname] at h
        obtain ⟨hhead,hne⟩ := hf ((Utf8.encode (u ++ r)).takeWhile TranslationGraphql.isNameChar)
        have hfirst := congrArg List.head? h
        rw [List.head?_append_of_ne_nil _ hne] at hfirst
        exact absurd hfirst hhead
      · rw [List.cons_append,substituted_ascii hc href] at h
        have hrest : substituted f (Utf8.encode (u ++ r)) = u ++ y := (List.cons.inj h).2
        cases u with
        | nil =>
          refine .inl ⟨?_,rfl,hrest⟩
          simpa using hc
        | cons d u =>
          have hhead : ¬ (c = '$' ∧ Graphql.isNameStart d = true) := href
          obtain ⟨hascii,hplain,heq⟩ | ⟨⟨x,hx,hlow⟩,hlast,hy⟩ := ih (by simpa using hend) hrest
          · refine .inl ⟨?_,by simpa [hasReference,hplain] using hhead,heq⟩
            intro x hx
            obtain rfl | hx := List.mem_cons.mp hx
            · exact hc
            · exact hascii x hx
          · exact .inr ⟨⟨x,List.mem_cons_of_mem c hx,hlow⟩,by simpa using hlast,hy⟩
    · obtain ⟨d,e,es,heq,hout⟩ := substituted_high (f := f) (Nat.le_of_not_lt hc) (u ++ r)
      rw [List.cons_append,heq] at h
      obtain ⟨rfl,hrest⟩ := List.cons.inj h
      have hd := hout d (by simp)
      have hbehind : ∀ x ∈ e :: es, 128 ≤ x.toNat := fun x hx => (hout x (List.mem_cons_of_mem d hx)).1
      obtain ⟨hu,hy⟩ := high_of_behind (List.cons_ne_nil e es) hbehind hrest
      refine .inr ⟨⟨d,by simp,hd⟩,⟨_,List.getLast?_eq_some_getLast (List.cons_ne_nil d u),?_⟩,hy⟩
      obtain hlast | hlast := List.mem_cons.mp (List.getLast_mem (List.cons_ne_nil d u))
      · rw [hlast]
        exact hd.1
      · exact hu _ hlast

/-- The lexeme comes out as it is: it is a reference, or ASCII without one. -/
def Untouched (a : Lexeme) : Prop := a.isReference = true ∨ (∀ c ∈ a.text, c.toNat < 128) ∧ hasReference a.text = false

instance (a : Lexeme) : Decidable (Untouched a) :=
  decidable_of_iff (a.isReference = true ∨ a.text.all (·.toNat < 128) = true ∧ hasReference a.text = false) (by simp [Untouched])

private theorem dollar_joins {a : Lexeme} (ha : a.Valid) (hnot : ∀ name, a ≠ .reference name) (hlast : a.text.getLast? = some '$') {c : Char}
    (hc : Graphql.isNameStart c = true) : a.joins c = true := by
  have hmem := List.mem_of_getLast? hlast
  cases a with
  | ignored d =>
    obtain rfl : '$' = d := by simpa [Lexeme.text] using hmem
    have hignored : isIgnored '$' = true := ha
    exact absurd hignored (by decide)
  | comment t =>
    have hline : isLineEnd c = false := by
      simp only [isLineEnd,Bool.or_eq_false_iff,beq_eq_false_iff_ne]
      constructor
      · rintro rfl
        exact absurd hc (by decide)
      · rintro rfl
        exact absurd hc (by decide)
    simp [Lexeme.joins,hline]
  | punctuator d =>
    obtain rfl : '$' = d := by simpa [Lexeme.text] using hmem
    simp [Lexeme.joins,hc]
  | spread => exact absurd hlast (by decide)
  | name t => exact absurd (isNameChar_of_isName ha '$' hmem) (by decide)
  | reference t => exact absurd rfl (hnot t)
  | number t => exact absurd (mem_number ha hmem) (by decide)
  | string raw => simp [Lexeme.text,List.getLast?_cons] at hlast
  | blockString raw => simp [Lexeme.text,List.getLast?_cons] at hlast

private theorem not_dollar_end {a : Lexeme} (ha : a.Valid) (hnot : ∀ name, a ≠ .reference name) {r : List Char}
    (hr : r.head?.any a.joins = false) : ¬ (a.text.getLast? = some '$' ∧ r.head?.any Graphql.isNameStart) := by
  rintro ⟨hlast,hname⟩
  cases r with
  | nil => exact nomatch hname
  | cons c r =>
    have hjoins := dollar_joins ha hnot hlast (c := c) hname
    exact absurd hr (by simp [hjoins])

/-- No lexeme ends beyond ASCII with what is beyond ASCII behind it. -/
private theorem not_high_end {a : Lexeme} (ha : a.Valid) (hnot : ∀ name, a ≠ .reference name) {y : List Char} (hy : y.head?.any a.joins = false)
    (hlow : ∃ c ∈ a.text, 128 ≤ c.toNat ∧ c.toNat < 256) (hlast : ∃ c, a.text.getLast? = some c ∧ 128 ≤ c.toNat)
    (hhead : ∃ x, y.head? = some x ∧ 128 ≤ x.toNat) : False := by
  obtain ⟨c,hc,hhigh⟩ := hlast
  have hmem := List.mem_of_getLast? hc
  cases a with
  | ignored d =>
    obtain ⟨x,hx,hx₁,hx₂⟩ := hlow
    obtain rfl : x = d := by simpa [Lexeme.text] using hx
    have hignored : isIgnored x = true := ha
    simp only [isIgnored,isLineEnd,Bool.or_eq_true,beq_iff_eq] at hignored
    obtain ((((rfl | rfl) | (rfl | rfl)) | rfl) | hbom) := hignored
    · exact absurd hx₁ (by decide)
    · exact absurd hx₁ (by decide)
    · exact absurd hx₁ (by decide)
    · exact absurd hx₁ (by decide)
    · exact absurd hx₁ (by decide)
    · omega
  | comment t =>
    obtain ⟨x,hx,hx₁⟩ := hhead
    rw [hx] at hy
    have hline : isLineEnd x = true := by simpa [Lexeme.joins] using hy
    simp only [isLineEnd,Bool.or_eq_true,beq_iff_eq] at hline
    obtain rfl | rfl := hline
    · exact absurd hx₁ (by decide)
    · exact absurd hx₁ (by decide)
  | punctuator d =>
    obtain rfl : c = d := by simpa [Lexeme.text] using hmem
    have hpunct : isPunctuator c = true := ha
    have hall : ∀ c ∈ ['!','$','&','(',')',':','=','@','[',']','\x7b','|','\x7d'], c.toNat < 128 := List.all_iff_forall_prop.mp (by decide)
    have hlt := hall c (by simpa [isPunctuator] using hpunct)
    omega
  | spread =>
    obtain rfl : '.' = c := by simpa [Lexeme.text] using hc
    exact absurd hhigh (by decide)
  | name t => exact absurd (isNameChar_of_isName ha c hmem) (by simp [isNameChar_of_high hhigh])
  | reference t => exact absurd rfl (hnot t)
  | number t =>
    obtain hdigit | hsign := mem_number ha hmem
    · have hchar := isNameChar_of_high hhigh
      simp [Graphql.isNameChar,Char.isAlphanum,hdigit] at hchar
    · have hall : ∀ c ∈ ['-','+','.','e','E'], c.toNat < 128 := List.all_iff_forall_prop.mp (by decide)
      have hlt := hall c hsign
      omega
  | string raw =>
    obtain rfl : '"' = c := by simpa [Lexeme.text,List.getLast?_cons] using hc
    exact absurd hhigh (by decide)
  | blockString raw =>
    obtain rfl : '"' = c := by simpa [Lexeme.text,List.getLast?_cons] using hc
    exact absurd hhigh (by decide)

private theorem render_intercalate (lss : List (List Lexeme)) :
    render (separator.intercalate lss) = [',',' '].intercalate (lss.map render) := by
  induction lss with
  | nil => rfl
  | cons ls lss ih =>
    cases lss with
    | nil => simp
    | cons l lss =>
      have hcons : [',',' '].intercalate (render ls :: render l :: lss.map render) =
          render ls ++ [',',' '] ++ [',',' '].intercalate (render l :: lss.map render) := List.intercalate_cons_cons
      rw [List.intercalate_cons_cons,render_append,render_append,ih]
      exact hcons.symm

mutual

/-- The printed text of a value that has a literal is the literal's. -/
theorem render_literal : ∀ {v : Json} {ls : List Lexeme}, literal v = some ls → render ls = jsonToGraphqlLiteral v
  | .null, ls, h => by
    obtain rfl := Option.some.inj h
    rfl
  | .bool b, ls, h => by
    obtain rfl := Option.some.inj h
    exact List.append_nil _
  | .int n, ls, h => by
    obtain rfl := Option.some.inj h
    exact List.append_nil _
  | .float t, ls, h => by
    rw [literal] at h
    split at h
    · obtain rfl := Option.some.inj h
      exact List.append_nil _
    · exact nomatch h
  | .string s, ls, h => by
    obtain rfl := Option.some.inj h
    exact List.append_nil _
  | .array items, ls, h => by
    rw [literal] at h
    obtain ⟨lss,hlss,rfl⟩ := Option.map_eq_some_iff.mp h
    rw [render_cons,render_append,render_intercalate,render_literalItems hlss,jsonToGraphqlLiteral]
    rfl
  | .object fields, ls, h => by
    rw [literal] at h
    obtain ⟨lss,hlss,rfl⟩ := Option.map_eq_some_iff.mp h
    rw [render_cons,render_append,render_intercalate,render_literalFields hlss,jsonToGraphqlLiteral]
    rfl

theorem render_literalItems : ∀ {items : List Json} {lss : List (List Lexeme)}, literalItems items = some lss →
    lss.map render = itemLiterals items
  | [], lss, h => by
    obtain rfl := Option.some.inj h
    rfl
  | v :: items, lss, h => by
    rw [literalItems] at h
    obtain ⟨l,hl,h⟩ := Option.bind_eq_some_iff.mp h
    obtain ⟨rest,hrest,rfl⟩ := Option.map_eq_some_iff.mp h
    rw [List.map_cons,render_literal hl,render_literalItems hrest,itemLiterals]

theorem render_literalFields : ∀ {fields : List (String × Json)} {lss : List (List Lexeme)}, literalFields fields = some lss →
    lss.map render = fieldLiterals fields
  | [], lss, h => by
    obtain rfl := Option.some.inj h
    rfl
  | (key,v) :: fields, lss, h => by
    rw [literalFields] at h
    split at h
    · obtain ⟨l,hl,h⟩ := Option.bind_eq_some_iff.mp h
      obtain ⟨rest,hrest,rfl⟩ := Option.map_eq_some_iff.mp h
      rw [List.map_cons,render_literalFields hrest,fieldLiterals,← render_literal hl]
      rfl
    · exact nomatch h

end

/-- A printed value is not empty and begins no reference. -/
private theorem head_printed {v : Json} (hfloat : ∀ t, v = .float t → isNumber t.toList = true) :
    (jsonToGraphqlLiteral v).head? ≠ some '$' ∧ jsonToGraphqlLiteral v ≠ [] := by
  have hnumber : ∀ t, isNumber t = true → t.head? ≠ some '$' ∧ t ≠ [] := by
    intro t ht
    constructor
    · intro hhead
      exact absurd (mem_number ht (List.mem_of_head? hhead)) (by decide)
    · rintro rfl
      exact nomatch ht
  cases v with
  | null => exact ⟨by decide,by decide⟩
  | bool b => cases b <;> exact ⟨by decide,by decide⟩
  | int n => exact hnumber _ (isNumber_toString n)
  | float t => exact hnumber _ (hfloat t rfl)
  | string s => exact ⟨by simp [jsonToGraphqlLiteral],by simp [jsonToGraphqlLiteral]⟩
  | array items => exact ⟨by simp [jsonToGraphqlLiteral],by simp [jsonToGraphqlLiteral]⟩
  | object fields => exact ⟨by simp [jsonToGraphqlLiteral],by simp [jsonToGraphqlLiteral]⟩

/-- The lexemes that take the place of a lexeme of the template. -/
def fill (body : List (String × Json)) : Lexeme → List Lexeme
  | .reference name => ((body.lookup (String.ofList name)).bind literal).getD []
  | a => [a]

def filled (body : List (String × Json)) (ts : List Lexeme) : List Lexeme := ts.flatMap (fill body)

theorem fill_of_ne (body : List (String × Json)) {a : Lexeme} (h : ∀ name, a ≠ .reference name) : fill body a = [a] := by
  cases a with
  | reference name => exact absurd rfl (h name)
  | _ => rfl

theorem untouched_of_ne {a : Lexeme} (h : ∀ name, a ≠ .reference name) :
    Untouched a ↔ (∀ c ∈ a.text, c.toNat < 128) ∧ hasReference a.text = false := by
  cases a with
  | reference name => exact absurd rfl (h name)
  | _ => simp [Untouched,Lexeme.isReference]

variable {body : List (String × Json)}

/-- What comes out of a template that is left alone outside its references. -/
theorem substituted_render {ts : List Lexeme} (hts : WellSpaced ts)
    (hfill : ∀ name, .reference name ∈ ts → f (Utf8.encode name) = render (fill body (.reference name))) (h : ∀ a ∈ ts, Untouched a) :
    substituted f (Utf8.encode (render ts)) = render (filled body ts) := by
  induction ts with
  | nil =>
    change substituted f [] = []
    rw [substituted,scan]
    rfl
  | cons a ts ih =>
    obtain ⟨ha,hhead,hrest⟩ := wellSpaced_cons.mp hts
    have htail := ih hrest (fun name hname => hfill name (List.mem_cons_of_mem a hname)) fun b hb => h b (List.mem_cons_of_mem a hb)
    rw [filled,List.flatMap_cons,render_append,← filled,← htail,render_cons]
    by_cases hnot : ∀ name, a ≠ .reference name
    · obtain ⟨hascii,hplain⟩ := (untouched_of_ne hnot).mp (h a (by simp))
      rw [substituted_plain hascii hplain (not_dollar_end ha hnot hhead),fill_of_ne body hnot]
      simp
    · obtain ⟨name,rfl⟩ := not_forall_not.mp hnot
      rw [← hfill name (by simp)]
      exact substituted_name ha hhead

/-- A template that comes out as its filled lexemes is left alone outside its references. -/
theorem untouched_of_substituted (hf : ∀ name, (f name).head? ≠ some '$' ∧ f name ≠ []) {ts : List Lexeme} (hts : WellSpaced ts)
    (hfill : ∀ name, .reference name ∈ ts → f (Utf8.encode name) = render (fill body (.reference name)))
    (hout : WellSpaced (filled body ts)) (h : substituted f (Utf8.encode (render ts)) = render (filled body ts)) : ∀ a ∈ ts, Untouched a := by
  induction ts with
  | nil => exact fun a ha => absurd ha List.not_mem_nil
  | cons a ts ih =>
    obtain ⟨ha,hhead,hrest⟩ := wellSpaced_cons.mp hts
    have hfill' : ∀ name, .reference name ∈ ts → f (Utf8.encode name) = render (fill body (.reference name)) :=
      fun name hname => hfill name (List.mem_cons_of_mem a hname)
    have hsplit : filled body (a :: ts) = fill body a ++ filled body ts := List.flatMap_cons
    rw [hsplit] at hout h
    rw [render_append,render_cons] at h
    have htail : WellSpaced (filled body ts) :=
      ⟨fun b hb => hout.valid b (List.mem_append_right _ hb),(List.isChain_append.mp hout.apart).2.1⟩
    by_cases hnot : ∀ name, a ≠ .reference name
    · rw [fill_of_ne body hnot] at hout h
      have hy := (wellSpaced_cons.mp hout).2.1
      have htext : render [a] = a.text := by simp
      rw [htext] at h
      obtain ⟨hascii,hplain,heq⟩ | ⟨hlow,hlast,hhigh⟩ := plain_of_substituted hf (not_dollar_end ha hnot hhead) h
      · have hall := ih hrest hfill' htail heq
        intro b hb
        obtain rfl | hb := List.mem_cons.mp hb
        · exact (untouched_of_ne hnot).mpr ⟨hascii,hplain⟩
        · exact hall b hb
      · exact (not_high_end ha hnot hy hlow hlast hhigh).elim
    · obtain ⟨name,rfl⟩ := not_forall_not.mp hnot
      have hname : substituted f (Utf8.encode ((Lexeme.reference name).text ++ render ts)) =
          f (Utf8.encode name) ++ substituted f (Utf8.encode (render ts)) := substituted_name ha hhead
      rw [hname,hfill name (by simp)] at h
      have hall := ih hrest hfill' htail (List.append_cancel_left h)
      intro b hb
      obtain rfl | hb := List.mem_cons.mp hb
      · exact .inl rfl
      · exact hall b hb

/-- The literal for a reference, with null for a field that is missing. -/
def valueText (body : List (String × Json)) (name : List UInt8) : List Char :=
  jsonToGraphqlLiteral ((body.lookup (asText name)).getD .null)

private theorem mapM_resolve {names : List String} (h : ∀ name ∈ names, (body.lookup name).isSome) :
    names.mapM (resolve body) = .ok (names.map fun name => (name,(body.lookup name).getD .null)) := by
  induction names with
  | nil => rfl
  | cons name names ih =>
    obtain ⟨v,hv⟩ := Option.isSome_iff_exists.mp (h name (by simp))
    rw [List.mapM_cons,ih fun n hn => h n (List.mem_cons_of_mem name hn),resolve,hv,List.map_cons,hv]
    rfl

private theorem lookup_map_self {names : List String} (g : String → Json) {name : String} (h : name ∈ names) :
    (names.map fun n => (n,g n)).lookup name = some (g name) := by
  induction names with
  | nil => exact absurd h List.not_mem_nil
  | cons n names ih =>
    rw [List.map_cons,List.lookup_cons]
    by_cases hn : name = n
    · simp [hn]
    · have hne : (name == n) = false := beq_false_of_ne hn
      simp only [hne]
      exact ih ((List.mem_cons.mp h).resolve_left hn)

/-- A request whose body supplies all references is translated, each reference substituted. -/
theorem translateRequest_eq (translator : GraphqlTranslator) (h : ∀ name ∈ referencedVariables translator.queryTemplate, (body.lookup name).isSome) :
    ∃ r, translator.translateRequest (.ok (.object body)) = .ok r ∧
      r.query.toList = substituted (valueText body) (Utf8.encode translator.queryTemplate.toList) := by
  have hcollect : collectVariables translator.queryTemplate body = .ok _ := mapM_resolve h
  have hok : translator.translateRequest (.ok (.object body)) = (collectVariables translator.queryTemplate body).map _ := rfl
  rw [hcollect] at hok
  refine ⟨_,hok,?_⟩
  dsimp only
  rw [substituteTemplate,String.toList_ofList,substituted]
  apply List.flatMap_congr
  intro p hp
  cases p with
  | byte b => rfl
  | reference name =>
    have hmem : asText name ∈ referencedVariables translator.queryTemplate := by
      rw [referencedVariables,List.mem_eraseDups]
      exact List.mem_filterMap.mpr ⟨_,hp,rfl⟩
    rw [Piece.text,lookup_map_self _ hmem]
    rfl

/-- The query has the lexemes of the template, with the literal of its value for a reference. -/
def KeepsShape (template : String) (body : List (String × Json)) (query : String) : Prop :=
  ∃ ts, lex template.toList = some ts ∧
    (∀ name, .reference name ∈ ts → ∃ v ls, body.lookup (String.ofList name) = some v ∧ literal v = some ls ∧ Denotes ls v) ∧
    lex query.toList = some (filled body ts)

/-- The body cannot change the shape of the query: it keeps it, or it has a value without a
literal and is refused. -/
def ShapeSafe (translator : GraphqlTranslator) (body : List (String × Json)) : Prop :=
  (∃ r, translator.translateRequest (.ok (.object body)) = .ok r ∧ KeepsShape translator.queryTemplate body r.query) ∨
    (∃ e, translator.translateRequest (.ok (.object body)) = .error e) ∧ ∃ name v, body.lookup name = some v ∧ ¬ ∃ ls, Denotes ls v

/-- The template is GraphQL and ASCII with no reference in a string or a comment, every value
referred to has a literal, and no literal runs together with a neighbour. -/
def Harmless (template : String) (body : List (String × Json)) : Prop :=
  ∃ ts, lex template.toList = some ts ∧ (∀ a ∈ ts, Untouched a) ∧
    (∀ name, .reference name ∈ ts → ∃ v, body.lookup (String.ofList name) = some v ∧ ∃ ls, Denotes ls v) ∧
    (filled body ts).IsChain Graphql.Apart

private theorem valueText_name {name : List Char} (hname : isName name = true) {v : Json} {ls : List Lexeme}
    (hv : body.lookup (String.ofList name) = some v) (hls : literal v = some ls) :
    valueText body (Utf8.encode name) = render (fill body (.reference name)) := by
  rw [valueText,asText,(encode_name (isNameChar_of_isName hname)).2,hv,fill,hv,Option.bind_some,hls]
  exact (render_literal hls).symm

private theorem head_valueText (hfloat : ∀ name t, body.lookup name = some (.float t) → isNumber t.toList = true) (name : List UInt8) :
    (valueText body name).head? ≠ some '$' ∧ valueText body name ≠ [] := by
  apply head_printed
  intro t ht
  cases hv : body.lookup (asText name) with
  | none =>
    rw [hv] at ht
    exact nomatch ht
  | some v =>
    rw [hv] at ht
    obtain rfl : v = .float t := ht
    exact hfloat _ t hv

private theorem filled_valid {ts : List Lexeme} (hts : ∀ a ∈ ts, a.Valid) : ∀ a ∈ filled body ts, a.Valid := by
  intro b hb
  obtain ⟨a,ha,hb⟩ := List.mem_flatMap.mp hb
  by_cases hnot : ∀ name, a ≠ .reference name
  · rw [fill_of_ne body hnot] at hb
    obtain rfl := List.mem_singleton.mp hb
    exact hts b ha
  · obtain ⟨name,rfl⟩ := not_forall_not.mp hnot
    rw [fill] at hb
    cases hls : (body.lookup (String.ofList name)).bind literal with
    | none =>
      rw [hls] at hb
      exact absurd hb List.not_mem_nil
    | some ls =>
      rw [hls] at hb
      obtain ⟨v,-,hv⟩ := Option.bind_eq_some_iff.mp hls
      exact (closed_literal hv).spaced.valid b hb

theorem shapeSafe_of_harmless {translator : GraphqlTranslator}
    (hsupplied : ∀ name ∈ referencedVariables translator.queryTemplate, (body.lookup name).isSome)
    (h : Harmless translator.queryTemplate body) : ShapeSafe translator body := by
  obtain ⟨ts,hlex,huntouched,hvalues,hchain⟩ := h
  obtain ⟨r,hr,hquery⟩ := translateRequest_eq translator hsupplied
  obtain ⟨htemplate,hspaced⟩ := lex_eq_some.mp hlex
  have hliterals : ∀ name, .reference name ∈ ts → ∃ v ls, body.lookup (String.ofList name) = some v ∧ literal v = some ls ∧ Denotes ls v := by
    intro name hname
    obtain ⟨v,hv,hdenotes⟩ := hvalues name hname
    obtain ⟨ls,hls⟩ := Option.isSome_iff_exists.mp (isSome_literal_iff.mpr hdenotes)
    exact ⟨v,ls,hv,hls,denotes_literal hls⟩
  refine .inl ⟨r,hr,ts,hlex,hliterals,lex_eq_some.mpr ⟨?_,filled_valid hspaced.valid,hchain⟩⟩
  rw [hquery,htemplate]
  refine substituted_render hspaced ?_ huntouched
  intro name hname
  obtain ⟨v,ls,hv,hls,-⟩ := hliterals name hname
  exact valueText_name (hspaced.valid _ hname) hv hls

theorem harmless_of_shapeSafe {translator : GraphqlTranslator}
    (hsupplied : ∀ name ∈ referencedVariables translator.queryTemplate, (body.lookup name).isSome)
    (hfloat : ∀ name t, body.lookup name = some (.float t) → isNumber t.toList = true)
    (h : ShapeSafe translator body) : Harmless translator.queryTemplate body := by
  obtain ⟨r,hr,hquery⟩ := translateRequest_eq translator hsupplied
  obtain ⟨r',hr',ts,hlex,hliterals,hout⟩ | ⟨⟨e,he⟩,-⟩ := h
  · obtain rfl : r' = r := Except.ok.inj (hr'.symm.trans hr)
    obtain ⟨htemplate,hspaced⟩ := lex_eq_some.mp hlex
    obtain ⟨htext,hfilled⟩ := lex_eq_some.mp hout
    rw [hquery,htemplate] at htext
    refine ⟨ts,hlex,?_,?_,hfilled.apart⟩
    · refine untouched_of_substituted (head_valueText hfloat) hspaced ?_ hfilled htext
      intro name hname
      obtain ⟨v,ls,hv,hls,-⟩ := hliterals name hname
      exact valueText_name (hspaced.valid _ hname) hv hls
    · intro name hname
      obtain ⟨v,ls,hv,-,hdenotes⟩ := hliterals name hname
      exact ⟨v,hv,ls,hdenotes⟩
  · exact nomatch he.symm.trans hr

/-- A body that supplies all references keeps the shape of the query exactly when template and
values are harmless. -/
theorem shapeSafe_iff (translator : GraphqlTranslator) (body : List (String × Json))
    (hsupplied : ∀ name ∈ referencedVariables translator.queryTemplate, (body.lookup name).isSome)
    (hfloat : ∀ name t, body.lookup name = some (.float t) → isNumber t.toList = true) :
    ShapeSafe translator body ↔ Harmless translator.queryTemplate body := by
  constructor
  · exact harmless_of_shapeSafe hsupplied hfloat
  · exact shapeSafe_of_harmless hsupplied

private def userById : GraphqlTranslator := ⟨"\x7b user(id: $id) \x7d","/graphql"⟩

private def userLexemes : List Lexeme :=
  [.punctuator '\x7b',.ignored ' ',.name "user".toList,.punctuator '(',.name "id".toList,.punctuator ':',.ignored ' ',
    .reference "id".toList,.punctuator ')',.ignored ' ',.punctuator '\x7d']

private theorem lex_userById : lex userById.queryTemplate.toList = some userLexemes := by decide +kernel

private theorem referenced_userById : referencedVariables userById.queryTemplate = ["id"] := by decide +kernel

/-- A string with a quotation mark stays one literal. -/
theorem shapeSafe_userById : ShapeSafe userById [("id",.string "7\") \x7b secret")] := by
  have hsupplied : ∀ name ∈ referencedVariables userById.queryTemplate, (List.lookup name [("id",Json.string "7\") \x7b secret")]).isSome := by
    rw [referenced_userById]
    simp
  have hfloat : ∀ name t, List.lookup name [("id",Json.string "7\") \x7b secret")] = some (.float t) → isNumber t.toList = true := by
    intro name t h
    rw [List.lookup_cons] at h
    split at h <;> exact nomatch h
  refine (shapeSafe_iff userById _ hsupplied hfloat).mpr ⟨userLexemes,lex_userById,?_,?_,?_⟩
  · decide +kernel
  · intro name hname
    obtain rfl : name = "id".toList := by simpa [userLexemes] using hname
    exact ⟨_,rfl,_,.string (unescape_escape _)⟩
  · decide +kernel

/-- A key of the client's choice ends the object and writes on in the query. -/
theorem shape_changed_by_key : ¬ ShapeSafe userById [("id",.object [("a: 1\x7d) \x7b secret \x7d #",.null)])] := by
  intro h
  have hsupplied : ∀ name ∈ referencedVariables userById.queryTemplate,
      (List.lookup name [("id",Json.object [("a: 1\x7d) \x7b secret \x7d #",.null)])]).isSome := by
    rw [referenced_userById]
    simp
  have hfloat : ∀ name t, List.lookup name [("id",Json.object [("a: 1\x7d) \x7b secret \x7d #",.null)])] = some (.float t) →
      isNumber t.toList = true := by
    intro name t h
    rw [List.lookup_cons] at h
    split at h <;> exact nomatch h
  obtain ⟨ts,hlex,-,hvalues,-⟩ := harmless_of_shapeSafe hsupplied hfloat h
  obtain rfl := Option.some.inj (lex_userById.symm.trans hlex)
  obtain ⟨v,hv,hdenotes⟩ := hvalues "id".toList (by simp [userLexemes])
  obtain rfl := Option.some.inj hv
  exact absurd (isSome_literal_iff.mpr hdenotes) (by decide +kernel)


end Dwara.Dataplane.TranslationGraphql
