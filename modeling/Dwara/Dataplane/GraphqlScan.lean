import Dwara.Dataplane.GraphqlCheck
import Dwara.Lib.GraphqlFields
import Dwara.Lib.Utf8Chunks

/-! The depth and the cost the scanner tells of a query, beside what its lexemes tell. -/

namespace Dwara.Dataplane.GraphqlCheck
open Dwara.Lib Dwara.Lib.Graphql Dwara.Lib.Utf8

section Bytes
variable {costPerField : List (String × UInt64)} {coefficient : UInt64}

/-- The scan of what is left, with as much fuel as it takes. -/
def scanRest (costPerField : List (String × UInt64)) (coefficient : UInt64) (s : ScanState) (bytes : Bytes) : ℕ × UInt64 :=
  scanFrom costPerField coefficient bytes.length s bytes

theorem scanRest_cons (s : ScanState) (b : UInt8) (rest : Bytes) :
    scanRest costPerField coefficient s (b :: rest) =
      if b = '#'.toUInt8 then scanRest costPerField coefficient s (rest.dropWhile (· ≠ '\n'.toUInt8))
      else if b = '"'.toUInt8 then scanRest costPerField coefficient s (skipQuoted rest)
      else if b = '\x7b'.toUInt8 ∨ b = '('.toUInt8 then
        if parseDepthCap < s.depth + 1 then (parseDepthCap + 1,s.complexity)
        else scanRest costPerField coefficient { s with depth := s.depth + 1, maxDepth := max s.maxDepth (s.depth + 1) } rest
      else if b = '\x7d'.toUInt8 ∨ b = ')'.toUInt8 then scanRest costPerField coefficient { s with depth := s.depth - 1 } rest
      else if b = '.'.toUInt8 ∧ rest.take 2 = ['.'.toUInt8,'.'.toUInt8] then scanRest costPerField coefficient s (rest.drop 2)
      else if b = '@'.toUInt8 then scanRest costPerField coefficient s (rest.dropWhile GraphqlCheck.isNameChar)
      else if GraphqlCheck.isNameStart b then
        scanRest costPerField coefficient (s.name costPerField coefficient
          (String.ofList ((b :: rest.takeWhile GraphqlCheck.isNameChar).map fun c => Char.ofNat c.toNat)))
          (rest.dropWhile GraphqlCheck.isNameChar)
      else scanRest costPerField coefficient s rest := by
  have hdrop : ∀ q : UInt8 → Bool, (rest.dropWhile q).length ≤ rest.length := fun q => (List.dropWhile_sublist q).length_le
  have hfuel : ∀ (s : ScanState) (bytes : Bytes), bytes.length ≤ rest.length →
      scanFrom costPerField coefficient rest.length s bytes = scanRest costPerField coefficient s bytes :=
    fun s bytes hlen => scanFrom_fuel hlen le_rfl s
  rw [scanRest,List.length_cons,scanFrom]
  dsimp only
  rw [hfuel s _ (hdrop _),hfuel s _ (length_skipQuoted_le rest),hfuel _ rest le_rfl,hfuel _ rest le_rfl,hfuel s (rest.drop 2) (by simp),
    hfuel s _ (hdrop _),hfuel _ _ (hdrop _),hfuel s rest le_rfl]

end Bytes

section Chars
variable {costPerField : List (String × UInt64)} {coefficient : UInt64}

/-- The scan of the characters that are left. -/
def scanText (costPerField : List (String × UInt64)) (coefficient : UInt64) (s : ScanState) (cs : List Char) : ℕ × UInt64 :=
  scanRest costPerField coefficient s (encode cs)

private theorem ascii_names : ∀ n < 128, GraphqlCheck.isNameStart (UInt8.ofNat n) = Graphql.isNameStart (Char.ofNat n) ∧
    GraphqlCheck.isNameChar (UInt8.ofNat n) = Graphql.isNameChar (Char.ofNat n) := by decide

private theorem high_names : ∀ n < 256, 128 ≤ n → GraphqlCheck.isNameStart (UInt8.ofNat n) = false ∧
    GraphqlCheck.isNameChar (UInt8.ofNat n) = false := by decide +kernel

private theorem isNameChar_high {b : UInt8} (h : 128 ≤ b.toNat) :
    GraphqlCheck.isNameStart b = false ∧ GraphqlCheck.isNameChar b = false := by
  have hb := high_names b.toNat b.toNat_lt h
  rwa [UInt8.ofNat_toNat] at hb

private theorem ofNat_eq_iff {c d : Char} (hc : c.toNat < 128) (hd : d.toNat < 128) : UInt8.ofNat c.toNat = d.toUInt8 ↔ c = d := by
  constructor
  · intro h
    have hn := congrArg UInt8.toNat h
    change c.toNat % 256 = d.toNat % 256 at hn
    have hcd : c.toNat = d.toNat := by omega
    rw [← Char.ofNat_toNat c,hcd,Char.ofNat_toNat]
  · rintro rfl
    rfl

private theorem ne_of_high {b : UInt8} {d : Char} (hb : 128 ≤ b.toNat) (hd : d.toNat < 128) : b ≠ d.toUInt8 := by
  rintro rfl
  change 128 ≤ d.toNat % 256 at hb
  omega

theorem tests_isNameChar : Tests GraphqlCheck.isNameChar Graphql.isNameChar := by
  intro c
  by_cases hc : c.toNat < 128
  · have hname := (ascii_names c.toNat hc).2
    rw [Char.ofNat_toNat] at hname
    rw [encodeChar_ascii hc]
    constructor
    · intro h b hb
      rw [List.mem_singleton.mp hb,hname,h]
    · intro h
      exact ⟨_,[],rfl,hname.trans h⟩
  · obtain ⟨b,b',bs,henc,hhigh⟩ := encodeChar_high (c := c) (by omega)
    have hnot := isNameChar_of_high (c := c) (by omega)
    constructor
    · intro h
      exact absurd h (by simp [hnot])
    · intro _
      exact ⟨b,b' :: bs,henc,(isNameChar_high (hhigh b (by simp))).2⟩

theorem tests_ne {d : Char} (hd : d.toNat < 128) : Tests (· ≠ d.toUInt8) (· ≠ d) := by
  intro c
  by_cases hc : c.toNat < 128
  · rw [encodeChar_ascii hc]
    constructor
    · intro h b hb
      have hne : c ≠ d := by simpa using h
      rw [List.mem_singleton.mp hb]
      simpa using fun heq => hne ((ofNat_eq_iff hc hd).mp heq)
    · intro h
      have heq : c = d := by simpa using h
      exact ⟨_,[],rfl,by simpa using (ofNat_eq_iff hc hd).mpr heq⟩
  · obtain ⟨b,b',bs,henc,hhigh⟩ := encodeChar_high (c := c) (by omega)
    constructor
    · intro _ x hx
      rw [henc] at hx
      simpa using ne_of_high (hhigh x hx) hd
    · intro h
      have heq : c = d := by simpa using h
      exact absurd (heq ▸ hd) hc

/-- The bytes of a character beyond ASCII are passed over one by one. -/
theorem scanRest_high {s : ScanState} {bs : Bytes} (h : ∀ b ∈ bs, 128 ≤ b.toNat) (rest : Bytes) :
    scanRest costPerField coefficient s (bs ++ rest) = scanRest costPerField coefficient s rest := by
  induction bs with
  | nil => rfl
  | cons b bs ih =>
    have hb := h b List.mem_cons_self
    have hne : ∀ d : Char, d.toNat < 128 → b ≠ d.toUInt8 := fun d hd => ne_of_high hb hd
    have hbraces : ∀ d e : Char, d.toNat < 128 → e.toNat < 128 → ¬ (b = d.toUInt8 ∨ b = e.toUInt8) :=
      fun d e hd he hor => hor.elim (hne d hd) (hne e he)
    rw [List.cons_append,scanRest_cons,if_neg (hne '#' (by decide)),if_neg (hne '"' (by decide)),
      if_neg (hbraces '\x7b' '(' (by decide) (by decide)),if_neg (hbraces '\x7d' ')' (by decide) (by decide)),
      if_neg (fun hdots => hne '.' (by decide) hdots.1),if_neg (hne '@' (by decide)),if_neg (by simp [(isNameChar_high hb).1]),
      ih fun d hd => h d (List.mem_cons_of_mem b hd)]

private theorem map_name {t : List Char} (h : ∀ c ∈ t, Graphql.isNameChar c = true) :
    (encode t).map (fun b => Char.ofNat b.toNat) = t := by
  induction t with
  | nil => rfl
  | cons c t ih =>
    have hc : c.toNat < 128 := by
      by_contra hhigh
      have hnot := isNameChar_of_high (c := c) (by omega)
      exact absurd (h c List.mem_cons_self) (by simp [hnot])
    have hbyte : (UInt8.ofNat c.toNat).toNat = c.toNat := by simp [UInt8.toNat_ofNat']; omega
    rw [encode_cons,encodeChar_ascii hc,List.map_append,ih fun d hd => h d (List.mem_cons_of_mem c hd),List.map_singleton,hbyte,
      Char.ofNat_toNat]
    rfl

/-- Two bytes in front are two characters of ASCII in front. -/
theorem take_two {d : Char} (hd : d.toNat < 128) {cs : List Char} :
    (encode cs).take 2 = [d.toUInt8,d.toUInt8] ↔ cs.take 2 = [d,d] := by
  have hfirst : ∀ {cs : List Char} {rest : Bytes}, encode cs = d.toUInt8 :: rest → ∃ ds, cs = d :: ds ∧ rest = encode ds := by
    intro cs rest h
    cases cs with
    | nil => exact nomatch h
    | cons c cs =>
      rw [encode_cons] at h
      by_cases hc : c.toNat < 128
      · rw [encodeChar_ascii hc] at h
        obtain ⟨hb,hrest⟩ := List.cons.inj h
        exact ⟨cs,by rw [(ofNat_eq_iff hc hd).mp hb],hrest.symm⟩
      · obtain ⟨b,b',bs,henc,hhigh⟩ := encodeChar_high (c := c) (by omega)
        rw [henc] at h
        exact absurd (List.cons.inj h).1 (ne_of_high (hhigh b (by simp)) hd)
  constructor
  · intro h
    obtain ⟨rest,hrest⟩ : ∃ rest, encode cs = d.toUInt8 :: d.toUInt8 :: rest := ⟨(encode cs).drop 2,by
      rw [← List.take_append_drop 2 (encode cs),h]
      rfl⟩
    obtain ⟨ds,rfl,hds⟩ := hfirst hrest
    obtain ⟨es,rfl,-⟩ := hfirst hds.symm
    rfl
  · intro h
    obtain ⟨ds,rfl⟩ : ∃ ds, cs = d :: d :: ds := ⟨cs.drop 2,by
      rw [← List.take_append_drop 2 cs,h]
      rfl⟩
    rw [encode_cons,encode_cons,encodeChar_ascii hd]
    rfl

/-- The scanner reads characters as it reads bytes. -/
theorem scanText_cons (s : ScanState) (c : Char) (cs : List Char) :
    scanText costPerField coefficient s (c :: cs) =
      if c = '#' then scanText costPerField coefficient s (cs.dropWhile (· ≠ '\n'))
      else if c = '"' then scanRest costPerField coefficient s (skipQuoted (encode cs))
      else if c = '\x7b' ∨ c = '(' then
        if parseDepthCap < s.depth + 1 then (parseDepthCap + 1,s.complexity)
        else scanText costPerField coefficient { s with depth := s.depth + 1, maxDepth := max s.maxDepth (s.depth + 1) } cs
      else if c = '\x7d' ∨ c = ')' then scanText costPerField coefficient { s with depth := s.depth - 1 } cs
      else if c = '.' ∧ cs.take 2 = ['.','.'] then scanText costPerField coefficient s (cs.drop 2)
      else if c = '@' then scanText costPerField coefficient s (cs.dropWhile Graphql.isNameChar)
      else if Graphql.isNameStart c then
        scanText costPerField coefficient (s.name costPerField coefficient (String.ofList (c :: cs.takeWhile Graphql.isNameChar)))
          (cs.dropWhile Graphql.isNameChar)
      else scanText costPerField coefficient s cs := by
  by_cases hc : c.toNat < 128
  · have heq : ∀ d : Char, d.toNat < 128 → (UInt8.ofNat c.toNat = d.toUInt8 ↔ c = d) := fun d hd => ofNat_eq_iff hc hd
    have hstart : GraphqlCheck.isNameStart (UInt8.ofNat c.toNat) = Graphql.isNameStart c := by
      rw [(ascii_names c.toNat hc).1,Char.ofNat_toNat]
    have hbyte : Char.ofNat (UInt8.ofNat c.toNat).toNat = c := by
      rw [show (UInt8.ofNat c.toNat).toNat = c.toNat by simp [UInt8.toNat_ofNat']; omega,Char.ofNat_toNat]
    have hline := (span_encode (tests_ne (d := '\n') (by decide)) cs).2
    obtain ⟨htake,hdrop⟩ := span_encode tests_isNameChar cs
    have hname : (encode (cs.takeWhile Graphql.isNameChar)).map (fun b => Char.ofNat b.toNat) = cs.takeWhile Graphql.isNameChar :=
      map_name fun d hd => List.mem_takeWhile_imp hd
    have hdots : cs.take 2 = ['.','.'] → (encode cs).drop 2 = encode (cs.drop 2) := by
      intro h
      obtain ⟨ds,rfl⟩ : ∃ ds, cs = '.' :: '.' :: ds := ⟨cs.drop 2,by
        rw [← List.take_append_drop 2 cs,h]
        rfl⟩
      rfl
    rw [scanText,encode_cons,encodeChar_ascii hc,List.singleton_append,scanRest_cons,hline,htake,hdrop,List.map_cons,hname,hbyte,hstart]
    simp only [heq _ (show '#'.toNat < 128 by decide),heq _ (show '"'.toNat < 128 by decide),heq _ (show '\x7b'.toNat < 128 by decide),
      heq _ (show '('.toNat < 128 by decide),heq _ (show '\x7d'.toNat < 128 by decide),heq _ (show ')'.toNat < 128 by decide),
      heq _ (show '.'.toNat < 128 by decide),heq _ (show '@'.toNat < 128 by decide),take_two (show '.'.toNat < 128 by decide)]
    by_cases htwo : c = '.' ∧ cs.take 2 = ['.','.']
    · rw [hdots htwo.2]
      rfl
    · rw [if_neg htwo,if_neg htwo]
      rfl
  · obtain ⟨b,b',bs,henc,hhigh⟩ := encodeChar_high (c := c) (by omega)
    have hne : ∀ d : Char, d.toNat < 128 → c ≠ d := by
      rintro d hd rfl
      exact hc hd
    have hstart : ¬ Graphql.isNameStart c = true := by
      intro hstart
      have hnot := isNameChar_of_high (c := c) (by omega)
      exact absurd (isNameChar_of_isNameStart hstart) (by simp [hnot])
    rw [if_neg (hne '#' (by decide)),if_neg (hne '"' (by decide)),
      if_neg (not_or.mpr ⟨hne '\x7b' (by decide),hne '(' (by decide)⟩),if_neg (not_or.mpr ⟨hne '\x7d' (by decide),hne ')' (by decide)⟩),
      if_neg (fun h => hne '.' (by decide) h.1),if_neg (hne '@' (by decide)),if_neg hstart,scanText,encode_cons,henc,scanRest_high hhigh]
    rfl

/-- The characters the scanner stops at, names and dots aside. -/
def stops : List Char := ['#','"','\x7b','(','\x7d',')','@']

theorem scanText_other {s : ScanState} {c : Char} {cs : List Char} (hc : c ∉ stops) (hdots : ¬ (c = '.' ∧ cs.take 2 = ['.','.']))
    (hstart : Graphql.isNameStart c = false) : scanText costPerField coefficient s (c :: cs) = scanText costPerField coefficient s cs := by
  simp only [stops,List.mem_cons,List.not_mem_nil,or_false,not_or] at hc
  obtain ⟨hhash,hquote,hbrace,hparen,hbrace',hparen',hdir⟩ := hc
  rw [scanText_cons,if_neg hhash,if_neg hquote,if_neg (not_or.mpr ⟨hbrace,hparen⟩),if_neg (not_or.mpr ⟨hbrace',hparen'⟩),if_neg hdots,
    if_neg hdir,if_neg (by simp [hstart])]

theorem scanText_name {s : ScanState} {t r : List Char} (ht : isName t = true) (hr : r.head?.any Graphql.isNameChar = false) :
    scanText costPerField coefficient s (t ++ r) =
      scanText costPerField coefficient (s.name costPerField coefficient (String.ofList t)) r := by
  cases t with
  | nil => exact nomatch ht
  | cons c t =>
    obtain ⟨hc,hall⟩ : Graphql.isNameStart c = true ∧ t.all Graphql.isNameChar = true := by simpa [isName] using ht
    obtain ⟨htake,hdrop⟩ := takeWhile_append_head (List.all_eq_true.mp hall) hr
    have hne : ∀ d, Graphql.isNameStart d = false → c ≠ d := by
      rintro d hd rfl
      exact absurd hc (by simp [hd])
    rw [List.cons_append,scanText_cons,if_neg (hne '#' (by decide)),if_neg (hne '"' (by decide)),
      if_neg (not_or.mpr ⟨hne '\x7b' (by decide),hne '(' (by decide)⟩),if_neg (not_or.mpr ⟨hne '\x7d' (by decide),hne ')' (by decide)⟩),
      if_neg (fun h => hne '.' (by decide) h.1),if_neg (hne '@' (by decide)),if_pos hc,htake,hdrop]

end Chars

section Literals

private theorem skipString_other {bs : Bytes} (h : ∀ b ∈ bs, b ≠ '"'.toUInt8 ∧ b ≠ '\\'.toUInt8) (rest : Bytes) :
    skipString (bs ++ rest) = skipString rest := by
  induction bs with
  | nil => rfl
  | cons b bs ih =>
    obtain ⟨hquote,hslash⟩ := h b List.mem_cons_self
    have hbs := ih fun d hd => h d (List.mem_cons_of_mem b hd)
    cases htail : bs ++ rest with
    | nil =>
      obtain ⟨rfl,rfl⟩ := List.append_eq_nil_iff.mp htail
      rfl
    | cons d ds =>
      rw [List.cons_append,htail,skipString,if_neg hslash,if_neg hquote,← htail,hbs]

private theorem skipString_quote (rest : Bytes) : skipString ('"'.toUInt8 :: rest) = rest := by
  cases rest with
  | nil => rfl
  | cons b rest => rw [skipString,if_neg (by decide),if_pos rfl]

/-- The bytes of a character that is not one of ASCII are none of them. -/
private theorem ne_of_ne {c d : Char} (hd : d.toNat < 128) (h : c ≠ d) : ∀ b ∈ String.utf8EncodeChar c, b ≠ d.toUInt8 := by
  have hb := (tests_ne hd c).1 (by simpa using h)
  intro b hmem
  simpa using hb b hmem

/-- The scanner skips a string to where it ends. -/
theorem skipString_of_lexString {st : StringState} {cs raw r : List Char} (h : lexString st cs = some (raw,r)) :
    skipString (if st = .escaped then '\\'.toUInt8 :: encode cs else encode cs) = encode r := by
  induction cs generalizing st raw with
  | nil => exact nomatch h
  | cons c cs ih =>
    rw [lexString] at h
    split at h
    · rename_i hclose
      obtain ⟨rfl,rfl⟩ := hclose
      obtain ⟨rfl,rfl⟩ := Prod.mk.inj (Option.some.inj h)
      rw [if_neg (by decide)]
      exact skipString_quote _
    · rename_i hopen
      obtain ⟨st',hst',h⟩ := Option.bind_eq_some_iff.mp h
      obtain ⟨x,hx,heq⟩ := Option.map_eq_some_iff.mp h
      obtain ⟨rfl,rfl⟩ := Prod.mk.inj heq
      have hrest := ih hx
      have hplain : c ≠ '"' → c ≠ '\\' → skipString (encode (c :: cs)) = skipString (encode cs) := by
        intro hquote hslash
        rw [encode_cons]
        exact skipString_other (fun b hb => ⟨ne_of_ne (by decide) hquote b hb,ne_of_ne (by decide) hslash b hb⟩) _
      have hhex : isHex c = true → c ≠ '"' ∧ c ≠ '\\' := by
        intro hc
        constructor
        · rintro rfl
          exact absurd hc (by decide)
        · rintro rfl
          exact absurd hc (by decide)
      cases st with
      | plain =>
        rw [if_neg (by decide)]
        have hquote : c ≠ '"' := fun hc => hopen ⟨rfl,hc⟩
        rw [StringState.step] at hst'
        split_ifs at hst' with hslash hline
        · obtain rfl := Option.some.inj hst'
          rw [if_pos rfl] at hrest
          rw [hslash]
          exact hrest
        · obtain rfl := Option.some.inj hst'
          rw [if_neg (by decide)] at hrest
          exact (hplain hquote hslash).trans hrest
      | escaped =>
        rw [if_pos rfl]
        have hascii : c.toNat < 128 ∧ st' ≠ .escaped := by
          rw [StringState.step] at hst'
          split_ifs at hst' with hu hsimple
          · obtain rfl := Option.some.inj hst'
            exact ⟨by rw [hu]; decide,by decide⟩
          · obtain rfl := Option.some.inj hst'
            refine ⟨?_,by decide⟩
            have hall : ∀ d ∈ ['"','\\','/','b','f','n','r','t'], d.toNat < 128 := List.all_iff_forall_prop.mp (by decide)
            exact hall c (by simpa [isSimpleEscape] using hsimple)
        rw [if_neg hascii.2] at hrest
        rw [encode_cons,encodeChar_ascii hascii.1,List.singleton_append,skipString,if_pos rfl,hrest]
      | unicode left =>
        have hc : isHex c = true ∧ st' ≠ .escaped := by
          cases left with
          | zero =>
            rw [StringState.step] at hst'
            split_ifs at hst' with hc
            obtain rfl := Option.some.inj hst'
            exact ⟨hc,by decide⟩
          | succ left =>
            rw [StringState.step] at hst'
            split_ifs at hst' with hc
            obtain rfl := Option.some.inj hst'
            exact ⟨hc,by simp⟩
        rw [if_neg hc.2] at hrest
        rw [if_neg (by simp)]
        exact (hplain (hhex hc.1).1 (hhex hc.1).2).trans hrest

private theorem skipBlock_cons {b : UInt8} {rest : Bytes} (hlen : 2 ≤ rest.length)
    (h : ¬ (b = '"'.toUInt8 ∧ rest.take 2 = ['"'.toUInt8,'"'.toUInt8])) : skipBlock (b :: rest) = skipBlock rest := by
  match rest, hlen with
  | c :: d :: rest, _ =>
    rw [skipBlock,if_neg]
    rintro ⟨hb,hc,hd⟩
    exact h ⟨hb,by rw [hc,hd]; rfl⟩

private theorem skipBlock_other {bs rest : Bytes} (hlen : 2 ≤ rest.length) (h : ∀ b ∈ bs, b ≠ '"'.toUInt8) :
    skipBlock (bs ++ rest) = skipBlock rest := by
  induction bs with
  | nil => rfl
  | cons b bs ih =>
    rw [List.cons_append,skipBlock_cons (by rw [List.length_append]; omega) fun hb => h b List.mem_cons_self hb.1,
      ih fun d hd => h d (List.mem_cons_of_mem b hd)]

/-- The scanner skips a block string without escapes to where it ends. -/
theorem skipBlock_of_lexBlockString {cs raw r : List Char} (h : lexBlockString 0 cs = some (raw,r))
    (hplain : ¬ ['\\','"','"','"'] <:+: raw) : skipBlock (encode cs) = encode r := by
  induction cs generalizing raw with
  | nil => exact nomatch h
  | cons c cs ih =>
    rw [lexBlockString] at h
    split at h
    · rename_i hclose
      obtain ⟨rfl,rfl⟩ := Prod.mk.inj (Option.some.inj h)
      obtain ⟨t,ht⟩ := List.isPrefixOf_iff_prefix.mp hclose
      rw [← ht]
      obtain ⟨-,rfl⟩ := List.cons.inj ht
      rfl
    · rename_i hopen
      obtain ⟨x,hx,heq⟩ := Option.map_eq_some_iff.mp h
      obtain ⟨rfl,rfl⟩ := Prod.mk.inj heq
      have hescape : ¬ ['\\','"','"','"'].isPrefixOf (c :: cs) = true := by
        intro hstarts
        obtain ⟨t,ht⟩ := List.isPrefixOf_iff_prefix.mp hstarts
        obtain ⟨rfl,rfl⟩ := List.cons.inj ht
        rw [if_pos hstarts] at hx
        -- what is escaped is kept
        obtain ⟨x₁,h₁,rfl⟩ := Option.map_eq_some_iff.mp hx
        obtain ⟨x₂,h₂,rfl⟩ := Option.map_eq_some_iff.mp h₁
        obtain ⟨x₃,h₃,rfl⟩ := Option.map_eq_some_iff.mp h₂
        exact hplain (List.prefix_append ['\\','"','"','"'] x₃.1).isInfix
      rw [if_neg hescape] at hx
      have hrest := ih hx fun hpart => hplain (hpart.trans (List.suffix_cons _ _).isInfix)
      have hlen : 2 ≤ (encode cs).length := by
        rw [(lexBlockString_eq hx).1,encode_append,encode_append,List.length_append,List.length_append]
        have hthree : (encode ['"','"','"']).length = 3 := rfl
        omega
      rw [encode_cons]
      by_cases hc : c = '"'
      · subst hc
        refine (skipBlock_cons hlen ?_).trans hrest
        rintro ⟨-,htwo⟩
        obtain ⟨ds,rfl⟩ : ∃ ds, cs = '"' :: '"' :: ds := ⟨cs.drop 2,by
          have h2 := (take_two (by decide)).mp htwo
          rw [← List.take_append_drop 2 cs,h2]
          rfl⟩
        exact hopen rfl
      · exact (skipBlock_other hlen (ne_of_ne (by decide) hc)).trans hrest

end Literals

end Dwara.Dataplane.GraphqlCheck
