import Dwara.Dataplane.SoapDocuments

/-! When the envelope parser comes back: the loop over the children of an element has no way out
where the text ends. -/

namespace Dwara.Dataplane.SoapEnvelope
open Dwara.Lib Dwara.Lib.Text Dwara.Lib.TextCursor Dwara.Lib.Utf8
open TranslationGraphql (TranslationError)

section Runs
variable {n : ℕ} {r : List Char}

private theorem ended_advance_one {c : Char} (hc : utf8Len [c] = 1) (b r : List Char) :
    ((TextCursor.advance 1 : XmlParser Unit) ⟨b,c :: r⟩).ended = .returned () ⟨b ++ [c],r⟩ := by
  rw [← hc]
  exact ended_advance b [c] r

private theorem ended_skipWhitespace {s : List Char} (hs : IsBlank s) (hr : ∀ c ∈ r.head?, isWhitespace c = false) (hn : s.length < n)
    (b : List Char) : (skipWhitespace n ⟨b,s ++ r⟩).ended = .returned () ⟨b ++ s,r⟩ :=
  ended_skipWhile hs hr hn b

private theorem ended_parseName {name : List Char} (hname : IsName name) (hr : ∀ c ∈ r.head?, isNameChar c = false) (hn : name.length < n)
    (b : List Char) : (parseName n ⟨b,name ++ r⟩).ended = .returned name ⟨b ++ name,r⟩ := by
  rw [parseName,cursor_bind,ended_bind (ended_skipWhile hname.2 hr hn b),cursor_bind]
  have hpos := utf8Len_pos hname.1
  rw [if_neg]
  · rw [between,List.drop_left]
    rfl
  · simp only [Cursor.pos,utf8Len_append]
    omega

private theorem toNat_nameChar {c : Char} (h : isNameChar c) : 45 ≤ c.toNat ∧ c.toNat ≤ 122 := by
  have hranges : c.isAlpha = (decide (c.val ≥ 'A'.val ∧ c.val ≤ 'Z'.val) || (c.val ≥ 'a'.val && c.val ≤ 'z'.val)) := rfl
  simp only [isNameChar,Char.isAlphanum,hranges,Char.isDigit,Bool.or_eq_true,Bool.and_eq_true,
    decide_eq_true_eq,ge_iff_le,UInt32.le_iff_toNat_le] at h
  have hval : c.val.toNat = c.toNat := rfl
  rcases h with ((((((⟨h1,h2⟩ | ⟨h1,h2⟩) | ⟨h1,h2⟩) | rfl) | rfl) | rfl) | rfl)
  · simp at h1 h2; omega
  · simp at h1 h2; omega
  · simp at h1 h2; omega
  all_goals decide

private theorem isWhitespace_nameChar {c : Char} (h : isNameChar c) : isWhitespace c = false := by
  obtain ⟨hlow,hhigh⟩ := toNat_nameChar h
  simp [isWhitespace]
  omega

/-- Behind a name stands white space, or what stops it. -/
private theorem head_blank {s : List Char} (hs : IsBlank s) (hr : ∀ c ∈ r.head?, isNameChar c = false) :
    ∀ c ∈ (s ++ r).head?, isNameChar c = false := by
  cases s with
  | nil => exact hr
  | cons d s =>
    intro c hc
    obtain rfl := Option.some.inj hc
    have hd := hs d List.mem_cons_self
    by_contra hname
    rw [isWhitespace_nameChar (by simpa using hname)] at hd
    cases hd

private theorem ended_parseAttribute {a : List Char} (ha : IsAttribute a) (hn : a.length < n) (b r : List Char) :
    ∃ attr, (parseAttribute n ⟨b,a ++ r⟩).ended = .returned attr ⟨b ++ a,r⟩ := by
  obtain ⟨name,s,t,quote,value,hname,hs,ht,hquote,hvalue,rfl⟩ := ha
  simp only [List.length_append,List.length_cons,List.length_nil] at hn
  have hlen : utf8Len [quote] = 1 := by rcases hquote with rfl | rfl <;> rfl
  have hblank : isWhitespace quote = false := by rcases hquote with rfl | rfl <;> decide
  have hbad : ¬ (quote ≠ '"' ∧ quote ≠ '\'') := fun h => hquote.elim h.1 h.2
  have hkeep : ∀ c ∈ value, decide (c ≠ quote) = true := fun c hc => decide_eq_true fun he => hvalue (he ▸ hc)
  refine ⟨(name,decodeEntities value),?_⟩
  simp only [List.append_assoc,List.cons_append,List.nil_append]
  rw [parseAttribute,
    ended_bind (ended_parseName hname (head_blank hs fun c hc => by obtain rfl := Option.some.inj hc; decide) (by omega) b),
    ended_bind (ended_skipWhitespace hs (fun c hc => by obtain rfl := Option.some.inj hc; decide) (by omega) _),peek_bind,
    if_neg (by simp),ended_bind (ended_advance_one rfl _ _),
    ended_bind (ended_skipWhitespace ht (fun c hc => by obtain rfl := Option.some.inj hc; exact hblank) (by omega) _),peek_bind]
  simp only [List.head?_cons,if_neg hbad]
  rw [ended_bind (ended_advance_one hlen _ _),cursor_bind,
    ended_bind (ended_skipWhile hkeep (fun c hc => by obtain rfl := Option.some.inj hc; simp) (by omega) _),cursor_bind,peek_bind]
  simp only [List.head?_cons]
  rw [ended_bind (ended_advance_one hlen _ _),between,List.drop_left]
  simp only [List.append_assoc,List.cons_append,List.nil_append]
  rfl

private theorem ended_skipPast {start pattern w : List Char} (hne : pattern ≠ []) (h : IsSection start pattern w) (message : String)
    (b r : List Char) : (skipPast pattern message ⟨b,w ++ r⟩).ended = .returned () ⟨b ++ w,r⟩ := by
  obtain ⟨-,before,hsplit⟩ := h
  have hw := eq_of_splitOnceAt hsplit
  rw [List.append_nil] at hw
  rw [skipPast,remaining_bind,find,splitOnceAt_extend hsplit hne]
  simp only [Option.map_some]
  rw [← utf8Len_append,← hw]
  exact ended_advance b w r

private theorem ended_cdataSection {w : List Char} (h : IsSection "<![CDATA[".toList "]]>".toList w) (b r : List Char) :
    ∃ cdata, (cdataSection ⟨b,w ++ r⟩).ended = .returned cdata ⟨b ++ w,r⟩ := by
  obtain ⟨hstart,before,hsplit⟩ := h
  have hw := eq_of_splitOnceAt hsplit
  rw [List.append_nil] at hw
  obtain ⟨-,v,rfl⟩ := isSection_of (u := "<![CDATA[".toList) (v := []) (by decide) (Nat.zero_le _) hstart hsplit
  have hslice : slice 9 (utf8Len ("<![CDATA[".toList ++ v)) (w ++ r) = some v := by
    rw [hw,List.append_assoc,List.append_assoc]
    exact slice_append "<![CDATA[".toList v _
  have hlen : utf8Len ("<![CDATA[".toList ++ v) + 3 = utf8Len w := by
    rw [hw]
    exact (utf8Len_append _ "]]>".toList).symm
  refine ⟨v,?_⟩
  rw [cdataSection,remaining_bind,find,splitOnceAt_extend hsplit (by decide)]
  simp only [Option.map_some,hslice]
  rw [hlen,ended_bind (ended_advance b w r)]
  rfl

/-- What begins with a tag begins with nothing else. -/
private theorem isTag_cons {name stop w : List Char} (h : IsTag name stop w) :
    ∃ c rest, isNameChar c ∧ w = '<' :: c :: rest := by
  obtain ⟨attrs,⟨hne,hname⟩,-,-,rfl⟩ := h
  obtain ⟨c,name,rfl⟩ := List.exists_cons_of_ne_nil hne
  exact ⟨c,_,hname c List.mem_cons_self,rfl⟩

private theorem not_isPrefixOf_tag {c d : Char} {ds rest : List Char} (hc : isNameChar c) (hd : isNameChar d = false) :
    ('<' :: d :: ds).isPrefixOf ('<' :: c :: rest) = false := by
  have hne : d ≠ c := by
    rintro rfl
    rw [hc] at hd
    cases hd
  simp [List.isPrefixOf,hne]

private theorem ended_prologLap {s v : List Char} (hs : IsBlank s) (hv : IsSection "<?".toList "?>".toList v ∨ IsComment v)
    (hn : s.length < n) (b r : List Char) :
    (prologLap n ⟨b,s ++ (v ++ r)⟩).ended = .returned (.inl ()) ⟨b ++ s ++ v,r⟩ := by
  rcases hv with hv | hv
  · obtain ⟨v',hv'⟩ := hv.1
    have hhead : ∀ d ∈ (v ++ r).head?, isWhitespace d = false := by
      rw [← hv']
      intro d hd
      obtain rfl := Option.some.inj hd
      decide
    have hstart : "<?".toList.isPrefixOf (v ++ r) = true := List.isPrefixOf_iff_prefix.mpr (hv.1.trans (List.prefix_append v r))
    rw [prologLap,ended_bind (ended_skipWhitespace hs hhead hn b),remaining_bind]
    simp only [hstart,if_true]
    rw [ended_bind (ended_skipPast (by decide) hv _ _ r)]
    rfl
  · obtain ⟨v',hv'⟩ := hv.1
    have hhead : ∀ d ∈ (v ++ r).head?, isWhitespace d = false := by
      rw [← hv']
      intro d hd
      obtain rfl := Option.some.inj hd
      decide
    have hnot : "<?".toList.isPrefixOf (v ++ r) = false := by
      rw [← hv']
      rfl
    have hstart : "<!--".toList.isPrefixOf (v ++ r) = true := List.isPrefixOf_iff_prefix.mpr (hv.1.trans (List.prefix_append v r))
    rw [prologLap,ended_bind (ended_skipWhitespace hs hhead hn b),remaining_bind]
    simp only [hnot,hstart,if_true,Bool.false_eq_true,if_false]
    rw [ended_bind (ended_skipPast (by decide) hv _ _ r)]
    rfl

private theorem ended_skipProlog {w : List Char} (hw : Prolog w) {c : Char} {u : List Char} (hc : isNameChar c) (hn : w.length < n)
    (b : List Char) : (skipProlog n ⟨b,w ++ '<' :: c :: u⟩).ended = .returned () ⟨b ++ w,'<' :: c :: u⟩ := by
  have hloop : ∀ m, w.length < m → ∀ b, (loop (fun _ => prologLap n) m () ⟨b,w ++ '<' :: c :: u⟩).ended =
      .returned () ⟨b ++ w,'<' :: c :: u⟩ := by
    induction hw with
    | blank hs =>
      intro m hm b
      obtain ⟨m,rfl⟩ := Nat.exists_eq_add_one.mpr (Nat.zero_lt_of_lt hm)
      refine ended_leave ?_
      rw [prologLap,ended_bind (ended_skipWhitespace hs (fun d hd => by obtain rfl := Option.some.inj hd; decide) hn b),remaining_bind]
      have hnot : ∀ (d : Char) (ds : List Char), isNameChar d = false → ('<' :: d :: ds).isPrefixOf ('<' :: c :: u) = false :=
        fun d ds hd => not_isPrefixOf_tag hc hd
      simp only [show "<?".toList = '<' :: '?' :: [] from rfl,show "<!--".toList = '<' :: '!' :: ['-','-'] from rfl,
        show "<!".toList = '<' :: '!' :: [] from rfl,hnot '?' [] rfl,hnot '!' ['-','-'] rfl,hnot '!' [] rfl]
      rfl
    | more hs hv hp ih =>
      rename_i s v p
      intro m hm b
      simp only [List.length_append] at hn hm
      have hpos := List.length_pos_iff.mpr (hv.elim (ne_nil_of_section (by decide)) (ne_nil_of_section (by decide)))
      obtain ⟨m,rfl⟩ := Nat.exists_eq_add_one.mpr (Nat.zero_lt_of_lt hm)
      have hrest := ih (by omega) m (by omega) (b ++ s ++ v)
      rw [List.append_assoc,List.append_assoc,ended_lap (ended_prologLap hs hv (by omega) b _),hrest]
      simp only [List.append_assoc]
  exact hloop n hn b

/-- An attribute begins with a name, so it is no end of a tag. -/
private theorem isAttribute_cons {a : List Char} (h : IsAttribute a) : ∃ c rest, isNameChar c ∧ a = c :: rest := by
  obtain ⟨name,s,t,quote,value,⟨hne,hname⟩,-,-,-,-,rfl⟩ := h
  obtain ⟨c,name,rfl⟩ := List.exists_cons_of_ne_nil hne
  exact ⟨c,_,hname c List.mem_cons_self,rfl⟩

private theorem ended_attributeLap {s a : List Char} (hs : IsBlank s) (ha : IsAttribute a) (hn : (s ++ a).length < n) (b r : List Char)
    (attributes : List (List Char × List Char)) :
    ∃ attr, (attributeLap n attributes ⟨b,s ++ (a ++ r)⟩).ended = .returned (.inl (attributes ++ [attr])) ⟨b ++ s ++ a,r⟩ := by
  rw [List.length_append] at hn
  obtain ⟨attr,hattr⟩ := ended_parseAttribute ha (n := n) (by omega) (b ++ s) r
  obtain ⟨c,rest,hc,hcons⟩ := isAttribute_cons ha
  have hhead : (a ++ r).head? = some c := by rw [hcons]; rfl
  have hslash : c ≠ '/' := by
    rintro rfl
    cases hc
  have hclose : c ≠ '>' := by
    rintro rfl
    cases hc
  refine ⟨attr,?_⟩
  have hspace : ∀ d ∈ (a ++ r).head?, isWhitespace d = false := by
    intro d hd
    rw [hhead] at hd
    obtain rfl := Option.some.inj hd
    exact isWhitespace_nameChar hc
  rw [attributeLap,ended_bind (ended_skipWhitespace hs hspace (by omega) b),peek_bind]
  simp only [hhead,if_neg hslash,if_neg hclose]
  rw [ended_bind hattr]
  rfl

private theorem ended_attributes {a : List Char} (ha : Attributes a) (empty : Bool) (hn : a.length < n) (b r : List Char) :
    ∃ attributes, (loop (attributeLap n) n [] ⟨b,a ++ ((if empty then "/>".toList else ">".toList) ++ r)⟩).ended =
      .returned (attributes,empty) ⟨b ++ a ++ (if empty then "/>".toList else ">".toList),r⟩ := by
  have hloop : ∀ m, a.length < m → ∀ b (attributes : List (List Char × List Char)), ∃ all,
      (loop (attributeLap n) m attributes ⟨b,a ++ ((if empty then "/>".toList else ">".toList) ++ r)⟩).ended =
        .returned (all,empty) ⟨b ++ a ++ (if empty then "/>".toList else ">".toList),r⟩ := by
    induction ha with
    | blank hs =>
      rename_i s
      intro m hm b attributes
      obtain ⟨m,rfl⟩ := Nat.exists_eq_add_one.mpr (Nat.zero_lt_of_lt hm)
      refine ⟨attributes,ended_leave ?_⟩
      cases empty with
      | true =>
        simp only [if_true]
        rw [attributeLap,ended_bind (ended_skipWhitespace (r := "/>".toList ++ r) hs (fun d hd => by obtain rfl := Option.some.inj hd; decide) hn b),
          peek_bind]
        show ((TextCursor.advance 1 >>= fun _ => _ : XmlParser _) ⟨b ++ s,'/' :: '>' :: r⟩).ended = _
        rw [ended_bind (ended_advance_one rfl (b ++ s) ('>' :: r)),peek_bind,if_neg (by simp),ended_bind (ended_advance_one rfl _ r)]
        simp
        rfl
      | false =>
        simp only [Bool.false_eq_true,if_false]
        rw [attributeLap,ended_bind (ended_skipWhitespace (r := ">".toList ++ r) hs (fun d hd => by obtain rfl := Option.some.inj hd; decide) hn b),
          peek_bind]
        show ((TextCursor.advance 1 >>= fun _ => _ : XmlParser _) ⟨b ++ s,'>' :: r⟩).ended = _
        rw [ended_bind (ended_advance_one rfl (b ++ s) r)]
        rfl
    | more hs hat hw ih =>
      rename_i s t w
      intro m hm b attributes
      simp only [List.length_append] at hn hm
      have hpos := List.length_pos_iff.mpr (ne_nil_of_attribute hat)
      obtain ⟨m,rfl⟩ := Nat.exists_eq_add_one.mpr (Nat.zero_lt_of_lt hm)
      obtain ⟨attr,hattr⟩ := ended_attributeLap hs hat (n := n) (by rw [List.length_append]; omega) b
        (w ++ ((if empty then "/>".toList else ">".toList) ++ r)) attributes
      obtain ⟨all,hall⟩ := ih (by omega) m (by omega) (b ++ s ++ t) (attributes ++ [attr])
      refine ⟨all,?_⟩
      rw [List.append_assoc,List.append_assoc,ended_lap hattr,hall]
      simp only [List.append_assoc]
  exact hloop n hn b []

private theorem ended_parseElement {d : ℕ} (hd : d ≤ parseDepthCap) (empty : Bool) {name w : List Char}
    (h : IsTag name (if empty then "/>".toList else ">".toList) w) (hn : w.length < n) (b r : List Char) :
    ∃ attributes, (parseElement n d ⟨b,w ++ r⟩).ended =
      ((if empty then pure (.mk name attributes [])
        else do
          let children ← loop (childLap n name (parseElement n (d + 1))) n []
          pure (.mk name attributes children) : XmlParser XmlElement) ⟨b ++ w,r⟩).ended := by
  obtain ⟨attrs,hname,hattrs,hnext,rfl⟩ := h
  simp only [List.length_cons,List.length_append] at hn
  obtain ⟨attributes,hall⟩ := ended_attributes hattrs empty (n := n) (by omega) (b ++ ['<'] ++ name) r
  refine ⟨attributes,?_⟩
  have hstop : ∀ c ∈ (attrs ++ ((if empty then "/>".toList else ">".toList) ++ r)).head?, isNameChar c = false := by
    cases attrs with
    | nil =>
      intro c hc
      cases empty with
      | true =>
        obtain rfl := Option.some.inj hc
        rfl
      | false =>
        obtain rfl := Option.some.inj hc
        rfl
    | cons a attrs => exact hnext
  have hnone : (skipWhitespace n ⟨b,'<' :: (name ++ (attrs ++ ((if empty then "/>".toList else ">".toList) ++ r)))⟩).ended =
      .returned () ⟨b,'<' :: (name ++ (attrs ++ ((if empty then "/>".toList else ">".toList) ++ r)))⟩ := by
    have hskip := ended_skipWhitespace (n := n) (r := '<' :: (name ++ (attrs ++ ((if empty then "/>".toList else ">".toList) ++ r))))
      isBlank_nil (fun c hc => by obtain rfl := Option.some.inj hc; decide) (by rw [List.length_nil]; omega) b
    rwa [List.append_nil] at hskip
  rw [parseElement,dif_neg (by omega)]
  simp only [List.cons_append,List.append_assoc]
  rw [ended_bind hnone,peek_bind,if_neg (by simp),ended_bind (ended_advance_one rfl b _),
    ended_bind (ended_parseName hname hstop (by omega) _),ended_bind hall]
  simp only [List.append_assoc,List.cons_append,List.nil_append]

section Laps
variable {name : List Char} {element : XmlParser XmlElement} {children : List XmlChild}

private theorem childLap_tag {c : Char} {rest u : List Char} (hc : isNameChar c) (hu : u = '<' :: c :: rest) (b : List Char) :
    childLap n name element children ⟨b,u⟩ =
      (do let el ← element; pure (.inl (children ++ [.element el])) : XmlParser _) ⟨b,u⟩ := by
  subst hu
  rw [childLap,remaining_bind]
  simp only [show "</".toList = '<' :: '/' :: [] from rfl,show "<!--".toList = '<' :: '!' :: ['-','-'] from rfl,
    show "<![CDATA[".toList = '<' :: '!' :: "[CDATA[".toList from rfl,not_isPrefixOf_tag (d := '/') hc rfl,
    not_isPrefixOf_tag (d := '!') hc rfl,Bool.false_eq_true,if_false,List.head?_cons,if_true]

private theorem ended_childLap_end {e : List Char} (h : IsEndTag name e) (hn : e.length < n) (b r : List Char) :
    (childLap n name element children ⟨b,e ++ r⟩).ended = .returned (.inr children) ⟨b ++ e,r⟩ := by
  obtain ⟨closeName,s,hclose,hlocal,hs,rfl⟩ := h
  simp only [List.length_cons,List.length_append] at hn
  have hstart : "</".toList.isPrefixOf ('<' :: '/' :: (closeName ++ (s ++ '>' :: r))) = true := rfl
  have hadvance : ((TextCursor.advance 2 : XmlParser Unit) ⟨b,'<' :: '/' :: (closeName ++ (s ++ '>' :: r))⟩).ended =
      .returned () ⟨b ++ ['<','/'],closeName ++ (s ++ '>' :: r)⟩ :=
    ended_advance b ['<','/'] (closeName ++ (s ++ '>' :: r))
  have hclosing : (closingTag n name ⟨b ++ ['<','/'],closeName ++ (s ++ '>' :: r)⟩).ended =
      .returned () ⟨b ++ ['<','/'] ++ closeName ++ s ++ ['>'],r⟩ := by
    rw [closingTag,ended_bind (ended_parseName hclose (head_blank hs fun c hc => by obtain rfl := Option.some.inj hc; decide) (by omega) _),
      if_neg (not_not.mpr hlocal),
      ended_bind (ended_skipWhitespace hs (fun c hc => by obtain rfl := Option.some.inj hc; decide) (by omega) _),peek_bind,if_neg (by simp)]
    exact ended_advance_one rfl _ r
  rw [childLap,remaining_bind]
  simp only [List.cons_append,List.append_assoc,List.nil_append,hstart,if_true]
  rw [ended_bind hadvance,ended_bind hclosing]
  simp only [List.append_assoc,List.cons_append,List.nil_append]
  rfl

private theorem ended_childLap_comment {w : List Char} (h : IsComment w) (b r : List Char) :
    (childLap n name element children ⟨b,w ++ r⟩).ended = .returned (.inl children) ⟨b ++ w,r⟩ := by
  obtain ⟨w',hw'⟩ := h.1
  have hnot : "</".toList.isPrefixOf (w ++ r) = false := by
    rw [← hw']
    rfl
  have hstart : "<!--".toList.isPrefixOf (w ++ r) = true := List.isPrefixOf_iff_prefix.mpr (h.1.trans (List.prefix_append w r))
  rw [childLap,remaining_bind]
  simp only [hnot,hstart,if_true,Bool.false_eq_true,if_false]
  rw [ended_bind (ended_skipPast (by decide) h _ _ r)]
  rfl

private theorem ended_childLap_cdata {w : List Char} (h : IsSection "<![CDATA[".toList "]]>".toList w) (b r : List Char) :
    ∃ all, (childLap n name element children ⟨b,w ++ r⟩).ended = .returned (.inl all) ⟨b ++ w,r⟩ := by
  obtain ⟨w',hw'⟩ := h.1
  obtain ⟨cdata,hcdata⟩ := ended_cdataSection h b r
  have hnot : "</".toList.isPrefixOf (w ++ r) = false ∧ "<!--".toList.isPrefixOf (w ++ r) = false := by
    rw [← hw']
    exact ⟨rfl,rfl⟩
  have hstart : "<![CDATA[".toList.isPrefixOf (w ++ r) = true := List.isPrefixOf_iff_prefix.mpr (h.1.trans (List.prefix_append w r))
  refine ⟨children ++ [.text cdata],?_⟩
  rw [childLap,remaining_bind]
  simp only [hnot.1,hnot.2,hstart,if_true,Bool.false_eq_true,if_false]
  rw [ended_bind hcdata]
  rfl

private theorem ended_childLap_text {t : List Char} (hne : t ≠ []) (ht : '<' ∉ t) (hr : AtTag r) (b : List Char) :
    (childLap n name element children ⟨b,t ++ r⟩).ended = .returned (.inl (children ++ [.text (decodeEntities t)])) ⟨b ++ t,r⟩ := by
  have hkeep : ∀ c ∈ t, decide (c ≠ '<') = true := fun c hc => decide_eq_true fun he => ht (he ▸ hc)
  have htake : (t ++ r).takeWhile (· ≠ '<') = t := by
    rw [List.takeWhile_append_of_pos hkeep]
    cases r with
    | nil => simp
    | cons c r =>
      obtain rfl := hr c rfl
      simp
  obtain ⟨c,rest,rfl⟩ := List.exists_cons_of_ne_nil hne
  have hc : '<' ≠ c := fun he => ht (he ▸ List.mem_cons_self)
  have hnot : ∀ ds, ('<' :: ds).isPrefixOf (c :: rest ++ r) = false := fun ds => by simp [List.isPrefixOf,hc]
  have hhead : ¬ (c :: rest ++ r).head? = some '<' := fun he => hc (Option.some.inj he).symm
  rw [childLap,remaining_bind]
  simp only [show "</".toList = '<' :: ['/'] from rfl,show "<!--".toList = '<' :: "!--".toList from rfl,
    show "<![CDATA[".toList = '<' :: "![CDATA[".toList from rfl,hnot,Bool.false_eq_true,if_false,if_neg hhead,htake,if_neg hne]
  rw [ended_bind (ended_advance b (c :: rest) r)]
  rfl

/-- Where the text ends, a lap takes nothing and the loop goes round again. -/
private theorem ended_childLap_nil (b : List Char) :
    (childLap n name element children ⟨b,[]⟩).ended = .returned (.inl children) ⟨b,[]⟩ := rfl

end Laps

/-- An element is read when its children are. -/
private theorem ended_closed {d : ℕ} {name w inner e : List Char} (hd : d ≤ parseDepthCap) (htag : IsTag name ">".toList w)
    (hend : IsEndTag name e) (hn : w.length + (inner.length + e.length) < n) (b r : List Char)
    (hinner : AtTag (e ++ r) → ∃ k all, n ≤ k + inner.length ∧
      (loop (childLap n name (parseElement n (d + 1))) n [] ⟨b ++ w,inner ++ (e ++ r)⟩).ended =
        (loop (childLap n name (parseElement n (d + 1))) k all ⟨b ++ w ++ inner,e ++ r⟩).ended) :
    ∃ el, (parseElement n d ⟨b,w ++ (inner ++ (e ++ r))⟩).ended = .returned el ⟨b ++ w ++ inner ++ e,r⟩ := by
  obtain ⟨attributes,hel⟩ := ended_parseElement hd false htag (n := n) (by omega) b (inner ++ (e ++ r))
  have hat : AtTag (e ++ r) := by
    obtain ⟨_,_,-,-,-,rfl⟩ := hend
    intro y hy
    exact (Option.some.inj hy).symm
  obtain ⟨k,all,hk,hloop⟩ := hinner hat
  obtain ⟨k,rfl⟩ := Nat.exists_eq_add_one.mpr (show 0 < k by omega)
  refine ⟨.mk name attributes all,hel.trans ?_⟩
  simp only [Bool.false_eq_true,if_false]
  exact ended_bind (hloop.trans (ended_leave (ended_childLap_end hend (by omega) (b ++ w ++ inner) r)))

/-- The loop over the children goes round until it is behind them. -/
private theorem ended_content {d : ℕ} {c : List Char} (hc : Content d c) (hn : c.length < n) (name : List Char) (m : ℕ) (hm : c.length < m)
    (children : List XmlChild) (b : List Char) {r : List Char} (hr : AtTag r) :
    ∃ m' all, m ≤ m' + c.length ∧ (loop (childLap n name (parseElement n d)) m children ⟨b,c ++ r⟩).ended =
      (loop (childLap n name (parseElement n d)) m' all ⟨b ++ c,r⟩).ended := by
  induction hc generalizing name m children b r with
  | nil => exact ⟨m,children,le_refl m,by rw [List.append_nil]; rfl⟩
  | comment hw hcon ih =>
    rename_i w c
    simp only [List.length_append] at hn hm
    have hpos := List.length_pos_iff.mpr (ne_nil_of_section (by decide) hw)
    obtain ⟨m,rfl⟩ := Nat.exists_eq_add_one.mpr (Nat.zero_lt_of_lt hm)
    obtain ⟨m',all,hm',hrest⟩ := ih (by omega) name m (by omega) children (b ++ w) hr
    refine ⟨m',all,by rw [List.length_append]; omega,?_⟩
    rw [List.append_assoc,ended_lap (ended_childLap_comment hw b (c ++ r)),hrest,List.append_assoc]
  | cdata hw hcon ih =>
    rename_i w c
    simp only [List.length_append] at hn hm
    have hpos := List.length_pos_iff.mpr (ne_nil_of_section (by decide) hw)
    obtain ⟨m,rfl⟩ := Nat.exists_eq_add_one.mpr (Nat.zero_lt_of_lt hm)
    obtain ⟨more,hmore⟩ := ended_childLap_cdata hw b (c ++ r)
    obtain ⟨m',all,hm',hrest⟩ := ih (by omega) name m (by omega) more (b ++ w) hr
    refine ⟨m',all,by rw [List.length_append]; omega,?_⟩
    rw [List.append_assoc,ended_lap hmore,hrest,List.append_assoc]
  | text hne ht htag hcon ih =>
    rename_i t c
    simp only [List.length_append] at hn hm
    have hpos := List.length_pos_iff.mpr hne
    obtain ⟨m,rfl⟩ := Nat.exists_eq_add_one.mpr (Nat.zero_lt_of_lt hm)
    have htag' : AtTag (c ++ r) := by
      cases c with
      | nil => exact hr
      | cons x c => exact htag
    obtain ⟨m',all,hm',hrest⟩ := ih (by omega) name m (by omega) (children ++ [.text (decodeEntities t)]) (b ++ t) hr
    refine ⟨m',all,by rw [List.length_append]; omega,?_⟩
    rw [List.append_assoc,ended_lap (ended_childLap_text hne ht htag' b),hrest,List.append_assoc]
  | empty hd htag hcon ih =>
    rename_i d nm w c
    simp only [List.length_append] at hn hm
    obtain ⟨x,rest,hx,hcons⟩ := isTag_cons htag
    have hpos : 0 < w.length := by rw [hcons]; exact Nat.succ_pos _
    obtain ⟨m,rfl⟩ := Nat.exists_eq_add_one.mpr (Nat.zero_lt_of_lt hm)
    obtain ⟨attributes,hel⟩ := ended_parseElement hd true htag (n := n) (by omega) b (c ++ r)
    have hlap : (childLap n name (parseElement n d) children ⟨b,w ++ (c ++ r)⟩).ended =
        .returned (.inl (children ++ [.element (.mk nm attributes [])])) ⟨b ++ w,c ++ r⟩ := by
      rw [childLap_tag hx (by rw [hcons]; rfl),ended_bind hel]
      rfl
    obtain ⟨m',all,hm',hrest⟩ := ih (by omega) name m (by omega) _ (b ++ w) hr
    refine ⟨m',all,by rw [List.length_append]; omega,?_⟩
    rw [List.append_assoc,ended_lap hlap,hrest,List.append_assoc]
  | element hd htag hinner hend hcon ihinner ih =>
    rename_i d nm w inner e c
    simp only [List.length_append] at hn hm
    obtain ⟨x,rest,hx,hcons⟩ := isTag_cons htag
    have hpos : 0 < w.length := by rw [hcons]; exact Nat.succ_pos _
    obtain ⟨m,rfl⟩ := Nat.exists_eq_add_one.mpr (Nat.zero_lt_of_lt hm)
    obtain ⟨el,hel⟩ := ended_closed hd htag hend (n := n) (by omega) b (c ++ r) fun hat => ihinner (by omega) nm n (by omega) [] (b ++ w) hat
    have hlap : (childLap n name (parseElement n d) children ⟨b,w ++ (inner ++ (e ++ (c ++ r)))⟩).ended =
        .returned (.inl (children ++ [.element el])) ⟨b ++ w ++ inner ++ e,c ++ r⟩ := by
      rw [childLap_tag hx (by rw [hcons]; rfl),ended_bind hel]
      rfl
    obtain ⟨m',all,hm',hrest⟩ := ih (by omega) name m (by omega) _ (b ++ w ++ inner ++ e) hr
    refine ⟨m',all,by simp only [List.length_append]; omega,?_⟩
    simp only [List.append_assoc] at hlap hrest ⊢
    rw [ended_lap hlap,hrest]

private theorem leftOpen_cons {d : ℕ} {u : List Char} (h : LeftOpen d u) : ∃ c rest, isNameChar c ∧ u = '<' :: c :: rest := by
  cases h with
  | here _ htag _ =>
    obtain ⟨c,rest,hc,rfl⟩ := isTag_cons htag
    exact ⟨c,_,hc,rfl⟩
  | within _ htag _ _ =>
    obtain ⟨c,rest,hc,rfl⟩ := isTag_cons htag
    exact ⟨c,_,hc,rfl⟩

/-- An element left open so is never read to an end. -/
private theorem running_leftOpen {d : ℕ} {u : List Char} (hu : LeftOpen d u) (hn : u.length < n) (b : List Char) :
    (parseElement n d ⟨b,u⟩).ended = .running := by
  induction hu generalizing b with
  | here hd htag hc =>
    rename_i name w c
    rw [List.length_append] at hn
    obtain ⟨attributes,hel⟩ := ended_parseElement hd false htag (n := n) (by omega) b c
    obtain ⟨k,all,-,hloop⟩ := ended_content (n := n) hc (by omega) name n (by omega) [] (b ++ w) (r := []) fun x hx => by cases hx
    rw [List.append_nil] at hloop
    rw [hel]
    exact running_andThen (hloop.trans (running_of_stuck (ended_childLap_nil _) k)) _
  | within hd htag hc hu ih =>
    rename_i d name w c u
    simp only [List.length_append] at hn
    obtain ⟨x,rest,hx,hcons⟩ := leftOpen_cons hu
    obtain ⟨attributes,hel⟩ := ended_parseElement hd false htag (n := n) (by omega) b (c ++ u)
    have hat : AtTag u := by
      rw [hcons]
      intro y hy
      exact (Option.some.inj hy).symm
    obtain ⟨k,all,hk,hloop⟩ := ended_content (n := n) hc (by omega) name n (by omega) [] (b ++ w) hat
    obtain ⟨k,rfl⟩ := Nat.exists_eq_add_one.mpr (show 0 < k by omega)
    have hlap : (childLap n name (parseElement n (d + 1)) all ⟨b ++ w ++ c,u⟩).ended = .running := by
      rw [childLap_tag hx hcons]
      exact running_andThen (ih (by omega) _) _
    rw [hel]
    exact running_andThen (hloop.trans (running_andThen hlap _)) _

private theorem running_parseDocument {text : List Char} (h : IsLeftOpen text) (hn : text.length < n) :
    (parseDocument n ⟨[],text⟩).ended = .running := by
  obtain ⟨w,u,hw,hu,rfl⟩ := h
  obtain ⟨c,rest,hc,hcons⟩ := leftOpen_cons hu
  rw [List.length_append] at hn
  have hprolog : (skipProlog n ⟨[],w ++ u⟩).ended = .returned () ⟨w,u⟩ := by
    have h := ended_skipProlog hw hc (u := rest) (n := n) (by omega) []
    rwa [← hcons] at h
  rw [parseDocument,ended_bind hprolog]
  exact running_andThen (running_leftOpen hu (by omega) w) _

end Runs

section EndsClosed

/-- A character of the input ends `pos` bytes into it. -/
def IsBoundary (input : Bytes) (pos : ℕ) : Prop := ∃ front rest, input = encode (front ++ rest) ∧ pos = utf8Len front

/-- With enough laps every loop is left, and the call fails unless the input is a document;
however many there are, no lap stands still and none ends within a character. -/
def EndsClosed (input : Bytes) : Prop :=
  (∃ n, ∀ m, n ≤ m → (∃ e, (parseEnvelope m input).ended = .failed e) ∨
    ∃ root p, (parseEnvelope m input).ended = .returned root p ∧ ∃ text, input = encode text ∧ IsDocument text) ∧
  ∀ n, (parseEnvelope n input).ended ≠ .panicked ∧
    ∀ lap ∈ (parseEnvelope n input).laps, lap.1 < lap.2 ∧ IsBoundary input lap.1 ∧ IsBoundary input lap.2

private theorem parseEnvelope_encode (n : ℕ) (text : List Char) : parseEnvelope n (encode text) = parseDocument n ⟨[],text⟩ := by
  rw [parseEnvelope,if_pos (isValid_encode text),fromUtf8Lossy_of_encode]

private theorem forward_boundaries {text : List Char} {lap : ℕ × ℕ} (h : Forward text lap) :
    IsBoundary (encode text) lap.1 ∧ IsBoundary (encode text) lap.2 := by
  obtain ⟨v,w,rest,rfl,-,rfl⟩ := h
  exact ⟨⟨v,w ++ rest,rfl,rfl⟩,⟨v ++ w,rest,by rw [List.append_assoc],rfl⟩⟩

private theorem endsClosed_of_safe {text : List Char} (hopen : ¬ IsLeftOpen text) : EndsClosed (encode text) := by
  have hsafe := fun n => safe_parseDocument (n := n) hopen
  refine ⟨⟨text.length + 1,fun m hm => ?_⟩,fun n => ?_⟩
  · rw [parseEnvelope_encode]
    cases hended : (parseDocument m ⟨[],text⟩).ended with
    | running => exact absurd hended ((hsafe m).running hm)
    | panicked => exact absurd hended (hsafe m).panicked
    | failed e => exact .inl ⟨e,rfl⟩
    | returned root p =>
      obtain ⟨w,hlead,hrest,hdoc⟩ := (hsafe m).returned root p hended
      have hw : text = w := by
        have h := hlead.2
        rwa [hrest,List.append_nil] at h
      exact .inr ⟨root,p,rfl,text,rfl,hw ▸ hdoc⟩
  · rw [parseEnvelope_encode]
    refine ⟨(hsafe n).panicked,fun lap hlap => ?_⟩
    have hforward := (hsafe n).laps lap hlap
    exact ⟨hforward.lt,forward_boundaries hforward⟩

private theorem not_endsClosed {text : List Char} (h : IsLeftOpen text) : ¬ EndsClosed (encode text) := by
  rintro ⟨⟨n,hn⟩,-⟩
  have hrunning := running_parseDocument h (n := max n (text.length + 1)) (by omega)
  rcases hn _ (le_max_left n (text.length + 1)) with ⟨e,he⟩ | ⟨root,p,hp,-⟩
  · rw [parseEnvelope_encode,hrunning] at he
    cases he
  · rw [parseEnvelope_encode,hrunning] at hp
    cases hp

/-- The parser ends and fails closed on exactly the inputs that do not leave an element open
between two of its children. -/
theorem parse_envelope_ends_iff (input : Bytes) : EndsClosed input ↔ ¬ ∃ text, input = encode text ∧ IsLeftOpen text := by
  constructor
  · rintro hclosed ⟨text,rfl,hopen⟩
    exact not_endsClosed hopen hclosed
  · intro hopen
    by_cases hvalid : IsValid input
    · obtain ⟨text,rfl⟩ := isValid_iff.mp hvalid
      exact endsClosed_of_safe fun h => hopen ⟨text,rfl,h⟩
    · have hended : ∀ n, parseEnvelope n input = ⟨[],.failed _⟩ := fun n => if_neg hvalid
      refine ⟨⟨0,fun m _ => .inl ⟨_,by rw [hended]⟩⟩,fun n => ?_⟩
      rw [hended]
      exact ⟨by simp,by simp⟩

/-- On `<a>` the parser never comes back. -/
theorem open_tag_never_ends : ¬ ∀ input, EndsClosed input := by
  intro h
  have hname : IsName ['a'] := ⟨by simp,fun c hc => by obtain rfl := List.mem_singleton.mp hc; rfl⟩
  have htag : IsTag ['a'] ">".toList "<a>".toList := ⟨[],hname,.blank isBlank_nil,by simp,rfl⟩
  have hopen : IsLeftOpen "<a>".toList := ⟨[],_,.blank isBlank_nil,.here (Nat.zero_le _) htag .nil,(List.append_nil _).symm⟩
  exact not_endsClosed hopen (h _)

end EndsClosed

end Dwara.Dataplane.SoapEnvelope
