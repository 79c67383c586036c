import Dwara.Dataplane.SoapEnvelope

/-! What the envelope parser accepts: one element between a prolog and white space. Every lap of
its loops goes forward, unless the text ends between two children of an element. -/

namespace Dwara.Dataplane.SoapEnvelope
open Dwara.Lib Dwara.Lib.Text Dwara.Lib.TextCursor Dwara.Lib.Utf8
open TranslationGraphql (TranslationError)

section Grammar

def IsBlank (w : List Char) : Prop := ∀ c ∈ w, isWhitespace c

theorem isBlank_nil : IsBlank [] := fun _ hc => absurd hc List.not_mem_nil

def IsName (w : List Char) : Prop := w ≠ [] ∧ ∀ c ∈ w, isNameChar c

/-- Begins with one pattern, and ends where another first occurs. -/
def IsSection (start stop w : List Char) : Prop := start <+: w ∧ ∃ before, splitOnceAt stop w = some (before,[])

def IsComment : List Char → Prop := IsSection "<!--".toList "-->".toList

def IsAttribute (w : List Char) : Prop :=
  ∃ name s t quote value, IsName name ∧ IsBlank s ∧ IsBlank t ∧ (quote = '"' ∨ quote = '\'') ∧ quote ∉ value ∧
    w = name ++ (s ++ '=' :: (t ++ quote :: (value ++ [quote])))

inductive Attributes : List Char → Prop where
  | blank {s : List Char} : IsBlank s → Attributes s
  | more {s a w : List Char} : IsBlank s → IsAttribute a → Attributes w → Attributes (s ++ (a ++ w))

/-- A start tag that ends with `stop`; its attributes do not go on with its name. -/
def IsTag (name stop w : List Char) : Prop :=
  ∃ attrs, IsName name ∧ Attributes attrs ∧ (∀ c ∈ attrs.head?, isNameChar c = false) ∧ w = '<' :: (name ++ (attrs ++ stop))

/-- An end tag for an element of the given name, whatever their prefixes. -/
def IsEndTag (name w : List Char) : Prop :=
  ∃ closeName s, IsName closeName ∧ localName closeName = localName name ∧ IsBlank s ∧ w = '<' :: '/' :: (closeName ++ (s ++ ['>']))

/-- Markup starts here, or the text ends. -/
def AtTag (cs : List Char) : Prop := ∀ c ∈ cs.head?, c = '<'

/-- Children of an element, those that are elements at depth `d`. -/
inductive Content : ℕ → List Char → Prop where
  | nil {d : ℕ} : Content d []
  | comment {d : ℕ} {w c : List Char} : IsComment w → Content d c → Content d (w ++ c)
  | cdata {d : ℕ} {w c : List Char} : IsSection "<![CDATA[".toList "]]>".toList w → Content d c → Content d (w ++ c)
  | text {d : ℕ} {t c : List Char} : t ≠ [] → '<' ∉ t → AtTag c → Content d c → Content d (t ++ c)
  | empty {d : ℕ} {name w c : List Char} : d ≤ parseDepthCap → IsTag name "/>".toList w → Content d c → Content d (w ++ c)
  | element {d : ℕ} {name w inner e c : List Char} : d ≤ parseDepthCap → IsTag name ">".toList w → Content (d + 1) inner →
      IsEndTag name e → Content d c → Content d (w ++ (inner ++ (e ++ c)))

/-- An element at depth `d`, from its start tag to its end tag. -/
def IsElement (d : ℕ) (w : List Char) : Prop :=
  d ≤ parseDepthCap ∧ ((∃ name, IsTag name "/>".toList w) ∨
    ∃ name tag inner e, IsTag name ">".toList tag ∧ Content (d + 1) inner ∧ IsEndTag name e ∧ w = tag ++ (inner ++ e))

/-- Comments and processing instructions, and white space around them. -/
inductive Prolog : List Char → Prop where
  | blank {s : List Char} : IsBlank s → Prolog s
  | more {s w p : List Char} : IsBlank s → IsSection "<?".toList "?>".toList w ∨ IsComment w → Prolog p → Prolog (s ++ (w ++ p))

/-- A prolog, one element and white space. -/
def IsDocument (text : List Char) : Prop := ∃ p w s, Prolog p ∧ IsElement 0 w ∧ IsBlank s ∧ text = p ++ (w ++ s)

/-- An element that the text leaves open between two of its children: it ends there, or behind
an element within it that is left open so. -/
inductive LeftOpen : ℕ → List Char → Prop where
  | here {d : ℕ} {name w c : List Char} : d ≤ parseDepthCap → IsTag name ">".toList w → Content (d + 1) c → LeftOpen d (w ++ c)
  | within {d : ℕ} {name w c u : List Char} : d ≤ parseDepthCap → IsTag name ">".toList w → Content (d + 1) c →
      LeftOpen (d + 1) u → LeftOpen d (w ++ (c ++ u))

end Grammar

section Pieces
variable {p : Cursor} {n : ℕ}

private theorem safe_advance_one {c : Char} {rest : List Char} (hc : utf8Len [c] = 1) (h : p.rest = c :: rest) :
    Safe p n (fun _ w q => w = [c] ∧ q.rest = rest) ((TextCursor.advance 1 : XmlParser Unit) p) := by
  rw [← hc]
  exact safe_advance (w := [c]) h

private theorem head_dropWhile (keep : Char → Bool) (cs : List Char) : ∀ c ∈ (cs.dropWhile keep).head?, keep c = false := by
  intro c hc
  have h := List.head?_dropWhile_not keep cs
  rw [hc] at h
  exact h

private theorem safe_skipWhitespace :
    Safe p n (fun _ w q => IsBlank w ∧ ∀ c ∈ q.rest.head?, isWhitespace c = false) (skipWhitespace n p) :=
  (safe_skipWhile isWhitespace).mono fun _ w q _ ⟨hw,hq⟩ =>
    ⟨fun c hc => List.mem_takeWhile_imp (hw ▸ hc),by rw [hq]; exact head_dropWhile _ _⟩

private theorem between_leads {q : Cursor} {w : List Char} (h : Leads p w q) : between p q = w := by
  rw [between,h.1,List.drop_left]

private theorem safe_parseName :
    Safe p n (fun name w q => name = w ∧ IsName w ∧ ∀ c ∈ q.rest.head?, isNameChar c = false) (parseName n p) := by
  rw [parseName,cursor_bind]
  refine (safe_skipWhile isNameChar).bind fun _ w q hlead ⟨hw,hq⟩ => ?_
  rw [cursor_bind]
  split
  · exact safe_failed _
  · rename_i hpos
    refine safe_pure ?_
    rw [List.append_nil]
    refine ⟨between_leads hlead,⟨?_,fun c hc => List.mem_takeWhile_imp (hw ▸ hc)⟩,by rw [hq]; exact head_dropWhile _ _⟩
    rintro rfl
    exact hpos (by rw [Cursor.pos,Cursor.pos,hlead.1,List.append_nil])

private theorem safe_skipPast {pattern : List Char} (message : String) :
    Safe p n (fun _ w q => ∃ before, splitOnceAt pattern p.rest = some (before,q.rest) ∧ w = before ++ pattern)
      (skipPast pattern message p) := by
  rw [skipPast,remaining_bind,find]
  cases h : splitOnceAt pattern p.rest with
  | none => exact safe_failed _
  | some parts =>
    obtain ⟨before,after⟩ := parts
    have hrest : p.rest = before ++ pattern ++ after := by
      rw [List.append_assoc]
      exact eq_of_splitOnceAt h
    have hlen : utf8Len before + utf8Len pattern = utf8Len (before ++ pattern) := (utf8Len_append _ _).symm
    simp only [Option.map_some]
    rw [hlen]
    refine (safe_advance hrest).mono fun _ w q _ ⟨hw,hq⟩ => ⟨before,?_,hw⟩
    rw [hq]

/-- A section is at least as long as its first pattern, of which the last one overlaps only the end. -/
theorem isSection_of {u v as rest before after : List Char} {a : Char} (hu : a ∉ u) (hv : v.length ≤ (a :: as).length)
    (hstart : u ++ v <+: rest) (h : splitOnceAt (a :: as) rest = some (before,after)) :
    IsSection (u ++ v) (a :: as) (before ++ a :: as) ∧ u <+: before := by
  obtain ⟨more,hmore⟩ := hstart
  rw [← hmore,List.append_assoc,splitOnceAt_append hu] at h
  obtain ⟨⟨b,rest'⟩,hsplit,heq⟩ := Option.map_eq_some_iff.mp h
  obtain ⟨rfl,rfl⟩ := Prod.mk.inj heq
  have hu' : u <+: u ++ b := List.prefix_append u b
  have hvb : v ++ more = b ++ (a :: as ++ rest') := eq_of_splitOnceAt hsplit
  have hv' : v <+: b ++ a :: as := by
    refine List.prefix_of_prefix_length_le (List.prefix_append v more) ?_ ?_
    · rw [hvb,← List.append_assoc]
      exact List.prefix_append _ _
    · rw [List.length_append]
      omega
  have hcut : splitOnceAt (a :: as) (u ++ b ++ a :: as) = some (u ++ b,[]) := by
    rw [List.append_assoc,splitOnceAt_append hu,splitOnceAt_cut hsplit (List.cons_ne_nil a as)]
    rfl
  refine ⟨⟨?_,_,hcut⟩,hu'⟩
  rw [List.append_assoc]
  exact (List.prefix_append_right_inj u).mpr hv'

private theorem safe_comment (h : "<!--".toList <+: p.rest) (message : String) :
    Safe p n (fun _ w _ => IsComment w) (skipPast "-->".toList message p) :=
  (safe_skipPast message).mono fun _ _ _ _ ⟨_,hsplit,hw⟩ =>
    hw ▸ (isSection_of (u := ['<','!']) (v := ['-','-']) (by decide) (by decide) h hsplit).1

private theorem safe_instruction (h : "<?".toList <+: p.rest) (message : String) :
    Safe p n (fun _ w _ => IsSection "<?".toList "?>".toList w) (skipPast "?>".toList message p) :=
  (safe_skipPast message).mono fun _ _ _ _ ⟨_,hsplit,hw⟩ =>
    hw ▸ (isSection_of (u := ['<']) (v := ['?']) (by decide) (by decide) h hsplit).1

private theorem safe_cdataSection (h : "<![CDATA[".toList <+: p.rest) :
    Safe p n (fun _ w _ => IsSection "<![CDATA[".toList "]]>".toList w) (cdataSection p) := by
  rw [cdataSection,remaining_bind,find]
  cases hsplit : splitOnceAt "]]>".toList p.rest with
  | none => exact safe_failed _
  | some parts =>
    obtain ⟨before,after⟩ := parts
    obtain ⟨hsection,b,hb⟩ := isSection_of (u := "<![CDATA[".toList) (v := []) (by decide) (Nat.zero_le _) h hsplit
    have hrest : p.rest = before ++ "]]>".toList ++ after := by
      rw [List.append_assoc]
      exact eq_of_splitOnceAt hsplit
    have hslice : slice 9 (utf8Len before) p.rest = some b := by
      rw [hrest,← hb,List.append_assoc,List.append_assoc]
      exact slice_append "<![CDATA[".toList b _
    have hlen : utf8Len before + 3 = utf8Len (before ++ "]]>".toList) := (utf8Len_append before "]]>".toList).symm
    simp only [Option.map_some,hslice]
    rw [hlen]
    refine (safe_advance hrest).bind fun _ w q _ ⟨hw,hq⟩ => safe_pure ?_
    rw [hw,List.append_nil]
    exact hsection

private theorem safe_parseAttribute : Safe p n (fun _ w _ => IsAttribute w) (parseAttribute n p) := by
  rw [parseAttribute]
  refine safe_parseName.bind ?_
  rintro name w q - ⟨hname,hn,-⟩
  refine safe_skipWhitespace.bind ?_
  rintro _ s q' - ⟨hs,-⟩
  rw [peek_bind]
  split
  · exact safe_failed _
  · rename_i hhead
    obtain ⟨rest,hrest⟩ := List.head?_eq_some_iff.mp (not_not.mp hhead)
    refine (safe_advance_one rfl hrest).bind ?_
    rintro _ v q2 - ⟨hv,-⟩
    refine safe_skipWhitespace.bind ?_
    rintro _ t q3 - ⟨ht,-⟩
    rw [peek_bind]
    cases hq3 : q3.rest with
    | nil => exact safe_failed _
    | cons quote rest3 =>
      rw [List.head?_cons]
      simp only
      split
      · exact safe_failed _
      · rename_i hquote
        have hquote' : quote = '"' ∨ quote = '\'' := by
          by_contra hnot
          exact hquote (not_or.mp hnot)
        have hlen : utf8Len [quote] = 1 := by rcases hquote' with rfl | rfl <;> rfl
        refine (safe_advance_one hlen hq3).bind ?_
        rintro _ v4 q4 - ⟨hv4,-⟩
        rw [cursor_bind]
        refine (safe_skipWhile _).bind ?_
        rintro _ value q5 - ⟨hvalue,hq5⟩
        rw [cursor_bind,peek_bind]
        cases hrest5 : q5.rest with
        | nil => exact safe_failed _
        | cons c rest6 =>
          have hstop := head_dropWhile (fun c => decide (c ≠ quote)) q4.rest c (by rw [← hq5,hrest5]; rfl)
          obtain rfl : c = quote := by simpa using hstop
          rw [List.head?_cons]
          simp only
          refine (safe_advance_one hlen hrest5).bind ?_
          rintro _ v6 q6 - ⟨hv6,-⟩
          refine safe_pure ?_
          refine ⟨w,s,t,c,value,hn,hs,ht,hquote',fun hc => ?_,?_⟩
          · have hkeep := List.mem_takeWhile_imp (hvalue ▸ hc)
            simp at hkeep
          · simp [hv,hv4,hv6]

theorem ne_nil_of_section {start stop w : List Char} (hstart : start ≠ []) (h : IsSection start stop w) : w ≠ [] := by
  rintro rfl
  exact hstart (List.prefix_nil.mp h.1)

theorem ne_nil_of_attribute {w : List Char} (h : IsAttribute w) : w ≠ [] := by
  obtain ⟨name,s,t,quote,value,hname,-,-,-,-,rfl⟩ := h
  simp

end Pieces

section Reads
variable {p : Cursor} {n : ℕ}

private theorem safe_prologLap :
    Safe p n (fun turn w q => match turn with
      | .inl _ => w ≠ [] ∧ ∃ s v, IsBlank s ∧ (IsSection "<?".toList "?>".toList v ∨ IsComment v) ∧ w = s ++ v
      | .inr _ => IsBlank w ∧ ∀ c ∈ q.rest.head?, isWhitespace c = false) (prologLap n p) := by
  rw [prologLap]
  refine safe_skipWhitespace.bind fun _ s q _ ⟨hs,hq⟩ => ?_
  rw [remaining_bind]
  split
  · rename_i hstart
    refine (safe_instruction (List.isPrefixOf_iff_prefix.mp hstart) _).bind fun _ v q' _ hv => safe_pure ?_
    rw [List.append_nil]
    exact ⟨List.append_ne_nil_of_right_ne_nil s (ne_nil_of_section (by decide) hv),s,v,hs,.inl hv,rfl⟩
  · split
    · rename_i hstart
      refine (safe_comment (List.isPrefixOf_iff_prefix.mp hstart) _).bind fun _ v q' _ hv => safe_pure ?_
      rw [List.append_nil]
      exact ⟨List.append_ne_nil_of_right_ne_nil s (ne_nil_of_section (by decide) hv),s,v,hs,.inr hv,rfl⟩
    · split
      · exact safe_failed _
      · refine safe_pure ?_
        rw [List.append_nil]
        exact ⟨hs,hq⟩

private theorem safe_skipProlog :
    Safe p n (fun _ w q => Prolog w ∧ ∀ c ∈ q.rest.head?, isWhitespace c = false) (skipProlog n p) := by
  refine safe_loop (I := fun _ w _ => ∀ v, Prolog v → Prolog (w ++ v)) (fun _ w q _ hI => ?_) fun v hv => hv
  refine safe_prologLap.mono fun turn v q' _ hturn => ?_
  cases turn with
  | inl _ =>
    obtain ⟨hne,s,u,hs,hu,rfl⟩ := hturn
    refine ⟨hne,fun more hmore => ?_⟩
    have hall := hI _ (Prolog.more hs hu hmore)
    simpa using hall
  | inr _ => exact ⟨hI v (.blank hturn.1),hturn.2⟩

private theorem safe_attributeLap (attributes : List (List Char × List Char)) :
    Safe p n (fun turn w _ => match turn with
      | .inl _ => w ≠ [] ∧ ∃ s a, IsBlank s ∧ IsAttribute a ∧ w = s ++ a
      | .inr (_,empty) => ∃ s, IsBlank s ∧ w = s ++ if empty then "/>".toList else ">".toList) (attributeLap n attributes p) := by
  rw [attributeLap]
  refine safe_skipWhitespace.bind fun _ s q _ ⟨hs,hq⟩ => ?_
  rw [peek_bind]
  cases hrest : q.rest with
  | nil => exact safe_failed _
  | cons c rest =>
    rw [List.head?_cons]
    simp only
    split
    · rename_i hc
      subst hc
      refine (safe_advance_one rfl hrest).bind fun _ v q2 _ ⟨hv,_⟩ => ?_
      rw [peek_bind]
      split
      · exact safe_failed _
      · rename_i hhead
        obtain ⟨rest2,hrest2⟩ := List.head?_eq_some_iff.mp (not_not.mp hhead)
        refine (safe_advance_one rfl hrest2).bind fun _ v2 q3 _ ⟨hv2,_⟩ => safe_pure ⟨s,hs,?_⟩
        rw [hv,hv2]
        rfl
    · split
      · rename_i hc
        subst hc
        refine (safe_advance_one rfl hrest).bind fun _ v q2 _ ⟨hv,_⟩ => safe_pure ⟨s,hs,?_⟩
        rw [hv]
        rfl
      · refine safe_parseAttribute.bind fun attr a q2 _ ha => safe_pure ?_
        rw [List.append_nil]
        exact ⟨List.append_ne_nil_of_right_ne_nil s (ne_nil_of_attribute ha),s,a,hs,ha,rfl⟩

private theorem safe_attributes :
    Safe p n (fun turn w _ => ∃ a, Attributes a ∧ w = a ++ if turn.2 then "/>".toList else ">".toList) (loop (attributeLap n) n [] p) := by
  refine safe_loop (I := fun _ w _ => ∀ v, Attributes v → Attributes (w ++ v)) (fun attributes w q _ hI => ?_) fun v hv => hv
  refine (safe_attributeLap attributes).mono fun turn v q' _ hturn => ?_
  cases turn with
  | inl _ =>
    obtain ⟨hne,s,a,hs,ha,rfl⟩ := hturn
    refine ⟨hne,fun more hmore => ?_⟩
    have hall := hI _ (Attributes.more hs ha hmore)
    simpa using hall
  | inr end' =>
    obtain ⟨s,hs,rfl⟩ := hturn
    exact ⟨w ++ s,hI s (.blank hs),(List.append_assoc _ _ _).symm⟩

private theorem safe_closingTag (name : List Char) :
    Safe p n (fun _ w _ => IsEndTag name ("</".toList ++ w)) (closingTag n name p) := by
  rw [closingTag]
  refine safe_parseName.bind fun closeName w q _ ⟨hname,hw,_⟩ => ?_
  subst hname
  split
  · exact safe_failed _
  · rename_i hlocal
    refine safe_skipWhitespace.bind fun _ s q2 _ ⟨hs,_⟩ => ?_
    rw [peek_bind]
    split
    · exact safe_failed _
    · rename_i hhead
      obtain ⟨rest,hrest⟩ := List.head?_eq_some_iff.mp (not_not.mp hhead)
      refine (safe_advance_one rfl hrest).mono fun _ v q3 _ ⟨hv,_⟩ => ⟨closeName,s,hw,not_not.mp hlocal,hs,?_⟩
      rw [hv]
      rfl

/-- An element is one more of the children. -/
theorem IsElement.content {d : ℕ} {w c : List Char} (h : IsElement d w) (hc : Content d c) : Content d (w ++ c) := by
  obtain ⟨hd,⟨name,htag⟩ | ⟨name,tag,inner,e,htag,hinner,hend,rfl⟩⟩ := h
  · exact .empty hd htag hc
  · rw [List.append_assoc,List.append_assoc]
    exact .element hd htag hinner hend hc

section Children
variable {d : ℕ} {name : List Char} {element : XmlParser XmlElement}
  (helement : ∀ q : Cursor, q.rest.head? = some '<' → ¬ LeftOpen d q.rest → Safe q n (fun _ w _ => IsElement d w) (element q))
include helement

/-- One lap takes one child, unless the text ends or goes on with an element left open. -/
private theorem safe_childLap (children : List XmlChild) (hend : p.rest ≠ []) (hopen : ¬ LeftOpen d p.rest) :
    Safe p n (fun turn w q => match turn with
      | .inl _ => w ≠ [] ∧ ∀ c, c <+: q.rest → Content d c → Content d (w ++ c)
      | .inr _ => IsEndTag name w) (childLap n name element children p) := by
  rw [childLap,remaining_bind]
  split
  · rename_i hstart
    obtain ⟨rest,hrest⟩ := List.isPrefixOf_iff_prefix.mp hstart
    refine Safe.bind (safe_advance hrest.symm) fun _ v q _ ⟨hv,_⟩ => ?_
    refine (safe_closingTag name).bind fun _ w q' _ hw => safe_pure ?_
    rw [List.append_nil,hv]
    exact hw
  · split
    · rename_i hstart
      refine (safe_comment (List.isPrefixOf_iff_prefix.mp hstart) _).bind fun _ w q _ hw => safe_pure ?_
      rw [List.append_nil]
      exact ⟨ne_nil_of_section (by decide) hw,fun c _ hc => .comment hw hc⟩
    · split
      · rename_i hstart
        refine (safe_cdataSection (List.isPrefixOf_iff_prefix.mp hstart)).bind fun _ w q _ hw => safe_pure ?_
        rw [List.append_nil]
        exact ⟨ne_nil_of_section (by decide) hw,fun c _ hc => .cdata hw hc⟩
      · split
        · rename_i hhead
          refine (helement p hhead hopen).bind fun _ w q hlead hw => safe_pure ?_
          rw [List.append_nil]
          refine ⟨?_,fun c _ hc => hw.content hc⟩
          obtain ⟨-,⟨_,_,-,-,-,rfl⟩ | ⟨_,_,_,_,⟨_,-,-,-,rfl⟩,-,-,rfl⟩⟩ := hw
          · exact List.cons_ne_nil _ _
          · exact List.cons_ne_nil _ _
        · rename_i hhead
          have htext : p.rest.takeWhile (· ≠ '<') ≠ [] := by
            obtain ⟨c,rest,hrest⟩ := List.exists_cons_of_ne_nil hend
            have hc : c ≠ '<' := by
              rintro rfl
              exact hhead (by rw [hrest]; rfl)
            rw [hrest,List.takeWhile_cons_of_pos (by simpa using hc)]
            exact List.cons_ne_nil _ _
          simp only [if_neg htext]
          refine Safe.bind (safe_advance (List.takeWhile_append_dropWhile.symm : p.rest = _)) fun _ w q _ ⟨hw,hq⟩ => safe_pure ?_
          rw [List.append_nil,hw]
          refine ⟨htext,fun c hc hcontent => .text htext (fun hmem => ?_) (fun x hx => ?_) hcontent⟩
          · have hkeep := List.mem_takeWhile_imp hmem
            simp at hkeep
          · have hstop := head_dropWhile (fun c => decide (c ≠ '<')) p.rest x ?_
            · simpa using hstop
            · rw [← hq]
              obtain ⟨more,hmore⟩ := hc
              rw [← hmore,List.head?_append,hx]
              rfl

/-- The loop over the children takes them and the end tag, unless the text leaves the element open. -/
private theorem safe_children (hend : ¬ Content d p.rest)
    (hopen : ∀ c u, p.rest = c ++ u → Content d c → ¬ LeftOpen d u) :
    Safe p n (fun _ w _ => ∃ c e, Content d c ∧ IsEndTag name e ∧ w = c ++ e) (loop (childLap n name element) n [] p) := by
  refine safe_loop (I := fun _ w q => ∀ c, c <+: q.rest → Content d c → Content d (w ++ c))
    (fun children w q hlead hI => ?_) fun c _ hc => hc
  have hcontent : Content d w := by
    have h := hI [] List.nil_prefix .nil
    rwa [List.append_nil] at h
  have hnot : q.rest ≠ [] := by
    intro hnil
    rw [hlead.2,hnil,List.append_nil] at hend
    exact hend hcontent
  refine (safe_childLap helement children hnot (hopen w q.rest hlead.2 hcontent)).mono fun turn v q' hlead' hturn => ?_
  cases turn with
  | inl _ =>
    refine ⟨hturn.1,fun c hc hcon => ?_⟩
    rw [List.append_assoc]
    refine hI (v ++ c) ?_ (hturn.2 c hc hcon)
    rw [hlead'.2]
    exact (List.prefix_append_right_inj v).mpr hc
  | inr _ => exact ⟨w,v,hcontent,hturn,rfl⟩

end Children

private theorem safe_parseElement (k : ℕ) {d : ℕ} (hk : parseDepthCap + 1 ≤ d + k) {p : Cursor} {s u : List Char} (hp : p.rest = s ++ u)
    (hs : IsBlank s) (hu : ∀ c ∈ u.head?, isWhitespace c = false) (hopen : ¬ LeftOpen d u) :
    Safe p n (fun _ w _ => ∃ e, IsElement d e ∧ w = s ++ e) (parseElement n d p) := by
  induction k generalizing d p s u with
  | zero =>
    rw [parseElement,dif_pos (by omega)]
    exact safe_failed _
  | succ k ih =>
    rw [parseElement]
    split
    · exact safe_failed _
    · rename_i hd
      have htake : p.rest.takeWhile isWhitespace = s ∧ p.rest.dropWhile isWhitespace = u := by
        rw [hp,List.takeWhile_append_of_pos hs,List.dropWhile_append_of_pos hs]
        cases u with
        | nil => simp
        | cons c u => simp [hu c rfl]
      refine (safe_skipWhile isWhitespace).bind fun _ w q hlead ⟨hw,hq⟩ => ?_
      rw [htake.1] at hw
      rw [htake.2] at hq
      subst hw
      rw [peek_bind]
      split
      · exact safe_failed _
      · rename_i hhead
        obtain ⟨rest,hrest⟩ := List.head?_eq_some_iff.mp (not_not.mp hhead)
        refine (safe_advance_one rfl hrest).bind fun _ v q2 _ ⟨hv,hq2⟩ => ?_
        refine safe_parseName.bind fun name nm q3 hlead3 ⟨hname,hnm,hnext⟩ => ?_
        subst hname
        refine safe_attributes.bind fun turn w4 q4 hlead4 ⟨a,ha,hw4⟩ => ?_
        obtain ⟨attributes,empty⟩ := turn
        have htag : IsTag name (if empty then "/>".toList else ">".toList) (v ++ (name ++ w4)) := by
          refine ⟨a,hnm,ha,fun c hc => hnext c ?_,?_⟩
          · rw [hlead4.2,hw4,List.append_assoc,List.head?_append,hc]
            rfl
          · rw [hv,hw4]
            rfl
        have hu' : u = v ++ (name ++ w4) ++ q4.rest := by
          rw [← hq,hrest,hv,← hq2,hlead3.2,hlead4.2]
          simp
        cases empty with
        | true =>
          refine safe_pure ⟨v ++ (name ++ w4),⟨Nat.le_of_not_lt hd,.inl ⟨name,htag⟩⟩,?_⟩
          simp
        | false =>
          have hnested : ∀ q : Cursor, q.rest.head? = some '<' → ¬ LeftOpen (d + 1) q.rest →
              Safe q n (fun _ w _ => IsElement (d + 1) w) (parseElement n (d + 1) q) := by
            intro q hq hnot
            refine (ih (s := []) (by omega) rfl isBlank_nil (fun c hc => ?_) hnot).mono fun _ w _ _ ⟨e,he,hwe⟩ => hwe ▸ he
            rw [hq] at hc
            obtain rfl := Option.some.inj hc
            decide
          refine (safe_children hnested (fun hc => hopen ?_) fun c u' hcu hc hlo => hopen ?_).bind
            fun _ w5 q5 _ ⟨c,e,hc,he,hw5⟩ => safe_pure ?_
          · rw [hu']
            exact .here (Nat.le_of_not_lt hd) htag hc
          · rw [hu',hcu]
            exact .within (Nat.le_of_not_lt hd) htag hc hlo
          · refine ⟨v ++ (name ++ w4) ++ w5,⟨Nat.le_of_not_lt hd,.inr ⟨name,_,c,e,htag,hc,he,by rw [hw5]⟩⟩,?_⟩
            simp

/-- A text whose root element is left open so. -/
def IsLeftOpen (text : List Char) : Prop := ∃ w u, Prolog w ∧ LeftOpen 0 u ∧ text = w ++ u

theorem safe_parseDocument {text : List Char} (hopen : ¬ IsLeftOpen text) :
    Safe ⟨[],text⟩ n (fun _ w q => q.rest = [] ∧ IsDocument w) (parseDocument n ⟨[],text⟩) := by
  rw [parseDocument]
  refine safe_skipProlog.bind fun _ w q hlead ⟨hw,hq⟩ => ?_
  have hnot : ¬ LeftOpen 0 q.rest := fun hlo => hopen ⟨w,q.rest,hw,hlo,hlead.2⟩
  refine (safe_parseElement (parseDepthCap + 1) (by omega) (s := []) rfl isBlank_nil hq hnot).bind
    fun root v q2 _ ⟨e,he,hv⟩ => ?_
  refine safe_skipWhitespace.bind fun _ s q3 _ ⟨hs,_⟩ => ?_
  rw [remaining_bind]
  split
  · exact safe_failed _
  · rename_i hnil
    refine safe_pure ⟨not_not.mp hnil,w,e,s,hw,he,hs,?_⟩
    rw [hv]
    simp

end Reads

end Dwara.Dataplane.SoapEnvelope
