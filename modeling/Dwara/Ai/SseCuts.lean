import Dwara.Ai.SseHoles

/-! Streams whose chunks end within characters: the events are those of the whole text exactly
when no event carries a character that is cut. -/

namespace Dwara.Ai
open Dwara.Lib Piece

/-- Some event carries the character: the events are others with another one, not ASCII, in its
place. -/
def Carried (text : List Char) (i : ℕ) : Prop := ∃ d : Char, 128 ≤ d.toNat ∧ eventFrames (text.set i d) ≠ eventFrames text

section Fillings
variable {σ σ' : Filling} {pieces : List Piece}

theorem fill_congr (h : ∀ i, hole i ∈ pieces → σ.fills i = σ'.fills i) : fill σ pieces = fill σ' pieces := by
  induction pieces with
  | nil => rfl
  | cons piece pieces ih =>
    have hrest := ih fun i hi => h i (List.mem_cons_of_mem _ hi)
    cases piece with
    | char c => rw [fill_char,fill_char,hrest]
    | hole i => rw [fill_hole,fill_hole,hrest,h i List.mem_cons_self]

theorem length_fill_le (hle : ∀ i, (σ.fills i).length ≤ (σ'.fills i).length) : (fill σ pieces).length ≤ (fill σ' pieces).length := by
  induction pieces with
  | nil => exact le_refl _
  | cons piece pieces ih =>
    cases piece with
    | char c => exact Nat.succ_le_succ ih
    | hole i =>
      rw [fill_hole,fill_hole,List.length_append,List.length_append]
      exact Nat.add_le_add (hle i) ih

/-- One text of two fillings, the one in no place longer: the two fill its holes alike. -/
theorem fills_eq_of_fill (hle : ∀ i, (σ.fills i).length ≤ (σ'.fills i).length) (h : fill σ pieces = fill σ' pieces) {i : ℕ}
    (hi : hole i ∈ pieces) : σ.fills i = σ'.fills i := by
  induction pieces with
  | nil => cases hi
  | cons piece pieces ih =>
    cases piece with
    | char c =>
      rcases List.mem_cons.mp hi with heq | hi
      · cases heq
      · exact ih (List.cons.inj h).2 hi
    | hole j =>
      rw [fill_hole,fill_hole] at h
      have hlen := congrArg List.length h
      rw [List.length_append,List.length_append] at hlen
      have hj := hle j
      have hrest : (fill σ pieces).length ≤ (fill σ' pieces).length := length_fill_le hle
      obtain ⟨hfill,hpieces⟩ := List.append_inj h (by omega)
      rcases List.mem_cons.mp hi with heq | hi
      · cases heq
        exact hfill
      · exact ih hpieces hi

/-- A hole in the name or the data of an event. -/
def Shape.Has (shape : Shape) (i : ℕ) : Prop := hole i ∈ shape.data ∨ ∃ e, shape.event = some e ∧ hole i ∈ e

theorem Shape.fill_congr {shape : Shape} (h : ∀ i, shape.Has i → σ.fills i = σ'.fills i) : shape.fill σ = shape.fill σ' := by
  rw [Shape.fill,Shape.fill,Ai.fill_congr fun i hi => h i (.inl hi)]
  congr 1
  cases hevent : shape.event with
  | none => rfl
  | some e => exact congrArg (fun text => some (String.ofList text)) (Ai.fill_congr fun i hi => h i (.inr ⟨e,hevent,hi⟩))

theorem Shape.fills_eq_of_fill {shape : Shape} (hle : ∀ i, (σ.fills i).length ≤ (σ'.fills i).length) (h : shape.fill σ = shape.fill σ')
    {i : ℕ} (hi : shape.Has i) : σ.fills i = σ'.fills i := by
  obtain ⟨hevent,hdata⟩ := SseFrame.mk.inj h
  rcases hi with hi | ⟨e,he,hi⟩
  · exact Ai.fills_eq_of_fill hle (String.ofList_injective hdata) hi
  · rw [he] at hevent
    exact Ai.fills_eq_of_fill hle (String.ofList_injective (Option.some.inj hevent)) hi

end Fillings

/-- A text with holes in the place of some of its characters. -/
def skeleton (cut : ℕ → Bool) : ℕ → List Char → List Piece
  | _, [] => []
  | i, c :: cs => (if cut i then hole i else char c) :: skeleton cut (i + 1) cs

theorem fill_skeleton {σ : Filling} {cut : ℕ → Bool} {k : ℕ} {text : List Char} {parts : List (List Char)} (hlength : parts.length = text.length)
    (h : ∀ i c r, text[i]? = some c → parts[i]? = some r → r = if cut (k + i) then σ.fills (k + i) else [c]) :
    fill σ (skeleton cut k text) = parts.flatten := by
  induction text generalizing k parts with
  | nil =>
    rw [List.length_nil] at hlength
    rw [List.length_eq_zero_iff.mp hlength]
    rfl
  | cons c text ih =>
    cases parts with
    | nil => cases hlength
    | cons part parts =>
      have hpart := h 0 c part rfl rfl
      have hrest := ih (k := k + 1) (Nat.succ.inj hlength) fun i d r hd hr => by
        rw [Nat.add_assoc,Nat.add_comm 1 i]
        exact h (i + 1) d r (by rw [List.getElem?_cons_succ]; exact hd) (by rw [List.getElem?_cons_succ]; exact hr)
      rw [skeleton,List.flatten_cons,← hrest,hpart,Nat.add_zero]
      cases cut k with
      | true => rfl
      | false => rfl

/-- Whether a text can fill a hole. -/
def fillsHole (cs : List Char) : Bool := !cs.isEmpty && cs.all fun c => 128 ≤ c.toNat

theorem fillsHole_iff {cs : List Char} : fillsHole cs ↔ cs ≠ [] ∧ ∀ c ∈ cs, 128 ≤ c.toNat := by
  rw [fillsHole,Bool.and_eq_true,Bool.not_eq_true',List.all_eq_true,List.isEmpty_eq_false_iff]
  exact and_congr_right fun _ => forall₂_congr fun _ _ => decide_eq_true_iff

/-- Fillings from any texts; a text that can fill no hole is left out. -/
def fillingOf (f : ℕ → List Char) : Filling where
  fills i := if fillsHole (f i) then f i else ['\uFFFD']
  ne_nil i := by
    split
    · rename_i h
      exact (fillsHole_iff.mp h).1
    · exact List.cons_ne_nil _ _
  high i c hc := by
    split at hc
    · rename_i h
      exact (fillsHole_iff.mp h).2 c hc
    · rw [List.mem_singleton.mp hc]
      decide

theorem fillingOf_eq {f : ℕ → List Char} {i : ℕ} {r : List Char} (hf : f i = r) (hne : r ≠ []) (hhigh : ∀ c ∈ r, 128 ≤ c.toNat) :
    (fillingOf f).fills i = r := by
  subst hf
  exact if_pos (fillsHole_iff.mpr ⟨hne,hhigh⟩)

theorem fillingOf_congr {f g : ℕ → List Char} {i : ℕ} (h : f i = g i) : (fillingOf f).fills i = (fillingOf g).fills i := by
  rw [fillingOf,fillingOf]
  dsimp only
  rw [h]

/-- The characters of a text, each for the hole with its number. -/
def charsOf (text : List Char) : Filling := fillingOf fun i => text[i]?.toList

theorem charsOf_eq {text : List Char} {i : ℕ} {c : Char} (hi : text[i]? = some c) (hc : 128 ≤ c.toNat) : (charsOf text).fills i = [c] := by
  refine fillingOf_eq (by rw [hi]; rfl) (List.cons_ne_nil _ _) fun d hd => ?_
  rw [List.mem_singleton.mp hd]
  exact hc

/-- What is read for each character, for the hole with its number. -/
def received (reads : List (List Char)) : Filling := fillingOf fun i => reads[i]?.getD []

theorem received_eq {reads : List (List Char)} {i : ℕ} {r : List Char} (hr : reads[i]? = some r) (hlong : 2 ≤ r.length)
    (hhigh : ∀ d ∈ r, 128 ≤ d.toNat) : (received reads).fills i = r := by
  refine fillingOf_eq (by rw [hr]; rfl) ?_ hhigh
  rintro rfl
  exact absurd hlong (by decide)

/-- A text that differs from another in the places of holes only. -/
theorem fill_charsOf {cut : ℕ → Bool} {text text' : List Char} (hlength : text'.length = text.length)
    (h : ∀ i c c', text[i]? = some c → text'[i]? = some c' → if cut i then 128 ≤ c'.toNat else c' = c) :
    fill (charsOf text') (skeleton cut 0 text) = text' := by
  have hfill : fill (charsOf text') (skeleton cut 0 text) = (text'.map fun c => [c]).flatten :=
    fill_skeleton (by rw [List.length_map,hlength]) fun i c r hi hr => by
      rw [List.getElem?_map] at hr
      obtain ⟨c',hc',rfl⟩ := Option.map_eq_some_iff.mp hr
      have hcut := h i c c' hi hc'
      rw [Nat.zero_add]
      split at hcut
      · rename_i hyes
        rw [if_pos hyes,charsOf_eq hc' hcut]
      · rename_i hno
        rw [if_neg hno,hcut]
  rw [hfill]
  exact (List.flatMap_def ..).symm.trans (List.flatMap_singleton' text')

theorem exists_other (c : Char) : ∃ d : Char, 128 ≤ d.toNat ∧ d ≠ c := by
  by_cases hc : c = '\uFFFD'
  · exact ⟨'\u00E9',by decide,by rw [hc]; decide⟩
  · exact ⟨'\uFFFD',by decide,fun h => hc h.symm⟩

theorem length_charsOf (text : List Char) (i : ℕ) : ((charsOf text).fills i).length = 1 := by
  rw [charsOf,fillingOf]
  dsimp only
  split
  · rename_i h
    cases hi : text[i]? with
    | none => rw [hi] at h; exact absurd rfl (fillsHole_iff.mp h).1
    | some c => rfl
  · rfl

theorem lt_of_isCut {chunks : List (List UInt8)} {text : List Char} {i : ℕ} (h : Utf8.IsCut chunks text i) : i < text.length := by
  obtain ⟨k,-,hlt,hlt'⟩ := h
  by_contra hle
  rw [List.take_of_length_le (by omega)] at hlt
  rw [List.take_of_length_le (by omega)] at hlt'
  omega

namespace SseDecoder

section Stream
variable {chunks : List (List UInt8)} {text : List Char}

theorem fill_charsOf_self {cut : ℕ → Bool} (hwide : ∀ i c, text[i]? = some c → cut i → 128 ≤ c.toNat) :
    fill (charsOf text) (skeleton cut 0 text) = text := by
  refine fill_charsOf rfl fun i c c' hi hi' => ?_
  cases hi.symm.trans hi'
  split
  · rename_i hyes
    exact hwide i c hi hyes
  · rfl

/-- The text with one character replaced, as its holes are filled. -/
theorem fill_set {cut : ℕ → Bool} (hwide : ∀ i c, text[i]? = some c → cut i → 128 ≤ c.toNat) {j : ℕ} (hj : cut j) {d : Char}
    (hd : 128 ≤ d.toNat) : fill (charsOf (text.set j d)) (skeleton cut 0 text) = text.set j d := by
  refine fill_charsOf (List.length_set ..) fun i c c' hi hi' => ?_
  rw [List.getElem?_set] at hi'
  by_cases hij : j = i
  · subst hij
    rw [if_pos rfl] at hi'
    split at hi'
    · cases hi'
      rw [if_pos hj]
      exact hd
    · cases hi'
  · rw [if_neg hij] at hi'
    cases hi.symm.trans hi'
    split
    · rename_i hcut
      exact hwide i c hi hcut
    · rfl

section Received
variable {reads : List (List Char)} (hlength : reads.length = text.length)
  (hall : ∀ i c r, text[i]? = some c → reads[i]? = some r → Utf8.ReadAs chunks text i c r)
include hlength hall

theorem exists_read {i : ℕ} {c : Char} (hi : text[i]? = some c) : ∃ r, reads[i]? = some r ∧ Utf8.ReadAs chunks text i c r := by
  have hlt : i < reads.length := by
    rw [hlength]
    exact (List.getElem?_eq_some_iff.mp hi).1
  exact ⟨_,List.getElem?_eq_getElem hlt,hall i c _ hi (List.getElem?_eq_getElem hlt)⟩

theorem wide_of_isCut {i : ℕ} {c : Char} (hi : text[i]? = some c) (hcut : Utf8.IsCut chunks text i) : 128 ≤ c.toNat := by
  obtain ⟨r,-,has⟩ := exists_read hlength hall hi
  exact has.wide hcut

/-- Where no chunk ends, what is received is what the text has. -/
theorem received_eq_charsOf {i : ℕ} (huncut : ¬ Utf8.IsCut chunks text i) : (charsOf text).fills i = (received reads).fills i := by
  refine fillingOf_congr ?_
  cases hi : text[i]? with
  | none =>
    have hnone : reads[i]? = none := List.getElem?_eq_none (hlength ▸ List.getElem?_eq_none_iff.mp hi)
    rw [hnone]
    rfl
  | some c =>
    obtain ⟨r,hr,has⟩ := exists_read hlength hall hi
    rw [hr,has.uncut huncut]
    rfl

/-- Where a chunk ends, what is received is longer. -/
theorem two_le_length_received {i : ℕ} (hcut : Utf8.IsCut chunks text i) : 2 ≤ ((received reads).fills i).length := by
  obtain ⟨r,hr,has⟩ := exists_read hlength hall (List.getElem?_eq_getElem (lt_of_isCut hcut))
  rw [received_eq hr (has.long hcut) (has.high hcut)]
  exact has.long hcut

theorem length_charsOf_le (i : ℕ) : ((charsOf text).fills i).length ≤ ((received reads).fills i).length := by
  by_cases hcut : Utf8.IsCut chunks text i
  · rw [length_charsOf]
    exact Nat.le_trans (by decide) (two_le_length_received hlength hall hcut)
  · rw [received_eq_charsOf hlength hall hcut]

theorem fill_received {cut : ℕ → Bool} (hcut : ∀ i, cut i ↔ Utf8.IsCut chunks text i) : fill (received reads) (skeleton cut 0 text) = reads.flatten := by
  refine fill_skeleton hlength fun i c r hi hr => ?_
  have has := hall i c r hi hr
  rw [Nat.zero_add]
  split
  · rename_i hyes
    exact (received_eq hr (has.long ((hcut i).mp hyes)) (has.high ((hcut i).mp hyes))).symm
  · rename_i hno
    exact has.uncut fun hyes => hno ((hcut i).mpr hyes)

end Received

/-- A stream of UTF-8 gives the events of its text, however it is cut, exactly when none of them
carries a character that a chunk ends within. -/
theorem decode_iff_uncarried (hstream : chunks.flatten = Utf8.encode text) :
    decode [] chunks = eventFrames text ↔ ∀ i, Utf8.IsCut chunks text i → ¬ Carried text i := by
  classical
  obtain ⟨reads,hlength,hreads,hall⟩ := Utf8.read_chars hstream
  let cut : ℕ → Bool := fun i => decide (Utf8.IsCut chunks text i)
  have hcut : ∀ i, cut i ↔ Utf8.IsCut chunks text i := fun i => decide_eq_true_iff
  have hwide : ∀ i c, text[i]? = some c → cut i → 128 ≤ c.toNat := fun i c hi hyes => wide_of_isCut hlength hall hi ((hcut i).mp hyes)
  obtain ⟨shapes,hshapes⟩ := eventFrames_fill (skeleton cut 0 text)
  have hframes : eventFrames text = shapes.map (·.fill (charsOf text)) := by rw [← hshapes,fill_charsOf_self hwide]
  rw [decode_eq [] chunks findEventEnd_nil,List.nil_append,hreads,← fill_received hlength hall hcut,hshapes,hframes]
  constructor
  · rintro heq j hj ⟨d,hd,hne⟩
    -- the events are as long as they are sent, so they have no hole that is cut
    have huncut : ∀ shape ∈ shapes, ∀ i, shape.Has i → ¬ Utf8.IsCut chunks text i := by
      intro shape hshape i hi hyes
      have hsame := Shape.fills_eq_of_fill (length_charsOf_le hlength hall) (List.map_inj_left.mp heq shape hshape).symm hi
      have hlong := two_le_length_received hlength hall hyes
      rw [← hsame,length_charsOf] at hlong
      omega
    refine hne ?_
    rw [← fill_set hwide ((hcut j).mpr hj) hd,hshapes,hframes]
    refine List.map_congr_left fun shape hshape => Shape.fill_congr fun i hi => fillingOf_congr ?_
    have hij : j ≠ i := by
      rintro rfl
      exact huncut shape hshape j hi hj
    rw [List.getElem?_set_ne hij]
  · intro huncarried
    refine List.map_congr_left fun shape hshape => (Shape.fill_congr fun i hi => received_eq_charsOf hlength hall fun hyes => ?_).symm
    -- another character in the place of a cut one would be in the event too
    have hlt := lt_of_isCut hyes
    have hget := List.getElem?_eq_getElem hlt
    obtain ⟨d,hd,hother⟩ := exists_other text[i]
    refine huncarried i hyes ⟨d,hd,fun hsame => hother ?_⟩
    rw [← fill_set hwide ((hcut i).mpr hyes) hd,hshapes,hframes] at hsame
    have hfills := Shape.fills_eq_of_fill (fun k => by rw [length_charsOf,length_charsOf]) (List.map_inj_left.mp hsame shape hshape) hi
    rw [charsOf_eq hget (hwide i _ hget ((hcut i).mpr hyes)),charsOf_eq (List.getElem?_set_self hlt) hd] at hfills
    exact (List.cons.inj hfills).1

end Stream

/-- A character cut within a comment. -/
theorem decode_iff_uncarried_comment :
    decode [] [[0x3a,0x20,0xc3],[0xa9,0x0a],[0x0d,0x0a,0x64,0x61,0x74,0x61,0x3a,0x78,0x0d],[0x0a,0x0d,0x0a]] =
        eventFrames ": é\n\r\ndata:x\r\n\r\n".toList ↔
      ∀ i, Utf8.IsCut [[0x3a,0x20,0xc3],[0xa9,0x0a],[0x0d,0x0a,0x64,0x61,0x74,0x61,0x3a,0x78,0x0d],[0x0a,0x0d,0x0a]]
        ": é\n\r\ndata:x\r\n\r\n".toList i → ¬ Carried ": é\n\r\ndata:x\r\n\r\n".toList i :=
  decode_iff_uncarried (by decide +kernel)

/-- A character cut by the end of a chunk reaches the frame as two replacement characters. -/
theorem decode_cut :
    [[0x64,0x61,0x74,0x61,0x3a,0x20,0xc3],[0xa9,0x0a,0x0a]].flatten = Utf8.encode "data: é\n\n".toList ∧
      decode [] [[0x64,0x61,0x74,0x61,0x3a,0x20,0xc3],[0xa9,0x0a,0x0a]] = [⟨none,"\uFFFD\uFFFD"⟩] ∧
      eventFrames "data: é\n\n".toList = [⟨none,"é"⟩] := by
  decide +kernel

end SseDecoder

end Dwara.Ai
