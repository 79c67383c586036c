import Dwara.Ai.SseSplits
import Mathlib.Data.List.Induction

/-! Texts with holes that no line end, colon or space fills: the events are where they are
whatever fills the holes. -/

namespace Dwara.Ai
open Dwara.Lib

/-- A character of a text, or a hole with a number. -/
inductive Piece where
  | char (c : Char)
  | hole (i : ℕ)

namespace Piece

/-- What fills the holes: each by some characters, none of them ASCII. -/
structure Filling where
  fills : ℕ → List Char
  ne_nil : ∀ i, fills i ≠ []
  high : ∀ i, ∀ c ∈ fills i, 128 ≤ c.toNat

def fill (σ : Filling) (pieces : List Piece) : List Char :=
  pieces.flatMap fun
    | char c => [c]
    | hole i => σ.fills i

variable {σ : Filling} {pieces : List Piece}

theorem fill_nil : fill σ [] = [] := rfl

theorem fill_char (c : Char) : fill σ (char c :: pieces) = c :: fill σ pieces := rfl

theorem fill_hole (i : ℕ) : fill σ (hole i :: pieces) = σ.fills i ++ fill σ pieces := rfl

theorem fill_single_hole (i : ℕ) : fill σ [hole i] = σ.fills i := by rw [fill_hole,fill_nil,List.append_nil]

theorem fill_append (pieces' : List Piece) : fill σ (pieces ++ pieces') = fill σ pieces ++ fill σ pieces' := List.flatMap_append

theorem Filling.ne_of_mem (σ : Filling) {i : ℕ} {c d : Char} (hc : c ∈ σ.fills i) (hd : d.toNat < 128) : c ≠ d := by
  rintro rfl
  exact absurd (σ.high i c hc) (Nat.not_le.mpr hd)

/-- An ASCII character that stands first is no hole's. -/
theorem eq_char_of_fill {c : Char} {cs : List Char} (h : fill σ pieces = c :: cs) (hc : c.toNat < 128) :
    ∃ rest, pieces = char c :: rest ∧ fill σ rest = cs := by
  cases pieces with
  | nil => cases h
  | cons piece pieces =>
    cases piece with
    | char d =>
      rw [fill_char] at h
      obtain ⟨rfl,hcs⟩ := List.cons.inj h
      exact ⟨pieces,rfl,hcs⟩
    | hole i =>
      rw [fill_hole] at h
      cases hi : σ.fills i with
      | nil => exact absurd hi (σ.ne_nil i)
      | cons d ds =>
        rw [hi] at h
        obtain ⟨rfl,-⟩ := List.cons.inj h
        exact absurd rfl (σ.ne_of_mem (hi ▸ List.mem_cons_self) hc)

theorem fill_eq_nil (h : fill σ pieces = []) : pieces = [] := by
  cases pieces with
  | nil => rfl
  | cons piece pieces =>
    cases piece with
    | char d => cases h
    | hole i => exact absurd (List.append_eq_nil_iff.mp h).1 (σ.ne_nil i)

/-- A text of ASCII characters is there whatever fills the holes, or never. -/
theorem fill_eq_or (pieces : List Piece) {cs : List Char} (h : ∀ c ∈ cs, c.toNat < 128) :
    (∀ σ, fill σ pieces = cs) ∨ ∀ σ, fill σ pieces ≠ cs := by
  induction cs generalizing pieces with
  | nil =>
    cases pieces with
    | nil => exact .inl fun _ => rfl
    | cons piece pieces => exact .inr fun σ hnil => nomatch fill_eq_nil hnil
  | cons c cs ih =>
    by_cases hpieces : ∃ rest, pieces = char c :: rest
    · obtain ⟨rest,rfl⟩ := hpieces
      rcases ih rest fun d hd => h d (List.mem_cons_of_mem _ hd) with hall | hnone
      · exact .inl fun σ => by rw [fill_char,hall σ]
      · exact .inr fun σ heq => hnone σ (List.cons.inj heq).2
    · refine .inr fun σ heq => hpieces ?_
      obtain ⟨rest,hrest,-⟩ := eq_char_of_fill heq (h c List.mem_cons_self)
      exact ⟨rest,hrest⟩

end Piece

open Piece

private theorem modifyHead_nil_append (texts : List (List Char)) : texts.modifyHead ([] ++ ·) = texts := by
  cases texts with
  | nil => rfl
  | cons text texts => rfl

theorem blocks_high {cs : List Char} (h : ∀ c ∈ cs, 128 ≤ c.toNat) (rest : List Char) :
    blocks (cs ++ rest) = (blocks rest).modifyHead (cs ++ ·) := by
  induction cs with
  | nil => exact (modifyHead_nil_append _).symm
  | cons c cs ih =>
    have hc : ∀ d : Char, d.toNat < 128 → c ≠ d := by
      rintro d hd rfl
      exact absurd (h c List.mem_cons_self) (Nat.not_le.mpr hd)
    rw [List.cons_append,blocks_cons (fun _ hcr => absurd hcr (hc '\r' (by decide))) (fun _ hlf => absurd hlf (hc '\n' (by decide)))
      (fun _ hlf => absurd hlf (hc '\n' (by decide))),ih fun d hd => h d (List.mem_cons_of_mem _ hd),List.modifyHead_modifyHead]
    rfl

theorem map_modifyHead_fill (σ : Filling) (piece : Piece) (bs : List (List Piece)) :
    (bs.map (fill σ)).modifyHead (fill σ [piece] ++ ·) = (bs.modifyHead (piece :: ·)).map (fill σ) := by
  cases bs with
  | nil => rfl
  | cons b bs =>
    rw [List.map_cons,List.modifyHead_cons,List.modifyHead_cons,List.map_cons,← fill_append]
    rfl

theorem blocks_fill (pieces : List Piece) : ∃ bs : List (List Piece), ∀ σ, blocks (fill σ pieces) = bs.map (fill σ) := by
  induction hn : pieces.length using Nat.strong_induction_on generalizing pieces with
  | _ n ih =>
    subst hn
    by_cases hcrlf : ∃ rest, pieces = char '\r' :: char '\n' :: char '\r' :: char '\n' :: rest
    · obtain ⟨rest,rfl⟩ := hcrlf
      obtain ⟨bs,hbs⟩ := ih rest.length (by simp only [List.length_cons]; omega) rest rfl
      refine ⟨[] :: bs,fun σ => ?_⟩
      rw [fill_char,fill_char,fill_char,fill_char,blocks,hbs]
      rfl
    by_cases hlf : ∃ rest, pieces = char '\n' :: char '\n' :: rest
    · obtain ⟨rest,rfl⟩ := hlf
      obtain ⟨bs,hbs⟩ := ih rest.length (by simp only [List.length_cons]; omega) rest rfl
      refine ⟨[] :: bs,fun σ => ?_⟩
      rw [fill_char,fill_char,blocks,hbs]
      rfl
    by_cases hlfcr : ∃ rest, pieces = char '\n' :: char '\r' :: char '\n' :: rest
    · obtain ⟨rest,rfl⟩ := hlfcr
      obtain ⟨bs,hbs⟩ := ih rest.length (by simp only [List.length_cons]; omega) rest rfl
      refine ⟨[] :: bs,fun σ => ?_⟩
      rw [fill_char,fill_char,fill_char,blocks,hbs]
      rfl
    cases pieces with
    | nil => exact ⟨[[]],fun σ => rfl⟩
    | cons piece rest =>
      obtain ⟨bs,hbs⟩ := ih rest.length (by simp only [List.length_cons]; omega) rest rfl
      refine ⟨bs.modifyHead (piece :: ·),fun σ => ?_⟩
      rw [← map_modifyHead_fill,← hbs]
      cases piece with
      | hole i => rw [fill_hole,blocks_high (σ.high i),fill_single_hole]
      | char c =>
        refine blocks_cons (fun u hc hu => hcrlf ?_) (fun u hc hu => hlf ?_) (fun u hc hu => hlfcr ?_)
        · obtain ⟨r₁,rfl,h₁⟩ := eq_char_of_fill hu (by decide)
          obtain ⟨r₂,rfl,h₂⟩ := eq_char_of_fill h₁ (by decide)
          obtain ⟨r₃,rfl,-⟩ := eq_char_of_fill h₂ (by decide)
          exact ⟨r₃,by rw [hc]⟩
        · obtain ⟨r₁,rfl,-⟩ := eq_char_of_fill hu (by decide)
          exact ⟨r₁,by rw [hc]⟩
        · obtain ⟨r₁,rfl,h₁⟩ := eq_char_of_fill hu (by decide)
          obtain ⟨r₂,rfl,-⟩ := eq_char_of_fill h₁ (by decide)
          exact ⟨r₂,by rw [hc]⟩

theorem splitOn_high {cs : List Char} (h : ∀ c ∈ cs, 128 ≤ c.toNat) (rest : List Char) :
    (cs ++ rest).splitOn '\n' = (rest.splitOn '\n').modifyHead (cs ++ ·) := by
  induction cs with
  | nil => exact (modifyHead_nil_append _).symm
  | cons c cs ih =>
    have hc : (c == '\n') = false := beq_eq_false_iff_ne.mpr fun heq => absurd (h c List.mem_cons_self) (by rw [heq]; decide)
    rw [List.cons_append,List.splitOn_cons_eq_if_modifyHead,hc,if_neg Bool.false_ne_true,ih fun d hd => h d (List.mem_cons_of_mem _ hd),
      List.modifyHead_modifyHead]
    rfl

theorem splitOn_fill (pieces : List Piece) : ∃ lines : List (List Piece), ∀ σ, (fill σ pieces).splitOn '\n' = lines.map (fill σ) := by
  induction pieces with
  | nil => exact ⟨[[]],fun σ => rfl⟩
  | cons piece pieces ih =>
    obtain ⟨lines,hlines⟩ := ih
    cases piece with
    | hole i =>
      refine ⟨lines.modifyHead (hole i :: ·),fun σ => ?_⟩
      rw [← map_modifyHead_fill,← hlines,fill_hole,splitOn_high (σ.high i),fill_single_hole]
    | char c =>
      by_cases hc : (c == '\n') = true
      · refine ⟨[] :: lines,fun σ => ?_⟩
        rw [fill_char,List.splitOn_cons_eq_if_modifyHead,if_pos hc,hlines]
        rfl
      · refine ⟨lines.modifyHead (char c :: ·),fun σ => ?_⟩
        rw [← map_modifyHead_fill,← hlines,fill_char,List.splitOn_cons_eq_if_modifyHead,if_neg hc]
        rfl

/-- A line's end is cut off in the same place. -/
theorem stripped_fill (line : List Piece) :
    ∃ line' : List Piece, ∀ σ, (if (fill σ line).getLast? = some '\r' then (fill σ line).dropLast else fill σ line) = fill σ line' := by
  induction line using List.reverseRecOn with
  | nil => exact ⟨[],fun σ => rfl⟩
  | append_singleton front piece _ =>
    cases piece with
    | char c =>
      by_cases hc : c = '\r'
      · refine ⟨front,fun σ => ?_⟩
        rw [fill_append,fill_char,fill_nil,List.getLast?_concat,if_pos (congrArg some hc),List.dropLast_concat]
      · refine ⟨front ++ [char c],fun σ => if_neg ?_⟩
        rw [fill_append,fill_char,fill_nil,List.getLast?_concat]
        exact fun h => hc (Option.some.inj h)
    | hole i =>
      refine ⟨front ++ [hole i],fun σ => if_neg ?_⟩
      rw [fill_append,fill_single_hole]
      intro h
      have hmem := List.mem_of_getLast? (List.getLast?_append_of_ne_nil (fill σ front) (σ.ne_nil i) ▸ h)
      exact σ.ne_of_mem hmem (by decide) rfl

theorem splitOnceAt_high {cs : List Char} (h : ∀ c ∈ cs, 128 ≤ c.toNat) (rest : List Char) :
    Text.splitOnceAt [':'] (cs ++ rest) = (Text.splitOnceAt [':'] rest).map fun found => (cs ++ found.1,found.2) := by
  refine Text.splitOnceAt_append (fun hc => ?_) rest
  exact absurd (h ':' hc) (by decide)

/-- The name and the value stand around the same colon. -/
theorem splitOnceAt_fill (line : List Piece) :
    ∃ parts : Option (List Piece × List Piece), ∀ σ, Text.splitOnceAt [':'] (fill σ line) = parts.map fun ps => (fill σ ps.1,fill σ ps.2) := by
  induction line with
  | nil => exact ⟨none,fun σ => rfl⟩
  | cons piece line ih =>
    obtain ⟨parts,hparts⟩ := ih
    cases piece with
    | hole i =>
      refine ⟨parts.map fun ps => (hole i :: ps.1,ps.2),fun σ => ?_⟩
      rw [fill_hole,splitOnceAt_high (σ.high i),hparts,Option.map_map,Option.map_map]
      rfl
    | char c =>
      by_cases hc : c = ':'
      · refine ⟨some ([],line),fun σ => ?_⟩
        subst hc
        rfl
      · refine ⟨parts.map fun ps => (char c :: ps.1,ps.2),fun σ => ?_⟩
        have hnot : ¬ ':' ∈ [c] := fun hmem => hc (List.mem_singleton.mp hmem).symm
        have happend : Text.splitOnceAt [':'] ([c] ++ fill σ line) = _ := Text.splitOnceAt_append hnot (fill σ line)
        rw [List.singleton_append] at happend
        rw [fill_char,happend,hparts,Option.map_map,Option.map_map]
        rfl

/-- A field with holes in its name and its value. -/
def fillField (σ : Filling) (field : List Piece × List Piece) : String × String := (String.ofList (fill σ field.1),String.ofList (fill σ field.2))

theorem value_fill (value : List Piece) :
    ∃ value' : List Piece, ∀ σ, (if (fill σ value).head? = some ' ' then (fill σ value).tail else fill σ value) = fill σ value' := by
  by_cases h : ∃ rest, value = char ' ' :: rest
  · obtain ⟨rest,rfl⟩ := h
    exact ⟨rest,fun σ => rfl⟩
  · refine ⟨value,fun σ => if_neg fun hhead => h ?_⟩
    obtain ⟨tail,htail⟩ := List.head?_eq_some_iff.mp hhead
    obtain ⟨rest,hrest,-⟩ := eq_char_of_fill htail (by decide)
    exact ⟨rest,hrest⟩

theorem lineField_fill (line : List Piece) : ∃ field : Option (List Piece × List Piece), ∀ σ, lineField (fill σ line) = field.map (fillField σ) := by
  obtain ⟨line',hline'⟩ := stripped_fill line
  by_cases hempty : line' = []
  · refine ⟨none,fun σ => ?_⟩
    rw [lineField,hline',hempty]
    rfl
  by_cases hcomment : ∃ rest, line' = char ':' :: rest
  · obtain ⟨rest,hrest⟩ := hcomment
    refine ⟨none,fun σ => ?_⟩
    rw [lineField,hline',hrest]
    exact if_pos (.inr rfl)
  obtain ⟨parts,hparts⟩ := splitOnceAt_fill line'
  have hfield : ∀ σ, ¬ (fill σ line' = [] ∨ (fill σ line').head? = some ':') := by
    rintro σ (hnil | hhead)
    · exact hempty (fill_eq_nil hnil)
    · obtain ⟨tail,htail⟩ := List.head?_eq_some_iff.mp hhead
      obtain ⟨rest,hrest,-⟩ := eq_char_of_fill htail (by decide)
      exact hcomment ⟨rest,hrest⟩
  cases parts with
  | none =>
    refine ⟨some (line',[]),fun σ => ?_⟩
    rw [lineField,hline',if_neg (hfield σ),hparts]
    rfl
  | some ps =>
    obtain ⟨value,hvalue⟩ := value_fill ps.2
    refine ⟨some (ps.1,value),fun σ => ?_⟩
    rw [lineField,hline',if_neg (hfield σ),hparts]
    show some (_,_) = _
    rw [hvalue]
    rfl

theorem fields_fill (lines : List (List Piece)) :
    ∃ fields : List (List Piece × List Piece), ∀ σ, (lines.map (fill σ)).filterMap lineField = fields.map (fillField σ) := by
  induction lines with
  | nil => exact ⟨[],fun σ => rfl⟩
  | cons line lines ih =>
    obtain ⟨fields,hfields⟩ := ih
    obtain ⟨field,hfield⟩ := lineField_fill line
    cases field with
    | none => exact ⟨fields,fun σ => by rw [List.map_cons,List.filterMap_cons_none (hfield σ),hfields]⟩
    | some field => exact ⟨field :: fields,fun σ => by rw [List.map_cons,List.filterMap_cons_some (hfield σ),hfields,List.map_cons]⟩

/-- The values of the fields of one name. -/
def named (name : String) (fields : List (String × String)) : List String := fields.filterMap fun f => if f.1 = name then some f.2 else none

theorem named_cons_of_eq {name : String} {field : String × String} (h : field.1 = name) (fields : List (String × String)) :
    named name (field :: fields) = field.2 :: named name fields := by
  rw [named,List.filterMap_cons,if_pos h]
  rfl

theorem named_cons_of_ne {name : String} {field : String × String} (h : field.1 ≠ name) (fields : List (String × String)) :
    named name (field :: fields) = named name fields := by
  rw [named,List.filterMap_cons,if_neg h]
  rfl

theorem named_fill (fields : List (List Piece × List Piece)) {name : String} (hname : name.toList.all fun c => c.toNat < 128) :
    ∃ values : List (List Piece), ∀ σ, named name (fields.map (fillField σ)) = values.map fun v => String.ofList (fill σ v) := by
  induction fields with
  | nil => exact ⟨[],fun σ => rfl⟩
  | cons field fields ih =>
    obtain ⟨values,hvalues⟩ := ih
    rcases fill_eq_or field.1 fun c hc => of_decide_eq_true (List.all_eq_true.mp hname c hc) with hall | hnone
    · refine ⟨field.2 :: values,fun σ => ?_⟩
      have heq : (fillField σ field).1 = name := by rw [fillField,hall σ,String.ofList_toList]
      rw [List.map_cons,List.map_cons,← hvalues,named_cons_of_eq heq]
      rfl
    · refine ⟨values,fun σ => ?_⟩
      have hne : (fillField σ field).1 ≠ name := by
        intro heq
        refine hnone σ ?_
        rw [← heq,fillField,String.toList_ofList]
      rw [List.map_cons,← hvalues,named_cons_of_ne hne]

/-- The lines of a value, joined. -/
theorem intercalate_fill (values : List (List Piece)) :
    ∃ joined : List Piece, ∀ σ, String.intercalate "\n" (values.map fun v => String.ofList (fill σ v)) = String.ofList (fill σ joined) := by
  induction values with
  | nil => exact ⟨[],fun σ => String.intercalate_nil⟩
  | cons value values ih =>
    obtain ⟨joined,hjoined⟩ := ih
    by_cases hvalues : values = []
    · refine ⟨value,fun σ => ?_⟩
      rw [hvalues]
      exact String.intercalate_singleton
    · refine ⟨value ++ char '\n' :: joined,fun σ => ?_⟩
      rw [List.map_cons,String.intercalate_cons_of_ne_nil fun hnil => hvalues (List.map_eq_nil_iff.mp hnil),hjoined,fill_append,fill_char,
        String.ofList_append,← List.singleton_append,String.ofList_append,String.append_assoc]

/-- An event with holes. -/
structure Shape where
  event : Option (List Piece)
  data : List Piece

def Shape.fill (shape : Shape) (σ : Filling) : SseFrame := ⟨shape.event.map fun e => String.ofList (Piece.fill σ e),String.ofList (Piece.fill σ shape.data)⟩

theorem parseFrame_fill (block : List Piece) : ∃ shape : Option Shape, ∀ σ, parseFrame (fill σ block) = shape.map (·.fill σ) := by
  obtain ⟨lines,hlines⟩ := splitOn_fill block
  obtain ⟨fields,hfields⟩ := fields_fill lines
  obtain ⟨datas,hdatas⟩ := named_fill fields (show "data".toList.all (fun c => c.toNat < 128) by decide)
  obtain ⟨events,hevents⟩ := named_fill fields (show "event".toList.all (fun c => c.toNat < 128) by decide)
  obtain ⟨joined,hjoined⟩ := intercalate_fill datas
  have hparse : ∀ σ, parseFrame (fill σ block) =
      if datas.map (fun v => String.ofList (fill σ v)) = [] then none
      else some ⟨(events.map fun v => String.ofList (fill σ v)).getLast?,String.ofList (fill σ joined)⟩ := by
    intro σ
    rw [← hdatas,← hevents,parseFrame,hlines,hfields]
    refine if_congr Iff.rfl rfl ?_
    rw [← hjoined,← hdatas]
    rfl
  by_cases hempty : datas = []
  · refine ⟨none,fun σ => ?_⟩
    rw [hparse,hempty]
    rfl
  · refine ⟨some ⟨events.getLast?,joined⟩,fun σ => ?_⟩
    rw [hparse,if_neg fun hnil => hempty (List.map_eq_nil_iff.mp hnil),List.getLast?_map]
    rfl

/-- The events of a text with holes, filled as its holes are. -/
theorem eventFrames_fill (pieces : List Piece) : ∃ shapes : List Shape, ∀ σ, eventFrames (fill σ pieces) = shapes.map (·.fill σ) := by
  obtain ⟨bs,hbs⟩ := blocks_fill pieces
  have hshapes : ∃ shapes : List Shape, ∀ σ, (bs.map (fill σ)).filterMap parseFrame = shapes.map (·.fill σ) := by
    clear hbs
    induction bs with
    | nil => exact ⟨[],fun σ => rfl⟩
    | cons b bs ih =>
      obtain ⟨shapes,hshapes⟩ := ih
      obtain ⟨shape,hshape⟩ := parseFrame_fill b
      cases shape with
      | none => exact ⟨shapes,fun σ => by rw [List.map_cons,List.filterMap_cons_none (hshape σ),hshapes]⟩
      | some shape => exact ⟨shape :: shapes,fun σ => by rw [List.map_cons,List.filterMap_cons_some (hshape σ),hshapes,List.map_cons]⟩
  obtain ⟨shapes,hshapes⟩ := hshapes
  exact ⟨shapes,fun σ => by rw [eventFrames,hbs,hshapes]⟩

end Dwara.Ai
