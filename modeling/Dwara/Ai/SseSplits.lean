import Dwara.Lib.Pieces
import Dwara.Ai.Sse
import Dwara.Lib.Utf8Chunks

/-! What the decoder returns for a stream that arrives in pieces. -/

namespace Dwara.Ai
open Dwara.Lib

/-- The text split at its blank lines. -/
def blocks : List Char → List (List Char)
  | [] => [[]]
  | '\r' :: '\n' :: '\r' :: '\n' :: rest => [] :: blocks rest
  | '\n' :: '\n' :: rest => [] :: blocks rest
  | '\n' :: '\r' :: '\n' :: rest => [] :: blocks rest
  | c :: cs => (blocks cs).modifyHead (c :: ·)

/-- The events of a whole text. -/
def eventFrames (text : List Char) : List SseFrame := (blocks text).filterMap parseFrame

section Char
variable {c : Char} {cs : List Char} (hcrlf : ∀ u, c = '\r' → cs = '\n' :: '\r' :: '\n' :: u → False)
  (hlf : ∀ u, c = '\n' → cs = '\n' :: u → False) (hlfcr : ∀ u, c = '\n' → cs = '\r' :: '\n' :: u → False)
include hcrlf hlf hlfcr

theorem findEventEnd_cons : findEventEnd (c :: cs) = (findEventEnd cs).map fun found => (c :: found.1,found.2) := by
  rw [findEventEnd]
  · exact hcrlf
  · exact hlf
  · exact hlfcr

theorem blocks_cons : blocks (c :: cs) = (blocks cs).modifyHead (c :: ·) := by
  rw [blocks]
  · exact hcrlf
  · exact hlf
  · exact hlfcr

end Char

theorem blocks_of_none {cs : List Char} (h : findEventEnd cs = none) : blocks cs = [cs] := by
  induction cs using findEventEnd.induct with
  | case1 => rfl
  | case2 rest => rw [findEventEnd] at h; cases h
  | case3 rest => rw [findEventEnd] at h; cases h
  | case4 rest => rw [findEventEnd] at h; cases h
  | case5 c cs hcrlf hlf hlfcr ih =>
    rw [findEventEnd_cons hcrlf hlf hlfcr,Option.map_eq_none_iff] at h
    rw [blocks_cons hcrlf hlf hlfcr,ih h,List.modifyHead_cons]

theorem blocks_of_some {cs text rest : List Char} (h : findEventEnd cs = some (text,rest)) : blocks cs = text :: blocks rest := by
  induction cs using findEventEnd.induct generalizing text with
  | case1 => cases h
  | case2 rest' => rw [findEventEnd] at h; cases h; rw [blocks]
  | case3 rest' => rw [findEventEnd] at h; cases h; rw [blocks]
  | case4 rest' => rw [findEventEnd] at h; cases h; rw [blocks]
  | case5 c cs hcrlf hlf hlfcr ih =>
    rw [findEventEnd_cons hcrlf hlf hlfcr] at h
    obtain ⟨found,hfound,heq⟩ := Option.map_eq_some_iff.mp h
    cases heq
    rw [blocks_cons hcrlf hlf hlfcr,ih hfound,List.modifyHead_cons]

/-- A blank line that is found stays where it is found when more text arrives. -/
theorem findEventEnd_append {cs text rest : List Char} (h : findEventEnd cs = some (text,rest)) (more : List Char) :
    findEventEnd (cs ++ more) = some (text,rest ++ more) := by
  induction cs using findEventEnd.induct generalizing text with
  | case1 => cases h
  | case2 rest' => rw [findEventEnd] at h; cases h; rfl
  | case3 rest' => rw [findEventEnd] at h; cases h; rfl
  | case4 rest' => rw [findEventEnd] at h; cases h; rfl
  | case5 c cs hcrlf hlf hlfcr ih =>
    rw [findEventEnd_cons hcrlf hlf hlfcr] at h
    obtain ⟨found,hfound,heq⟩ := Option.map_eq_some_iff.mp h
    cases heq
    -- a spelling that starts at `c` and ends in `more` leaves `cs` too short to have one
    have hcrlf' : ∀ u, c = '\r' → cs ++ more = '\n' :: '\r' :: '\n' :: u → False := by
      rintro u rfl hu
      rcases cs with _ | ⟨a,_ | ⟨b,_ | ⟨d,cs⟩⟩⟩
      · cases hfound
      · obtain ⟨rfl,-⟩ := List.cons.inj hu
        cases hfound
      · obtain ⟨rfl,htail⟩ := List.cons.inj hu
        obtain ⟨rfl,-⟩ := List.cons.inj htail
        cases hfound
      · obtain ⟨rfl,htail⟩ := List.cons.inj hu
        obtain ⟨rfl,htail₂⟩ := List.cons.inj htail
        obtain ⟨rfl,-⟩ := List.cons.inj htail₂
        exact hcrlf cs rfl rfl
    have hlf' : ∀ u, c = '\n' → cs ++ more = '\n' :: u → False := by
      rintro u rfl hu
      rcases cs with _ | ⟨a,cs⟩
      · cases hfound
      · obtain ⟨rfl,-⟩ := List.cons.inj hu
        exact hlf cs rfl rfl
    have hlfcr' : ∀ u, c = '\n' → cs ++ more = '\r' :: '\n' :: u → False := by
      rintro u rfl hu
      rcases cs with _ | ⟨a,_ | ⟨b,cs⟩⟩
      · cases hfound
      · obtain ⟨rfl,-⟩ := List.cons.inj hu
        cases hfound
      · obtain ⟨rfl,htail⟩ := List.cons.inj hu
        obtain ⟨rfl,-⟩ := List.cons.inj htail
        exact hlfcr cs rfl rfl
    rw [List.cons_append,findEventEnd_cons hcrlf' hlf' hlfcr',ih hfound,Option.map_some]

theorem drain_of_none {buf : List Char} (h : findEventEnd buf = none) : drain buf = ([],buf) := by
  rw [drain]
  split
  · rfl
  · rename_i hsome
    cases h.symm.trans hsome

theorem drain_of_some {buf text rest : List Char} (h : findEventEnd buf = some (text,rest)) :
    drain buf = ((parseFrame text).toList ++ (drain rest).1,(drain rest).2) := by
  rw [drain]
  split
  · rename_i hnone
    cases h.symm.trans hnone
  · rename_i hsome
    cases h.symm.trans hsome
    rfl

/-- Draining early loses nothing that a later drain would return. -/
theorem drain_append (buf more : List Char) :
    drain (buf ++ more) = ((drain buf).1 ++ (drain ((drain buf).2 ++ more)).1,(drain ((drain buf).2 ++ more)).2) := by
  induction buf using drain.induct with
  | case1 buf hnone => rw [drain_of_none hnone,List.nil_append]
  | case2 buf text rest hsome ih => rw [drain_of_some hsome,drain_of_some (findEventEnd_append hsome more),ih,List.append_assoc]

theorem lineField_of_blank {line : List Char} (h : ∀ c ∈ line, Text.isWhitespace c) {field : String × String}
    (hfield : lineField line = some field) : field.1 ≠ "data" := by
  have hstripped : ∀ c ∈ (if line.getLast? = some '\r' then line.dropLast else line), Text.isWhitespace c := by
    intro c hc
    split at hc
    · exact h c (List.dropLast_subset line hc)
    · exact h c hc
  rw [lineField] at hfield
  generalize (if line.getLast? = some '\r' then line.dropLast else line) = stripped at hstripped hfield
  split at hfield
  · cases hfield
  · rw [Text.splitOnceAt_eq_none fun hmem => absurd (hstripped ':' hmem) (by decide)] at hfield
    cases hfield
    intro hdata
    have hname : String.ofList stripped = "data" := hdata
    have hd : 'd' ∈ stripped := by
      rw [← String.toList_ofList (l := stripped),hname]
      decide
    exact absurd (hstripped 'd' hd) (by decide)

theorem isWhitespace_of_trimChars {cs : List Char} (h : Text.trimChars cs = []) : ∀ c ∈ cs, Text.isWhitespace c := by
  rw [Text.trimChars,List.reverse_eq_nil_iff,List.dropWhile_eq_nil_iff] at h
  have hleft : cs.dropWhile Text.isWhitespace = [] := by
    cases hdrop : cs.dropWhile Text.isWhitespace with
    | nil => rfl
    | cons c rest =>
      have hne : cs.dropWhile Text.isWhitespace ≠ [] := hdrop ▸ List.cons_ne_nil _ _
      have hhead := List.head_dropWhile_not Text.isWhitespace hne
      have hmem := h _ (List.mem_reverse.mpr (List.head_mem hne))
      rw [hhead] at hmem
      cases hmem
  exact List.dropWhile_eq_nil_iff.mp hleft

theorem parseFrame_of_blank {text : List Char} (h : ∀ c ∈ text, Text.isWhitespace c) : parseFrame text = none := by
  rw [parseFrame]
  refine if_pos (List.filterMap_eq_nil_iff.mpr fun field hfield => if_neg ?_)
  obtain ⟨line,hline,hsome⟩ := List.mem_filterMap.mp hfield
  exact lineField_of_blank (fun c hc => h c (Joined.mem_of_mem_splitOn hline hc).1) hsome

namespace SseDecoder

/-- A rest that is blank has no event in it, so leaving it out loses none. -/
theorem finish_eq (buf : List Char) : finish buf = (parseFrame buf).toList := by
  rw [finish]
  split
  · rename_i hblank
    rw [parseFrame_of_blank (isWhitespace_of_trimChars hblank),Option.toList_none]
  · rfl

/-- The frames of a run: one chunk after the other, and what is left at the stream's end. -/
def decode (buf : List Char) : List (List UInt8) → List SseFrame
  | [] => finish buf
  | chunk :: chunks => (push buf chunk).1 ++ decode (push buf chunk).2 chunks

private theorem filterMap_cons_eq (text : List Char) (texts : List (List Char)) :
    (text :: texts).filterMap parseFrame = (parseFrame text).toList ++ texts.filterMap parseFrame := by
  rw [List.filterMap_cons]
  cases parseFrame text with
  | none => rfl
  | some frame => rfl

theorem drain_finish (buf : List Char) : (drain buf).1 ++ finish (drain buf).2 = eventFrames buf := by
  induction buf using drain.induct with
  | case1 buf hnone =>
    rw [drain_of_none hnone,List.nil_append,finish_eq,eventFrames,blocks_of_none hnone,filterMap_cons_eq]
    rw [List.filterMap_nil,List.append_nil]
  | case2 buf text rest hsome ih =>
    rw [drain_of_some hsome,List.append_assoc,ih,eventFrames,eventFrames,blocks_of_some hsome,filterMap_cons_eq]

theorem findEventEnd_drain (buf : List Char) : findEventEnd (drain buf).2 = none := by
  induction buf using drain.induct with
  | case1 buf hnone => rw [drain_of_none hnone]; exact hnone
  | case2 buf text rest hsome ih => rw [drain_of_some hsome]; exact ih

theorem eventFrames_append (buf more : List Char) : eventFrames (buf ++ more) = (drain buf).1 ++ eventFrames ((drain buf).2 ++ more) := by
  rw [← drain_finish (buf ++ more),drain_append,List.append_assoc,drain_finish]

/-- A run returns the events of the text its chunks are read as. -/
theorem decode_eq (buf : List Char) (chunks : List (List UInt8)) (hbuf : findEventEnd buf = none) :
    decode buf chunks = eventFrames (buf ++ chunks.flatMap Utf8.fromUtf8Lossy) := by
  induction chunks generalizing buf with
  | nil => rw [decode,List.flatMap_nil,List.append_nil,← drain_finish,drain_of_none hbuf,List.nil_append]
  | cons chunk chunks ih =>
    rw [decode,push,ih _ (findEventEnd_drain _),← eventFrames_append,List.flatMap_cons,List.append_assoc]

theorem findEventEnd_nil : findEventEnd [] = none := rfl

end SseDecoder

end Dwara.Ai
