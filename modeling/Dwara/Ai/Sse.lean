import Dwara.Lib.Text
import Dwara.Lib.Utf8

/-! Incremental decoding of a `text/event-stream`. -/

namespace Dwara.Ai
open Dwara.Lib

structure SseFrame where
  event : Option String
  data : String
  deriving DecidableEq, Repr

/-- The text before the first blank line, and what follows the blank line. A buffer that ends
within one has none. -/
def findEventEnd : List Char → Option (List Char × List Char)
  | [] => none
  | '\r' :: '\n' :: '\r' :: '\n' :: rest => some ([],rest)
  | '\n' :: '\n' :: rest => some ([],rest)
  | '\n' :: '\r' :: '\n' :: rest => some ([],rest)
  | c :: cs => (findEventEnd cs).map fun found => (c :: found.1,found.2)

theorem length_findEventEnd {cs text rest : List Char} (h : findEventEnd cs = some (text,rest)) : rest.length < cs.length := by
  induction cs using findEventEnd.induct generalizing text with
  | case1 => cases h
  | case2 rest' =>
    rw [findEventEnd] at h
    cases h
    simp only [List.length_cons]
    omega
  | case3 rest' =>
    rw [findEventEnd] at h
    cases h
    simp only [List.length_cons]
    omega
  | case4 rest' =>
    rw [findEventEnd] at h
    cases h
    simp only [List.length_cons]
    omega
  | case5 c cs hcrlf hlf hlfcr ih =>
    rw [findEventEnd] at h
    · obtain ⟨found,hfound,heq⟩ := Option.map_eq_some_iff.mp h
      cases heq
      have hlt := ih hfound
      rw [List.length_cons]
      omega
    · exact hcrlf
    · exact hlf
    · exact hlfcr

/-- A line's field and its value; none for an empty line and for a comment. -/
def lineField (line : List Char) : Option (String × String) :=
  let line := if line.getLast? = some '\r' then line.dropLast else line
  if line = [] ∨ line.head? = some ':' then none
  else
    match Text.splitOnceAt [':'] line with
    | some (name,value) => some (String.ofList name,String.ofList (if value.head? = some ' ' then value.tail else value))
    | none => some (String.ofList line,"")

/-- One event; none without a data line. -/
def parseFrame (text : List Char) : Option SseFrame :=
  let fields := (text.splitOn '\n').filterMap lineField
  let data := fields.filterMap fun f => if f.1 = "data" then some f.2 else none
  if data = [] then none
  else some ⟨(fields.filterMap fun f => if f.1 = "event" then some f.2 else none).getLast?,String.intercalate "\n" data⟩

/-- Every complete event of the buffer, and what is left of it. -/
def drain (buf : List Char) : List SseFrame × List Char :=
  match _h : findEventEnd buf with
  | none => ([],buf)
  | some (text,rest) => ((parseFrame text).toList ++ (drain rest).1,(drain rest).2)
termination_by buf.length
decreasing_by all_goals exact length_findEventEnd ‹_›

namespace SseDecoder

def push (buf : List Char) (bytes : List UInt8) : List SseFrame × List Char := drain (buf ++ Utf8.fromUtf8Lossy bytes)

/-- A last event without its blank line. -/
def finish (buf : List Char) : List SseFrame := if Text.trimChars buf = [] then [] else (parseFrame buf).toList

end SseDecoder

end Dwara.Ai
