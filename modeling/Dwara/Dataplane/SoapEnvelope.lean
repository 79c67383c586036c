import Dwara.Dataplane.TranslationGraphql
import Dwara.Dataplane.WafDecode
import Dwara.Lib.TextCursor

/-! SOAP envelopes read as XML: the parser moves a byte cursor over the text, and goes round a
loop for the prolog, for the attributes of a tag and for the children of an element. -/

namespace Dwara.Dataplane.SoapEnvelope
open Dwara.Lib Dwara.Lib.Text Dwara.Lib.TextCursor Dwara.Lib.Utf8
open TranslationGraphql (TranslationError asChar)
open WafDecode (fromStrRadix)

/-- The deepest an element may be nested. -/
def parseDepthCap : ℕ := 256

mutual

/-- An element, its name with the prefix. -/
inductive XmlElement where
  | mk (name : List Char) (attributes : List (List Char × List Char)) (children : List XmlChild)

inductive XmlChild where
  | element (e : XmlElement)
  | text (t : List Char)

end

/-- The part of a qualified name behind its last colon. -/
def localName (qname : List Char) : List Char :=
  match splitLast ':' qname with
  | some (_,part) => part
  | none => qname

section Entities

/-- The character of an entity, without its ampersand and its semicolon. -/
def decodeOneEntity (entity : Bytes) : Option Char :=
  if entity = encode "lt".toList then some '<'
  else if entity = encode "gt".toList then some '>'
  else if entity = encode "amp".toList then some '&'
  else if entity = encode "quot".toList then some '"'
  else if entity = encode "apos".toList then some '\''
  else
    let code := match entity.map asChar with
      | '#' :: 'x' :: hex => fromStrRadix 16 (2 ^ 32) hex
      | '#' :: dec => fromStrRadix 10 (2 ^ 32) dec
      | _ => none
    code.bind fun code => if code.isValidChar then some (Char.ofNat code) else none

/-- The bytes of a text with its entities decoded; every other byte becomes a character. -/
def decodeBytes : Bytes → List Char
  | [] => []
  | b :: bs =>
    if b = '&'.toUInt8 then
      match bs.span (· ≠ ';'.toUInt8) with
      | (_, []) => '&' :: decodeBytes bs
      | (entity, _ :: _) =>
        match decodeOneEntity entity with
        | some c => c :: decodeBytes (bs.drop (entity.length + 1))
        | none => '&' :: decodeBytes bs
    else asChar b :: decodeBytes bs
termination_by bs => bs.length
decreasing_by
  · simp
  · simp only [List.length_drop,List.length_cons]
    omega
  · simp
  · simp

def decodeEntities (cs : List Char) : List Char := if '&' ∈ cs then decodeBytes (encode cs) else cs

end Entities

section XmlParser

abbrev XmlParser := Parser TranslationError

def invalidBody {α : Type} (m : String) : XmlParser α := fail (.invalidBody m)

def skipWhitespace (n : ℕ) : XmlParser Unit := skipWhile isWhitespace n

/-- Moves the cursor behind the first occurrence of a pattern. -/
def skipPast (pattern : List Char) (message : String) : XmlParser Unit := do
  let rest ← remaining
  match find pattern rest with
  | some stop => TextCursor.advance (stop + utf8Len pattern)
  | none => invalidBody message

/-- One lap over the prolog. -/
def prologLap (n : ℕ) : XmlParser (Unit ⊕ Unit) := do
  skipWhitespace n
  let rest ← remaining
  if "<?".toList.isPrefixOf rest then
    skipPast "?>".toList "unterminated processing instruction"
    pure (.inl ())
  else if "<!--".toList.isPrefixOf rest then
    skipPast "-->".toList "unterminated comment"
    pure (.inl ())
  else if "<!".toList.isPrefixOf rest then invalidBody "DTDs and entity declarations are not supported"
  else pure (.inr ())

def skipProlog (n : ℕ) : XmlParser Unit := loop (fun _ => prologLap n) n ()

/-- Of an XML name: letters, digits, `_`, `:`, `-` and `.`. -/
def isNameChar (c : Char) : Bool := c.isAlphanum || c = '_' || c = ':' || c = '-' || c = '.'

/-- The text between two places. -/
def between (start stop : Cursor) : List Char := stop.read.drop start.read.length

def parseName (n : ℕ) : XmlParser (List Char) := do
  let start ← cursor
  skipWhile isNameChar n
  let stop ← cursor
  if stop.pos = start.pos then invalidBody "expected an XML name" else pure (between start stop)

def parseAttribute (n : ℕ) : XmlParser (List Char × List Char) := do
  let name ← parseName n
  skipWhitespace n
  if (← peek) ≠ some '=' then invalidBody "expected '=' after an attribute name"
  else
    TextCursor.advance 1
    skipWhitespace n
    match ← peek with
    | none => invalidBody "expected a quoted attribute value"
    | some quote =>
      if quote ≠ '"' ∧ quote ≠ '\'' then invalidBody "attribute value must be quoted"
      else
        TextCursor.advance 1
        let start ← cursor
        skipWhile (· ≠ quote) n
        let stop ← cursor
        match ← peek with
        | some _ =>
          TextCursor.advance 1
          pure (name,decodeEntities (between start stop))
        | none => invalidBody "unterminated attribute value"

/-- One lap over the attributes of a start tag; at its end, whether an element without children
ends with it. -/
def attributeLap (n : ℕ) (attributes : List (List Char × List Char)) :
    XmlParser (List (List Char × List Char) ⊕ List (List Char × List Char) × Bool) := do
  skipWhitespace n
  match ← peek with
  | none => invalidBody "unterminated element start tag"
  | some c =>
    if c = '/' then
      TextCursor.advance 1
      if (← peek) ≠ some '>' then invalidBody "expected '>' to close an empty element"
      else
        TextCursor.advance 1
        pure (.inr (attributes,true))
    else if c = '>' then
      TextCursor.advance 1
      pure (.inr (attributes,false))
    else
      let attr ← parseAttribute n
      pure (.inl (attributes ++ [attr]))

/-- The end tag of an element, from behind its `</`. -/
def closingTag (n : ℕ) (name : List Char) : XmlParser Unit := do
  let closeName ← parseName n
  if localName closeName ≠ localName name then
    invalidBody ("mismatched closing tag: expected </" ++ String.ofList name ++ ">, got </" ++ String.ofList closeName ++ ">")
  else
    skipWhitespace n
    if (← peek) ≠ some '>' then invalidBody "expected '>' to close the end tag" else TextCursor.advance 1

def cdataSection : XmlParser (List Char) := do
  let rest ← remaining
  match find "]]>".toList rest with
  | none => invalidBody "unterminated CDATA section"
  | some stop =>
    match slice 9 stop rest with
    | none => crash
    | some cdata =>
      TextCursor.advance (stop + 3)
      pure cdata

/-- One lap over the children of an element; `element` reads an element within it. -/
def childLap (n : ℕ) (name : List Char) (element : XmlParser XmlElement) (children : List XmlChild) :
    XmlParser (List XmlChild ⊕ List XmlChild) := do
  let rest ← remaining
  if "</".toList.isPrefixOf rest then
    TextCursor.advance 2
    closingTag n name
    pure (.inr children)
  else if "<!--".toList.isPrefixOf rest then
    skipPast "-->".toList "unterminated comment"
    pure (.inl children)
  else if "<![CDATA[".toList.isPrefixOf rest then
    let cdata ← cdataSection
    pure (.inl (children ++ [.text cdata]))
  else if rest.head? = some '<' then
    let el ← element
    pure (.inl (children ++ [.element el]))
  else
    let text := rest.takeWhile (· ≠ '<')
    if text = [] then pure (.inl children)
    else
      TextCursor.advance (utf8Len text)
      pure (.inl (children ++ [.text (decodeEntities text)]))

/-- An element, with all its children. -/
def parseElement (n depth : ℕ) : XmlParser XmlElement :=
  if _h : depth > parseDepthCap then
    invalidBody ("xml element nesting exceeds the parser depth cap (" ++ toString parseDepthCap ++ ")")
  else do
    skipWhitespace n
    if (← peek) ≠ some '<' then invalidBody "expected '<' to start an element"
    else
      TextCursor.advance 1
      let name ← parseName n
      let (attributes,empty) ← loop (attributeLap n) n []
      if empty then pure (.mk name attributes [])
      else
        let children ← loop (childLap n name (parseElement n (depth + 1))) n []
        pure (.mk name attributes children)
termination_by parseDepthCap + 1 - depth
decreasing_by omega

end XmlParser

/-- The bytes up to the first that is no character's. -/
def validUpTo : Bytes → ℕ
  | [] => 0
  | b :: bs =>
    match decodeChar (b :: bs) with
    | some c => c.utf8Size + validUpTo (bs.drop (c.utf8Size - 1))
    | none => 0
termination_by bs => bs.length

/-- What is wrong with bytes that are not UTF-8. -/
def utf8Error (input : Bytes) : String :=
  let start := validUpTo input
  let bad := input.drop start
  if bad.length = invalidLen bad ∧ bad.head?.any fun b => 0xc2 ≤ b && b ≤ 0xf4 then
    "incomplete utf-8 byte sequence from index " ++ toString start
  else "invalid utf-8 sequence of " ++ toString (invalidLen bad) ++ " bytes from index " ++ toString start

/-- The document around the root element: a prolog before it, and white space behind it. -/
def parseDocument (n : ℕ) : XmlParser XmlElement := do
  skipProlog n
  let root ← parseElement n 0
  skipWhitespace n
  if (← remaining) ≠ [] then invalidBody "trailing content after the root element" else pure root

/-- An envelope read from its bytes, each loop going round at most `n` times. -/
def parseEnvelope (n : ℕ) (input : Bytes) : Parsed TranslationError XmlElement :=
  if IsValid input then parseDocument n ⟨[],fromUtf8Lossy input⟩
  else ⟨[],.failed (.invalidBody ("soap body is not valid UTF-8: " ++ utf8Error input))⟩

end Dwara.Dataplane.SoapEnvelope
