import Dwara.Lib.GraphqlValue
import Dwara.Lib.Utf8

/-! REST requests translated to GraphQL: the query template of a route with the fields of the
body written into it. -/

namespace Dwara.Dataplane.TranslationGraphql
open Dwara.Lib

inductive TranslationError where
  | invalidBody (m : String)
  | translationFailed (m : String)
  deriving DecidableEq, Repr

def isNameStart (b : UInt8) : Bool := (65 ≤ b && b ≤ 90) || (97 ≤ b && b ≤ 122) || b == 95

def isNameChar (b : UInt8) : Bool := isNameStart b || (48 ≤ b && b ≤ 57)

def dollar : UInt8 := 36

/-- A byte of a template, or a reference in it. -/
inductive Piece where
  | byte (b : UInt8)
  | reference (name : List UInt8)
  deriving DecidableEq, Repr

/-- A template as it is scanned, for its references and for their substitution alike. -/
def scan : List UInt8 → List Piece
  | [] => []
  | b :: bs =>
    if b = dollar ∧ bs.head?.any isNameStart then .reference (bs.takeWhile isNameChar) :: scan (bs.dropWhile isNameChar)
    else .byte b :: scan bs
termination_by bs => bs.length
decreasing_by
  · have hle := List.length_dropWhile_le isNameChar bs
    simp only [List.length_cons]
    omega
  · simp

/-- A byte as the character of its number. -/
def asChar (b : UInt8) : Char := Char.ofNat b.toNat

def asText (bs : List UInt8) : String := String.ofList (bs.map asChar)

def Piece.name : Piece → Option String
  | byte _ => none
  | reference name => some (asText name)

/-- The names a template refers to, in the order of their first references. -/
def referencedVariables (template : String) : List String :=
  ((scan (Utf8.encode template.toList)).filterMap Piece.name).eraseDups

def resolve (body : List (String × Json)) (name : String) : Except TranslationError (String × Json) :=
  match body.lookup name with
  | some value => .ok (name,value)
  | none => .error (.translationFailed ("graphql template references $" ++ name ++ " but the request body has no such field"))

def collectVariables (template : String) (body : List (String × Json)) : Except TranslationError (List (String × Json)) :=
  (referencedVariables template).mapM (resolve body)

/-- A character of a string literal. -/
def escape (c : Char) : List Char :=
  if c = '"' then ['\\','"'] else if c = '\\' then ['\\','\\']
  else if c = '\n' then ['\\','n'] else if c = '\r' then ['\\','r'] else if c = '\t' then ['\\','t']
  else if c.toNat < 32 then ['\\','u','0','0',Nat.digitChar (c.toNat / 16),Nat.digitChar (c.toNat % 16)]
  else [c]

mutual

/-- The fields of an object stand in the order of its map. -/
def jsonToGraphqlLiteral : Json → List Char
  | .null => "null".toList
  | .bool b => (toString b).toList
  | .int n => (toString n).toList
  | .float text => text.toList
  | .string s => '"' :: s.toList.flatMap escape ++ ['"']
  | .array items => '[' :: [',',' '].intercalate (itemLiterals items) ++ [']']
  | .object fields => '\x7b' :: [',',' '].intercalate (fieldLiterals fields) ++ ['\x7d']

def itemLiterals : List Json → List (List Char)
  | [] => []
  | v :: items => jsonToGraphqlLiteral v :: itemLiterals items

def fieldLiterals : List (String × Json) → List (List Char)
  | [] => []
  | (key,v) :: fields => (key.toList ++ ':' :: ' ' :: jsonToGraphqlLiteral v) :: fieldLiterals fields

end

def Piece.text (vars : List (String × Json)) : Piece → List Char
  | byte b => [asChar b]
  | reference name =>
    match vars.lookup (asText name) with
    | some value => jsonToGraphqlLiteral value
    | none => '$' :: (asText name).toList

def substituteTemplate (template : String) (vars : List (String × Json)) : String :=
  String.ofList ((scan (Utf8.encode template.toList)).flatMap (Piece.text vars))

structure TranslatedRequest where
  method : String
  path : String
  contentType : String
  query : String
  vars : List (String × Json)

namespace TranslatedRequest

def body (r : TranslatedRequest) : String := (Json.object [("query",.string r.query),("variables",.object r.vars)]).toText

end TranslatedRequest

structure GraphqlTranslator where
  queryTemplate : String
  upstreamPath : String
  deriving DecidableEq, Repr

/-- A REST request in front of a GraphQL upstream, by what its body parses to. -/
def GraphqlTranslator.translateRequest (translator : GraphqlTranslator) (body : Except String Json) :
    Except TranslationError TranslatedRequest :=
  match body with
  | .error e => .error (.invalidBody ("expected a JSON body: " ++ e))
  | .ok json =>
    match json.asObject with
    | none => .error (.invalidBody "expected a JSON object for the GraphQL variables")
    | some obj =>
      (collectVariables translator.queryTemplate obj).map fun vars =>
        ⟨"POST",translator.upstreamPath,"application/graphql+json",substituteTemplate translator.queryTemplate vars,vars⟩

end Dwara.Dataplane.TranslationGraphql
