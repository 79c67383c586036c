import Dwara.Lib.JsonPath
import Dwara.Lib.Json
import Dwara.Lib.Text
import Dwara.Lib.Utf8
import Dwara.Lib.Codec

/-! JSON and protobuf: a message descriptor read at run time, the wire bytes of a JSON
object under it, and the JSON object of wire bytes. -/

namespace Dwara.Dataplane.GrpcWeb
open Dwara.Lib (Json)
open Dwara.Lib.Text (afterStart)
open Dwara.Lib.Varint (Bytes)

section Descriptors

inductive Label where
  | optional
  | required
  | repeated
  deriving DecidableEq, Repr

inductive FieldType where
  | double
  | float
  | int64
  | uint64
  | int32
  | fixed64
  | fixed32
  | bool
  | string
  | message
  | bytes
  | uint32
  | enum
  | sfixed32
  | sfixed64
  | sint32
  | sint64
  | other (code : ℤ)
  deriving DecidableEq, Repr

structure FieldDescriptorProto where
  jsonName : Option String
  number : Option ℤ
  label : Option Label
  type : Option FieldType
  typeName : Option String
  deriving DecidableEq, Repr

namespace FieldDescriptorProto
variable (field : FieldDescriptorProto)

/-- The number on the wire: the 32-bit one without a sign. -/
def wireNumber : ℕ := (field.number.getD 0 % 2 ^ 32).toNat

def ty : FieldType := field.type.getD .message

def isRepeated : Bool := field.label.getD .optional = .repeated

end FieldDescriptorProto

structure DescriptorProto where
  name : Option String
  field : List FieldDescriptorProto
  nestedType : List DescriptorProto

structure FileDescriptorProto where
  package : Option String
  messageType : List DescriptorProto

mutual

/-- The message of a dotted name, here or nested. -/
def findMessageRecursive (target start : String) : DescriptorProto → Option DescriptorProto
  | ⟨name,field,nestedType⟩ =>
    let full := start ++ name.getD ""
    if full = target then some ⟨name,field,nestedType⟩ else findNested target (full ++ ".") nestedType

def findNested (target start : String) : List DescriptorProto → Option DescriptorProto
  | [] => none
  | msg :: msgs =>
    match findMessageRecursive target start msg with
    | some found => some found
    | none => findNested target start msgs

end

def resolveMessage (fds : List FileDescriptorProto) (fullName : String) : Option DescriptorProto :=
  fds.findSome? fun fd =>
    let package := fd.package.getD ""
    findNested ((afterStart "." fullName).getD fullName) (if package = "" then "" else package ++ ".") fd.messageType

end Descriptors

/-- What is computed elsewhere: base64, and the bytes of floating-point numbers. -/
structure Codecs where
  base64Encode : Bytes → String
  base64Decode : String → Except String Bytes
  f32Bytes : Json → Option Bytes
  f64Bytes : Json → Option Bytes
  f32Json : Bytes → Json
  f64Json : Bytes → Json

/-- A number as a word without a sign. -/
def toWord (bits : ℕ) (n : ℤ) : ℕ := (n % 2 ^ bits).toNat

/-- The low bits of a word as a number with a sign. -/
def ofWord (bits v : ℕ) : ℤ := (v % 2 ^ bits : ℤ).bmod (2 ^ bits)

def asI64 : Json → Option ℤ
  | .int n => if -2 ^ 63 ≤ n ∧ n < 2 ^ 63 then some n else none
  | _ => none

def asU64 (v : Json) : Option ℕ := v.asU64.map (·.toNat)

def wireVarint : ℕ := 0
def wire64Bit : ℕ := 1
def wireLengthDelimited : ℕ := 2
def wire32Bit : ℕ := 5

def writeTag (fieldNumber wireType : ℕ) : Bytes := Lib.Varint.write (fieldNumber <<< 3 ||| wireType)

def lengthDelimited (bytes : Bytes) : Bytes := Lib.Varint.write bytes.length ++ bytes

section Transcoding
variable (codecs : Codecs) (fds : List FileDescriptorProto)

section Encode

/-- `nested` encodes a message within. -/
def encodeSingleField (nested : Json → DescriptorProto → Except String Bytes) (field : FieldDescriptorProto) (value : Json) :
    Except String Bytes :=
  let number := field.wireNumber
  let named := "field " ++ toString number
  match field.ty with
  | .string =>
    match value.asStr with
    | some s => .ok (writeTag number wireLengthDelimited ++ lengthDelimited (Lib.Utf8.encode s.toList))
    | none => .error (named ++ " expected a string")
  | .bytes =>
    match value.asStr with
    | some s =>
      match codecs.base64Decode s with
      | .ok decoded => .ok (writeTag number wireLengthDelimited ++ lengthDelimited decoded)
      | .error e => .error (named ++ " invalid base64: " ++ e)
    | none => .error (named ++ " expected a base64 string for bytes")
  | .bool =>
    match value.asBool with
    | some b => .ok (writeTag number wireVarint ++ Lib.Varint.write (if b then 1 else 0))
    | none => .error (named ++ " expected a bool")
  | .int32 | .sint32 | .sfixed32 =>
    match asI64 value with
    | some n => .ok (writeTag number wireVarint ++ Lib.Varint.write (toWord 32 (n.bmod (2 ^ 32))))
    | none => .error (named ++ " expected an integer")
  | .int64 | .sint64 | .sfixed64 =>
    match asI64 value with
    | some n => .ok (writeTag number wireVarint ++ Lib.Varint.write (toWord 64 n))
    | none => .error (named ++ " expected an integer")
  | .uint32 | .fixed32 =>
    match asU64 value with
    | some n => .ok (writeTag number wireVarint ++ Lib.Varint.write (n % 2 ^ 32))
    | none => .error (named ++ " expected a non-negative integer")
  | .uint64 | .fixed64 =>
    match asU64 value with
    | some n => .ok (writeTag number wireVarint ++ Lib.Varint.write n)
    | none => .error (named ++ " expected a non-negative integer")
  | .float =>
    match codecs.f32Bytes value with
    | some bytes => .ok (writeTag number wire32Bit ++ bytes)
    | none => .error (named ++ " expected a number")
  | .double =>
    match codecs.f64Bytes value with
    | some bytes => .ok (writeTag number wire64Bit ++ bytes)
    | none => .error (named ++ " expected a number")
  | .enum =>
    match asI64 value with
    | some i => .ok (writeTag number wireVarint ++ Lib.Varint.write (toWord 32 (i.bmod (2 ^ 32))))
    | none =>
      if value.asStr.isSome then .error (named ++ " enum-by-name encoding not supported; " ++ "use the integer value")
      else .error (named ++ " expected an integer or string for enum")
  | .message =>
    match field.typeName with
    | none => .error (named ++ " message type missing")
    | some typeName =>
      match resolveMessage fds typeName with
      | none => .error (named ++ " message type " ++ typeName ++ " not found")
      | some desc => (nested value desc).map fun sub => writeTag number wireLengthDelimited ++ lengthDelimited sub
  | .other code => .error (named ++ " type " ++ toString code ++ " not supported")

def encodeField (nested : Json → DescriptorProto → Except String Bytes) (field : FieldDescriptorProto) (value : Json) :
    Except String Bytes :=
  if field.isRepeated then
    match value.asArray with
    | none => .error ("field " ++ field.jsonName.getD "" ++ " expected a JSON array")
    | some items =>
      items.foldlM (fun buf item =>
        if item.isNull then .ok buf else (encodeSingleField codecs fds nested field item).map (buf ++ ·)) []
  else encodeSingleField codecs fds nested field value

/-- A field joins the bytes if the object has it. -/
def encodeMember (nested : Json → DescriptorProto → Except String Bytes) (obj : List (String × Json)) (buf : Bytes)
    (field : FieldDescriptorProto) : Except String Bytes :=
  match field.jsonName.bind fun name => obj.lookup name with
  | none => .ok buf
  | some value => if value.isNull then .ok buf else (encodeField codecs fds nested field value).map (buf ++ ·)

/-- Every field that the object has, in the order of the descriptor. The fuel is the depth of
the value, and nothing but an object is of depth zero. -/
def encodeWithin : ℕ → Json → DescriptorProto → Except String Bytes
  | 0, _, _ => .error "expected a JSON object for a protobuf message"
  | fuel + 1, json, desc =>
    match json.asObject with
    | none => .error "expected a JSON object for a protobuf message"
    | some obj => desc.field.foldlM (encodeMember codecs fds (encodeWithin fuel) obj) []

def encodeJsonToProto (json : Json) (desc : DescriptorProto) : Except String Bytes := encodeWithin codecs fds json.depth json desc

end Encode

section Decode

def varintValue (ty : FieldType) (v : ℕ) : Json :=
  match ty with
  | .bool => .bool (v ≠ 0)
  | .int32 | .sint32 | .sfixed32 => .int (ofWord 32 v)
  | .int64 | .sint64 | .sfixed64 => .int (ofWord 64 v)
  | .uint32 | .fixed32 => .int (v % 2 ^ 32 : ℕ)
  | .enum => .int (ofWord 32 v)
  | _ => .int v

/-- `nested` decodes a message within. -/
def delimitedValue (nested : Bytes → DescriptorProto → Except String Json) (ty : FieldType) (typeName : Option String)
    (data : Bytes) : Except String Json :=
  match ty with
  | .bytes => .ok (.string (codecs.base64Encode data))
  | .message =>
    match typeName with
    | none => .error "message field missing type_name"
    | some typeName =>
      match resolveMessage fds typeName with
      | none => .error ("message type " ++ typeName ++ " not found")
      | some desc => nested data desc
  | _ => .ok (.string (String.ofList (Lib.Utf8.fromUtf8Lossy data)))

/-- The value of one field, and the bytes behind it. -/
def decodeField (nested : Bytes → DescriptorProto → Except String Json) (bytes : Bytes) (wireType : ℕ)
    (field : Option FieldDescriptorProto) : Except String (Json × Bytes) :=
  let ty := (field.bind (·.type)).getD .message
  if wireType = wireVarint then
    match Lib.Varint.read bytes with
    | none => .error "truncated varint"
    | some (v,rest) =>
      .ok (varintValue ty v,rest)
  else if wireType = wire64Bit then
    if bytes.length < 8 then .error "truncated 64-bit field"
    else
      .ok (match ty with
        | .double => codecs.f64Json (bytes.take 8)
        | .fixed64 => .int (Lib.Varint.ofLe (bytes.take 8))
        | .sfixed64 => .int (ofWord 64 (Lib.Varint.ofLe (bytes.take 8)))
        | _ => .null,bytes.drop 8)
  else if wireType = wireLengthDelimited then
    match Lib.Varint.read bytes with
    | none => .error "truncated length-delimited length"
    | some (len,rest) =>
      if rest.length < len then .error "truncated length-delimited field"
      else
        (delimitedValue codecs fds nested ty (field.bind (·.typeName)) (rest.take len)).map fun value => (value,rest.drop len)
  else if wireType = wire32Bit then
    if bytes.length < 4 then .error "truncated 32-bit field"
    else
      .ok (match ty with
        | .float => codecs.f32Json (bytes.take 4)
        | .fixed32 => .int (Lib.Varint.ofLe (bytes.take 4))
        | .sfixed32 => .int (ofWord 32 (Lib.Varint.ofLe (bytes.take 4)))
        | _ => .null,bytes.drop 4)
  else .error ("unknown wire type " ++ toString wireType)

/-- A second value for a key makes it an array. -/
def push (existing value : Json) : Json :=
  match existing with
  | .array items => .array (items ++ [value])
  | existing => .array [existing,value]

def accumulate (obj : List (String × Json)) (name : String) (value : Json) : List (String × Json) :=
  match obj.lookup name with
  | some _ => Json.onField name (push · value) obj
  | none => obj ++ [(name,value)]

/-- Tag after tag. The fuel is the number of bytes, and every tag takes one. -/
def decodeFrom : ℕ → List (String × Json) → Bytes → DescriptorProto → Except String Json
  | _, obj, [], _ => .ok (.object obj)
  | 0, _, _ :: _, _ => .error "truncated varint tag"
  | fuel + 1, obj, byte :: bytes, desc =>
    match Lib.Varint.read (byte :: bytes) with
    | none => .error "truncated varint tag"
    | some (tag,rest) =>
      let fieldNumber := (tag >>> 3) % 2 ^ 32
      let field := desc.field.find? (·.wireNumber = fieldNumber)
      let jsonName := (field.bind (·.jsonName)).getD ("field" ++ toString fieldNumber)
      match decodeField codecs fds (decodeFrom fuel []) rest (tag % 8) field with
      | .error e => .error e
      | .ok (value,rest) => decodeFrom fuel (accumulate obj jsonName value) rest desc

def decodeProtoToJson (proto : Bytes) (desc : DescriptorProto) : Except String Json :=
  decodeFrom codecs fds proto.length [] proto desc

end Decode
end Transcoding
end Dwara.Dataplane.GrpcWeb
