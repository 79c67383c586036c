import Dwara.Dataplane.GrpcWeb

/-! The protobuf decoder with its cursor, where an addition, a slice or a shift can be out of range. -/

namespace Dwara.Dataplane.GrpcWeb
open Dwara.Lib (Json)
open Dwara.Lib.Varint (Bytes)

section Outcomes

/-- What goes wrong without being told: an addition that overflows, a slice or a shift out of range, and a
loop that has not come to its end. -/
inductive Fault where
  | add
  | slice
  | shift
  | unfinished
  deriving DecidableEq, Repr

inductive Outcome (α : Type) where
  | value (a : α)
  | error (message : String)
  | fault (f : Fault)

namespace Outcome
variable {α β : Type}

def bind (x : Outcome α) (f : α → Outcome β) : Outcome β :=
  match x with
  | value a => f a
  | error message => error message
  | fault e => fault e

instance : Monad Outcome where
  pure := value
  bind := bind

def ofExcept : Except String α → Outcome α
  | .ok a => value a
  | .error message => error message

@[simp] theorem value_bind (a : α) (f : α → Outcome β) : (value a >>= f) = f a := rfl
@[simp] theorem error_bind (message : String) (f : α → Outcome β) : (error message >>= f) = error message := rfl
@[simp] theorem fault_bind (e : Fault) (f : α → Outcome β) : (fault e >>= f) = fault e := rfl

/-- It comes to a value or an error. -/
def Returns (x : Outcome α) : Prop := (∃ a, x = value a) ∨ ∃ message, x = error message

theorem returns_ofExcept (x : Except String α) : (ofExcept x).Returns := by
  cases x with
  | ok a => exact .inl ⟨a,rfl⟩
  | error message => exact .inr ⟨message,rfl⟩

theorem not_returns_fault (e : Fault) : ¬ (fault e : Outcome α).Returns := by
  rintro (⟨a,h⟩ | ⟨message,h⟩)
  · cases h
  · cases h

end Outcome

def checkedAdd (a b : ℕ) : Outcome ℕ := if a + b < 2 ^ 64 then .value (a + b) else .fault .add

def checkedShl (v shift : ℕ) : Outcome ℕ := if shift < 64 then .value ((v <<< shift) % 2 ^ 64) else .fault .shift

def slice (buf : Bytes) (start stop : ℕ) : Outcome Bytes :=
  if start ≤ stop ∧ stop ≤ buf.length then .value ((buf.take stop).drop start) else .fault .slice

def sliceFrom (buf : Bytes) (start : ℕ) : Outcome Bytes := slice buf start buf.length

end Outcomes

section Cursor
variable (codecs : Codecs) (fds : List FileDescriptorProto)

/-- The value and how many bytes it takes. -/
def readVarintFrom (i shift result : ℕ) : Bytes → Outcome (Option (ℕ × ℕ))
  | [] => .value none
  | byte :: bytes => do
    let group ← checkedShl (byte.toNat % 128) shift
    if byte.toNat < 128 then (checkedAdd i 1).bind fun len => .value (some (result ||| group,len))
    else if 64 ≤ shift + 7 then .value none
    else readVarintFrom (i + 1) (shift + 7) (result ||| group) bytes

def readVarint (buf : Bytes) : Outcome (Option (ℕ × ℕ)) := readVarintFrom 0 0 0 buf

/-- `nested` decodes a message within. -/
def delimitedOutcome (nested : Bytes → DescriptorProto → Outcome Json) (ty : FieldType) (typeName : Option String) (data : Bytes) :
    Outcome Json :=
  match ty with
  | .bytes => .value (.string (codecs.base64Encode data))
  | .message =>
    match typeName with
    | none => .error "message field missing type_name"
    | some typeName =>
      match resolveMessage fds typeName with
      | none => .error ("message type " ++ typeName ++ " not found")
      | some desc => nested data desc
  | _ => .value (.string (String.ofList (Lib.Utf8.fromUtf8Lossy data)))

def typeOf (field : Option FieldDescriptorProto) : FieldType := (field.bind (·.type)).getD .message

def word64Value (ty : FieldType) (bytes : Bytes) : Json :=
  match ty with
  | .double => codecs.f64Json bytes
  | .fixed64 => .int (Lib.Varint.ofLe bytes)
  | .sfixed64 => .int (ofWord 64 (Lib.Varint.ofLe bytes))
  | _ => .null

def word32Value (ty : FieldType) (bytes : Bytes) : Json :=
  match ty with
  | .float => codecs.f32Json bytes
  | .fixed32 => .int (Lib.Varint.ofLe bytes)
  | .sfixed32 => .int (ofWord 32 (Lib.Varint.ofLe bytes))
  | _ => .null

/-- The value of one field, and the bytes it takes. -/
def decodeFieldAt (nested : Bytes → DescriptorProto → Outcome Json) (buf : Bytes) (wireType : ℕ) (field : Option FieldDescriptorProto) :
    Outcome (Json × ℕ) :=
  let ty := typeOf field
  if wireType = wireVarint then do
    match ← readVarint buf with
    | none => .error "truncated varint"
    | some (v,len) => .value (varintValue ty v,len)
  else if wireType = wire64Bit then
    if buf.length < 8 then .error "truncated 64-bit field"
    else do
      let bytes ← slice buf 0 8
      .value (word64Value codecs ty bytes,8)
  else if wireType = wireLengthDelimited then do
    match ← readVarint buf with
    | none => .error "truncated length-delimited length"
    | some (len,lenBytes) =>
      let dataEnd ← checkedAdd lenBytes len
      if buf.length < dataEnd then .error "truncated length-delimited field"
      else
        let data ← slice buf lenBytes dataEnd
        let value ← delimitedOutcome codecs fds nested ty (field.bind (·.typeName)) data
        .value (value,dataEnd)
  else if wireType = wire32Bit then
    if buf.length < 4 then .error "truncated 32-bit field"
    else do
      let bytes ← slice buf 0 4
      .value (word32Value codecs ty bytes,4)
  else .error ("unknown wire type " ++ toString wireType)

def fieldNumber (tag : ℕ) : ℕ := (tag >>> 3) % 2 ^ 32

def fieldOf (desc : DescriptorProto) (tag : ℕ) : Option FieldDescriptorProto := desc.field.find? (·.wireNumber = fieldNumber tag)

def jsonNameOf (desc : DescriptorProto) (tag : ℕ) : String :=
  ((fieldOf desc tag).bind (·.jsonName)).getD ("field" ++ toString (fieldNumber tag))

/-- The loop over the tags, from a position on. -/
def decodeAt : ℕ → List (String × Json) → ℕ → Bytes → DescriptorProto → Outcome Json
  | 0, _, _, _, _ => .fault .unfinished
  | fuel + 1, obj, pos, proto, desc =>
    if pos < proto.length then do
      let tagBuf ← sliceFrom proto pos
      match ← readVarint tagBuf with
      | none => .error "truncated varint tag"
      | some (tag,tagLen) =>
        let pos ← checkedAdd pos tagLen
        let buf ← sliceFrom proto pos
        let (value,consumed) ← decodeFieldAt codecs fds (decodeAt fuel [] 0) buf (tag % 8) (fieldOf desc tag)
        let pos ← checkedAdd pos consumed
        decodeAt fuel (accumulate obj (jsonNameOf desc tag) value) pos proto desc
    else .value (.object obj)

/-- `decodeProtoToJson` as it runs. One turn more than there are bytes is enough. -/
def decodeProtoOutcome (proto : Bytes) (desc : DescriptorProto) : Outcome Json := decodeAt codecs fds (proto.length + 1) [] 0 proto desc

end Cursor

section Pure
variable {codecs : Codecs} {fds : List FileDescriptorProto} {nested nested' : Bytes → DescriptorProto → Except String Json}
  {bytes rest : Bytes} {desc : DescriptorProto} {field : Option FieldDescriptorProto} {wireType : ℕ}

theorem decodeField_varint :
    decodeField codecs fds nested bytes wireVarint field =
      match Lib.Varint.read bytes with
      | none => .error "truncated varint"
      | some (v,rest) => .ok (varintValue (typeOf field) v,rest) := rfl

theorem decodeField_word64 :
    decodeField codecs fds nested bytes wire64Bit field =
      if bytes.length < 8 then .error "truncated 64-bit field"
      else .ok (word64Value codecs (typeOf field) (bytes.take 8),bytes.drop 8) := rfl

theorem decodeField_length :
    decodeField codecs fds nested bytes wireLengthDelimited field =
      match Lib.Varint.read bytes with
      | none => .error "truncated length-delimited length"
      | some (len,rest) =>
        if rest.length < len then .error "truncated length-delimited field"
        else
          (delimitedValue codecs fds nested (typeOf field) (field.bind (·.typeName)) (rest.take len)).map fun value =>
            (value,rest.drop len) := rfl

theorem decodeField_word32 :
    decodeField codecs fds nested bytes wire32Bit field =
      if bytes.length < 4 then .error "truncated 32-bit field"
      else .ok (word32Value codecs (typeOf field) (bytes.take 4),bytes.drop 4) := rfl

theorem decodeField_other (hvarint : wireType ≠ wireVarint) (hword64 : wireType ≠ wire64Bit) (hlength : wireType ≠ wireLengthDelimited)
    (hword32 : wireType ≠ wire32Bit) :
    decodeField codecs fds nested bytes wireType field = .error ("unknown wire type " ++ toString wireType) := by
  simp only [decodeField,if_neg hvarint,if_neg hword64,if_neg hlength,if_neg hword32]

theorem length_lt_of_read {v : ℕ} (hread : Lib.Varint.read bytes = some (v,rest)) : rest.length < bytes.length := by
  obtain ⟨used,hused,rfl⟩ := Lib.Varint.read_eq_append hread
  have hpos := List.length_pos_iff.mpr hused
  rw [List.length_append]
  omega

/-- What is behind a length is shorter than what it is read from. -/
theorem length_take_lt {len : ℕ} (hlen : Lib.Varint.read bytes = some (len,rest)) : (rest.take len).length < bytes.length :=
  Nat.lt_of_le_of_lt (List.length_take_le' len rest) (length_lt_of_read hlen)

theorem delimitedValue_congr {data : Bytes} (h : ∀ inner, nested data inner = nested' data inner) (ty : FieldType) (typeName : Option String) :
    delimitedValue codecs fds nested ty typeName data = delimitedValue codecs fds nested' ty typeName data := by
  cases ty with
  | message =>
    cases typeName with
    | none => rfl
    | some typeName =>
      simp only [delimitedValue]
      cases resolveMessage fds typeName with
      | none => rfl
      | some inner => exact h inner
  | _ => rfl

/-- Only what is shorter is decoded within a field. -/
theorem decodeField_congr (h : ∀ data inner, data.length < bytes.length → nested data inner = nested' data inner) (wireType : ℕ)
    (field : Option FieldDescriptorProto) :
    decodeField codecs fds nested bytes wireType field = decodeField codecs fds nested' bytes wireType field := by
  simp only [decodeField]
  cases hread : Lib.Varint.read bytes with
  | none => rfl
  | some x =>
    obtain ⟨len,rest⟩ := x
    dsimp only
    rw [delimitedValue_congr fun inner => h _ inner (length_take_lt hread)]

/-- What a field that is decoded looks like, by its wire type. -/
theorem decodeField_ok_cases {value : Json} (h : decodeField codecs fds nested bytes wireType field = .ok (value,rest)) :
    (wireType = wireVarint ∧ ∃ v, Lib.Varint.read bytes = some (v,rest)) ∨
      (wireType = wire64Bit ∧ 8 ≤ bytes.length ∧ bytes.drop 8 = rest) ∨
      (wireType = wireLengthDelimited ∧ ∃ len after, Lib.Varint.read bytes = some (len,after) ∧ len ≤ after.length ∧ after.drop len = rest ∧
        delimitedValue codecs fds nested (typeOf field) (field.bind (·.typeName)) (after.take len) = .ok value) ∨
      (wireType = wire32Bit ∧ 4 ≤ bytes.length ∧ bytes.drop 4 = rest) := by
  by_cases hvarint : wireType = wireVarint
  · subst hvarint
    rw [decodeField_varint] at h
    cases hread : Lib.Varint.read bytes with
    | none =>
      rw [hread] at h
      cases h
    | some x =>
      rw [hread] at h
      obtain ⟨-,rfl⟩ := Prod.mk.inj (Except.ok.inj h)
      exact .inl ⟨rfl,x.1,rfl⟩
  by_cases hword64 : wireType = wire64Bit
  · subst hword64
    rw [decodeField_word64] at h
    split_ifs at h
    exact .inr (.inl ⟨rfl,by omega,(Prod.mk.inj (Except.ok.inj h)).2⟩)
  by_cases hlength : wireType = wireLengthDelimited
  · subst hlength
    rw [decodeField_length] at h
    cases hread : Lib.Varint.read bytes with
    | none =>
      rw [hread] at h
      cases h
    | some x =>
      obtain ⟨len,after⟩ := x
      rw [hread] at h
      dsimp only at h
      split_ifs at h
      cases hdata : delimitedValue codecs fds nested (typeOf field) (field.bind (·.typeName)) (after.take len) with
      | error e =>
        rw [hdata] at h
        cases h
      | ok w =>
        rw [hdata] at h
        obtain ⟨rfl,hrest⟩ := Prod.mk.inj (Except.ok.inj h)
        exact .inr (.inr (.inl ⟨rfl,len,after,rfl,by omega,hrest,hdata⟩))
  by_cases hword32 : wireType = wire32Bit
  · subst hword32
    rw [decodeField_word32] at h
    split_ifs at h
    exact .inr (.inr (.inr ⟨rfl,by omega,(Prod.mk.inj (Except.ok.inj h)).2⟩))
  · rw [decodeField_other hvarint hword64 hlength hword32] at h
    cases h

theorem read_suffix {v : ℕ} (hread : Lib.Varint.read bytes = some (v,rest)) : rest <:+ bytes := by
  obtain ⟨used,-,hused⟩ := Lib.Varint.read_eq_append hread
  exact ⟨used,hused.symm⟩

/-- What is behind a field is behind the bytes it takes. -/
theorem decodeField_suffix {value : Json} (h : decodeField codecs fds nested bytes wireType field = .ok (value,rest)) : rest <:+ bytes := by
  obtain ⟨-,v,hread⟩ | ⟨-,-,rfl⟩ | ⟨-,len,after,hread,-,rfl,-⟩ | ⟨-,-,rfl⟩ := decodeField_ok_cases h
  · exact read_suffix hread
  · exact List.drop_suffix 8 bytes
  · exact (List.drop_suffix len after).trans (read_suffix hread)
  · exact List.drop_suffix 4 bytes

theorem decodeFrom_succ {fuel : ℕ} {obj : List (String × Json)} (hne : bytes ≠ []) :
    decodeFrom codecs fds (fuel + 1) obj bytes desc =
      match Lib.Varint.read bytes with
      | none => .error "truncated varint tag"
      | some (tag,rest) =>
        match decodeField codecs fds (decodeFrom codecs fds fuel []) rest (tag % 8) (fieldOf desc tag) with
        | .error e => .error e
        | .ok (value,rest) => decodeFrom codecs fds fuel (accumulate obj (jsonNameOf desc tag) value) rest desc := by
  obtain ⟨byte,bytes,rfl⟩ := List.exists_cons_of_ne_nil hne
  rfl

/-- As many turns as there are bytes are enough. -/
theorem decodeFrom_fuel {fuel fuel' : ℕ} {obj : List (String × Json)} (h : bytes.length ≤ fuel) (h' : bytes.length ≤ fuel') :
    decodeFrom codecs fds fuel obj bytes desc = decodeFrom codecs fds fuel' obj bytes desc := by
  induction fuel generalizing fuel' obj bytes desc with
  | zero =>
    obtain rfl := List.length_eq_zero_iff.mp (Nat.le_zero.mp h)
    simp [decodeFrom]
  | succ fuel ih =>
    by_cases hne : bytes = []
    · subst hne
      simp [decodeFrom]
    · have hpos := List.length_pos_iff.mpr hne
      obtain ⟨fuel',rfl⟩ : ∃ n, fuel' = n + 1 := ⟨fuel' - 1,by omega⟩
      rw [decodeFrom_succ hne,decodeFrom_succ hne]
      cases hread : Lib.Varint.read bytes with
      | none => rfl
      | some x =>
        obtain ⟨tag,rest⟩ := x
        have hrest := length_lt_of_read hread
        have hfield : decodeField codecs fds (decodeFrom codecs fds fuel []) rest (tag % 8) (fieldOf desc tag) =
            decodeField codecs fds (decodeFrom codecs fds fuel' []) rest (tag % 8) (fieldOf desc tag) :=
          decodeField_congr (fun data inner hdata => ih (by omega) (by omega)) _ _
        dsimp only
        rw [hfield]
        cases hfield : decodeField codecs fds (decodeFrom codecs fds fuel' []) rest (tag % 8) (fieldOf desc tag) with
        | error e => rfl
        | ok y =>
          have hsuffix := (decodeField_suffix hfield).length_le
          exact ih (by omega) (by omega)

/-- The rest of a message, decoded onto what there is. -/
def decodeOnto (codecs : Codecs) (fds : List FileDescriptorProto) (obj : List (String × Json)) (bytes : Bytes) (desc : DescriptorProto) :
    Except String Json := decodeFrom codecs fds bytes.length obj bytes desc

theorem decodeOnto_of_ne_nil {obj : List (String × Json)} (hne : bytes ≠ []) :
    decodeOnto codecs fds obj bytes desc =
      match Lib.Varint.read bytes with
      | none => .error "truncated varint tag"
      | some (tag,rest) =>
        match decodeField codecs fds (decodeProtoToJson codecs fds) rest (tag % 8) (fieldOf desc tag) with
        | .error e => .error e
        | .ok (value,rest) => decodeOnto codecs fds (accumulate obj (jsonNameOf desc tag) value) rest desc := by
  have hpos := List.length_pos_iff.mpr hne
  obtain ⟨fuel,hfuel⟩ : ∃ n, bytes.length = n + 1 := ⟨bytes.length - 1,by omega⟩
  rw [decodeOnto,hfuel,decodeFrom_succ hne]
  cases hread : Lib.Varint.read bytes with
  | none => rfl
  | some x =>
    obtain ⟨tag,rest⟩ := x
    have hrest := length_lt_of_read hread
    have hfield : decodeField codecs fds (decodeFrom codecs fds fuel []) rest (tag % 8) (fieldOf desc tag) =
        decodeField codecs fds (decodeProtoToJson codecs fds) rest (tag % 8) (fieldOf desc tag) :=
      decodeField_congr (fun data inner hdata => decodeFrom_fuel (by omega) le_rfl) _ _
    dsimp only
    rw [hfield]
    cases hfield : decodeField codecs fds (decodeProtoToJson codecs fds) rest (tag % 8) (fieldOf desc tag) with
    | error e => rfl
    | ok y =>
      have hsuffix := (decodeField_suffix hfield).length_le
      exact decodeFrom_fuel (by omega) le_rfl

end Pure

section Grammar
variable {codecs : Codecs} {fds : List FileDescriptorProto} {nested : Bytes → DescriptorProto → Except String Json}
  {bytes later : Bytes} {desc : DescriptorProto} {wireType : ℕ} {field : Option FieldDescriptorProto}

/-- The message that a field holds. -/
def innerMessage (fds : List FileDescriptorProto) (field : Option FieldDescriptorProto) : Option DescriptorProto :=
  (field.bind (·.typeName)).bind (resolveMessage fds)

mutual

/-- Tag and field, one behind the other, to the end of the bytes. -/
inductive Message (fds : List FileDescriptorProto) : Bytes → DescriptorProto → Prop
  | done {desc : DescriptorProto} : Message fds [] desc
  | more {bytes rest later : Bytes} {desc : DescriptorProto} {tag : ℕ} (htag : Lib.Varint.read bytes = some (tag,rest))
      (hfield : Field fds rest (tag % 8) (fieldOf desc tag) later) (hlater : Message fds later desc) : Message fds bytes desc

/-- A field, and the bytes behind it. -/
inductive Field (fds : List FileDescriptorProto) : Bytes → ℕ → Option FieldDescriptorProto → Bytes → Prop
  | varint {bytes later : Bytes} {field : Option FieldDescriptorProto} {v : ℕ} (hread : Lib.Varint.read bytes = some (v,later)) :
      Field fds bytes wireVarint field later
  | word64 {bytes : Bytes} {field : Option FieldDescriptorProto} (hfits : 8 ≤ bytes.length) : Field fds bytes wire64Bit field (bytes.drop 8)
  | text {bytes after : Bytes} {field : Option FieldDescriptorProto} {len : ℕ} (hlen : Lib.Varint.read bytes = some (len,after))
      (hfits : len ≤ after.length) (hplain : typeOf field ≠ .message) : Field fds bytes wireLengthDelimited field (after.drop len)
  | message {bytes after : Bytes} {field : Option FieldDescriptorProto} {inner : DescriptorProto} {len : ℕ}
      (hlen : Lib.Varint.read bytes = some (len,after)) (hfits : len ≤ after.length) (htype : typeOf field = .message)
      (hinner : innerMessage fds field = some inner) (h : Message fds (after.take len) inner) :
      Field fds bytes wireLengthDelimited field (after.drop len)
  | word32 {bytes : Bytes} {field : Option FieldDescriptorProto} (hfits : 4 ≤ bytes.length) : Field fds bytes wire32Bit field (bytes.drop 4)

end

theorem delimitedValue_of_plain {data : Bytes} {ty : FieldType} (hplain : ty ≠ .message) (typeName : Option String) :
    ∃ value, delimitedValue codecs fds nested ty typeName data = .ok value := by
  cases ty with
  | message => exact absurd rfl hplain
  | _ => exact ⟨_,rfl⟩

theorem delimitedValue_message {data : Bytes} (field : Option FieldDescriptorProto) :
    (∃ value, delimitedValue codecs fds nested .message (field.bind (·.typeName)) data = .ok value) ↔
      ∃ inner, innerMessage fds field = some inner ∧ ∃ value, nested data inner = .ok value := by
  simp only [delimitedValue,innerMessage]
  cases field.bind (·.typeName) with
  | none => simp
  | some typeName =>
    dsimp only [Option.bind_some]
    cases resolveMessage fds typeName with
    | none => simp
    | some inner => simp

theorem decodeField_of_delimited {after : Bytes} {len : ℕ} {value : Json} (hlen : Lib.Varint.read bytes = some (len,after))
    (hfits : len ≤ after.length)
    (hvalue : delimitedValue codecs fds nested (typeOf field) (field.bind (·.typeName)) (after.take len) = .ok value) :
    decodeField codecs fds nested bytes wireLengthDelimited field = .ok (value,after.drop len) := by
  simp only [decodeField_length,hlen,if_neg (Nat.not_lt.mpr hfits),hvalue]
  rfl

/-- A field is decoded when it is one, given that the messages within are. -/
theorem decodeField_ok_iff
    (h : ∀ data inner, data.length < bytes.length → ((∃ value, nested data inner = .ok value) ↔ Message fds data inner)) :
    (∃ value, decodeField codecs fds nested bytes wireType field = .ok (value,later)) ↔ Field fds bytes wireType field later := by
  constructor
  · rintro ⟨value,hvalue⟩
    obtain ⟨rfl,v,hread⟩ | ⟨rfl,hfits,rfl⟩ | ⟨rfl,len,after,hread,hfits,rfl,hdata⟩ | ⟨rfl,hfits,rfl⟩ := decodeField_ok_cases hvalue
    · exact .varint hread
    · exact .word64 hfits
    · by_cases hmessage : typeOf field = .message
      · rw [hmessage] at hdata
        obtain ⟨inner,hinner,hok⟩ := (delimitedValue_message field).mp ⟨value,hdata⟩
        exact .message hread hfits hmessage hinner ((h _ inner (length_take_lt hread)).mp hok)
      · exact .text hread hfits hmessage
    · exact .word32 hfits
  · intro hfield
    cases hfield with
    | varint hread => exact ⟨_,by rw [decodeField_varint,hread]⟩
    | word64 hfits => exact ⟨_,by rw [decodeField_word64,if_neg (Nat.not_lt.mpr hfits)]⟩
    | text hlen hfits hplain =>
      obtain ⟨value,hvalue⟩ := delimitedValue_of_plain hplain (field.bind (·.typeName))
      exact ⟨value,decodeField_of_delimited hlen hfits hvalue⟩
    | message hlen hfits htype hinner hmessage =>
      obtain ⟨value,hvalue⟩ := (delimitedValue_message field).mpr ⟨_,hinner,(h _ _ (length_take_lt hlen)).mpr hmessage⟩
      exact ⟨value,decodeField_of_delimited hlen hfits (by rw [htype]; exact hvalue)⟩
    | word32 hfits => exact ⟨_,by rw [decodeField_word32,if_neg (Nat.not_lt.mpr hfits)]⟩

/-- The decoder takes what is a message. -/
theorem decodeOnto_ok_iff {obj : List (String × Json)} :
    (∃ value, decodeOnto codecs fds obj bytes desc = .ok value) ↔ Message fds bytes desc := by
  obtain ⟨n,hn⟩ : ∃ n, bytes.length = n := ⟨_,rfl⟩
  induction n using Nat.strong_induction_on generalizing bytes desc obj with
  | _ n ih =>
    by_cases hne : bytes = []
    · subst hne
      exact ⟨fun _ => .done,fun _ => ⟨_,rfl⟩⟩
    have hnested : ∀ data inner, data.length < n →
        ((∃ value, decodeProtoToJson codecs fds data inner = .ok value) ↔ Message fds data inner) :=
      fun data inner hdata => ih data.length hdata rfl
    rw [decodeOnto_of_ne_nil hne]
    constructor
    · rintro ⟨value,hvalue⟩
      cases htag : Lib.Varint.read bytes with
      | none =>
        rw [htag] at hvalue
        cases hvalue
      | some x =>
        obtain ⟨tag,rest⟩ := x
        have hrest := length_lt_of_read htag
        rw [htag] at hvalue
        dsimp only at hvalue
        cases hfield : decodeField codecs fds (decodeProtoToJson codecs fds) rest (tag % 8) (fieldOf desc tag) with
        | error e =>
          rw [hfield] at hvalue
          cases hvalue
        | ok y =>
          rw [hfield] at hvalue
          have hlater := (decodeField_suffix hfield).length_le
          exact .more htag ((decodeField_ok_iff fun data inner hdata => hnested data inner (by omega)).mp ⟨y.1,hfield⟩)
            ((ih y.2.length (by omega) rfl).mp ⟨value,hvalue⟩)
    · intro hmessage
      cases hmessage with
      | done => exact absurd rfl hne
      | @more _ rest later _ tag htag hfield hlater =>
        have hrest := length_lt_of_read htag
        obtain ⟨value,hvalue⟩ :
            ∃ value, decodeField codecs fds (decodeProtoToJson codecs fds) rest (tag % 8) (fieldOf desc tag) = .ok (value,later) :=
          (decodeField_ok_iff fun data inner hdata => hnested data inner (by omega)).mpr hfield
        have hle := (decodeField_suffix hvalue).length_le
        obtain ⟨whole,hwhole⟩ := (ih _ (by omega) rfl).mpr hlater
        exact ⟨whole,by simp only [htag,hvalue]; exact hwhole⟩

/-- With the messages within decoded as they are. -/
theorem decodeField_iff (codecs : Codecs) :
    (∃ value, decodeField codecs fds (decodeProtoToJson codecs fds) bytes wireType field = .ok (value,later)) ↔
      Field fds bytes wireType field later :=
  decodeField_ok_iff fun _ _ _ => decodeOnto_ok_iff

end Grammar

section Overflow
variable {codecs : Codecs} {fds : List FileDescriptorProto}

/-- A length that the decoder comes to is so large that the end it gives is beyond a word. -/
inductive Overflows (fds : List FileDescriptorProto) : Bytes → DescriptorProto → Prop
  | length {bytes rest after : Bytes} {desc : DescriptorProto} {tag len : ℕ} (htag : Lib.Varint.read bytes = some (tag,rest))
      (hwire : tag % 8 = wireLengthDelimited) (hlen : Lib.Varint.read rest = some (len,after))
      (hlarge : 2 ^ 64 ≤ rest.length - after.length + len) : Overflows fds bytes desc
  | within {bytes rest after : Bytes} {desc inner : DescriptorProto} {tag len : ℕ} (htag : Lib.Varint.read bytes = some (tag,rest))
      (hwire : tag % 8 = wireLengthDelimited) (hlen : Lib.Varint.read rest = some (len,after)) (hfits : len ≤ after.length)
      (htype : typeOf (fieldOf desc tag) = .message) (hinner : innerMessage fds (fieldOf desc tag) = some inner)
      (h : Overflows fds (after.take len) inner) : Overflows fds bytes desc
  | behind {bytes rest later : Bytes} {desc : DescriptorProto} {tag : ℕ} (htag : Lib.Varint.read bytes = some (tag,rest))
      (hfield : Field fds rest (tag % 8) (fieldOf desc tag) later) (h : Overflows fds later desc) : Overflows fds bytes desc

theorem not_overflows_of_read_none {bytes : Bytes} {desc : DescriptorProto} (hread : Lib.Varint.read bytes = none) : ¬ Overflows fds bytes desc := by
  intro h
  cases h with
  | length htag => cases hread.symm.trans htag
  | within htag => cases hread.symm.trans htag
  | behind htag => cases hread.symm.trans htag

/-- The length of a field is too large, or one within the message that it holds. -/
def FieldOverflows (fds : List FileDescriptorProto) (bytes : Bytes) (wireType : ℕ) (field : Option FieldDescriptorProto) : Prop :=
  wireType = wireLengthDelimited ∧ ∃ len after, Lib.Varint.read bytes = some (len,after) ∧
    (2 ^ 64 ≤ bytes.length - after.length + len ∨
      len ≤ after.length ∧ typeOf field = .message ∧ ∃ inner, innerMessage fds field = some inner ∧ Overflows fds (after.take len) inner)

theorem overflows_iff {bytes rest : Bytes} {desc : DescriptorProto} {tag : ℕ} (htag : Lib.Varint.read bytes = some (tag,rest)) :
    Overflows fds bytes desc ↔ FieldOverflows fds rest (tag % 8) (fieldOf desc tag) ∨
      ∃ later, Field fds rest (tag % 8) (fieldOf desc tag) later ∧ Overflows fds later desc := by
  constructor
  · intro h
    cases h with
    | length htag' hwire hlen hlarge =>
      obtain ⟨rfl,rfl⟩ := Prod.mk.inj (Option.some.inj (htag.symm.trans htag'))
      exact .inl ⟨hwire,_,_,hlen,.inl hlarge⟩
    | within htag' hwire hlen hfits htype hinner h =>
      obtain ⟨rfl,rfl⟩ := Prod.mk.inj (Option.some.inj (htag.symm.trans htag'))
      exact .inl ⟨hwire,_,_,hlen,.inr ⟨hfits,htype,_,hinner,h⟩⟩
    | behind htag' hfield h =>
      obtain ⟨rfl,rfl⟩ := Prod.mk.inj (Option.some.inj (htag.symm.trans htag'))
      exact .inr ⟨_,hfield,h⟩
  · rintro (⟨hwire,len,after,hlen,hlarge | ⟨hfits,htype,inner,hinner,h⟩⟩ | ⟨later,hfield,h⟩)
    · exact .length htag hwire hlen hlarge
    · exact .within htag hwire hlen hfits htype hinner h
    · exact .behind htag hfield h

/-- A field that is decoded with no length too large leaves it to what is behind it. -/
theorem overflows_iff_later {bytes rest later : Bytes} {desc : DescriptorProto} {tag : ℕ} {value : Json}
    (htag : Lib.Varint.read bytes = some (tag,rest)) (hnot : ¬ FieldOverflows fds rest (tag % 8) (fieldOf desc tag))
    (hfield : decodeField codecs fds (decodeProtoToJson codecs fds) rest (tag % 8) (fieldOf desc tag) = .ok (value,later)) :
    Overflows fds bytes desc ↔ Overflows fds later desc := by
  rw [overflows_iff htag]
  constructor
  · rintro (hover | ⟨later',hlater,h⟩)
    · exact absurd hover hnot
    · obtain ⟨value',hvalue⟩ := (decodeField_iff codecs).mpr hlater
      obtain ⟨-,rfl⟩ := Prod.mk.inj (Except.ok.inj (hfield.symm.trans hvalue))
      exact h
  · exact fun h => .inr ⟨later,(decodeField_iff codecs).mp ⟨value,hfield⟩,h⟩

/-- A field that is not decoded, with no length too large, ends it. -/
theorem not_overflows_of_error {bytes rest : Bytes} {desc : DescriptorProto} {tag : ℕ} {e : String}
    (htag : Lib.Varint.read bytes = some (tag,rest)) (hnot : ¬ FieldOverflows fds rest (tag % 8) (fieldOf desc tag))
    (hfield : decodeField codecs fds (decodeProtoToJson codecs fds) rest (tag % 8) (fieldOf desc tag) = .error e) :
    ¬ Overflows fds bytes desc := by
  rw [overflows_iff htag]
  rintro (hover | ⟨later,hlater,-⟩)
  · exact hnot hover
  · obtain ⟨value,hvalue⟩ := (decodeField_iff codecs).mpr hlater
    cases hfield.symm.trans hvalue

end Overflow

section Bounds
variable {codecs : Codecs} {fds : List FileDescriptorProto}

/-- The addition overflows where it is said to, and elsewhere the outcome is the value. -/
def Meets {α : Type} (overflows : Prop) (x : Except String α) (outcome : Outcome α) : Prop :=
  (overflows → outcome = .fault .add) ∧ (¬ overflows → outcome = .ofExcept x)

theorem Meets.of_not {α : Type} {overflows : Prop} {x : Except String α} {outcome : Outcome α} (hnot : ¬ overflows)
    (h : outcome = .ofExcept x) : Meets overflows x outcome := ⟨fun hover => absurd hover hnot,fun _ => h⟩

theorem Meets.returns_iff {α : Type} {overflows : Prop} {x : Except String α} {outcome : Outcome α} (h : Meets overflows x outcome) :
    outcome.Returns ↔ ¬ overflows := by
  constructor
  · intro hreturns hover
    rw [h.1 hover] at hreturns
    exact Outcome.not_returns_fault _ hreturns
  · intro hnot
    rw [h.2 hnot]
    exact Outcome.returns_ofExcept x

theorem checkedAdd_of_lt {a b : ℕ} (h : a + b < 2 ^ 64) : checkedAdd a b = .value (a + b) := if_pos h

theorem checkedAdd_of_le {a b : ℕ} (h : 2 ^ 64 ≤ a + b) : checkedAdd a b = .fault .add := if_neg (Nat.not_lt.mpr h)

theorem slice_of_le {buf : Bytes} {start stop : ℕ} (hstart : start ≤ stop) (hstop : stop ≤ buf.length) :
    slice buf start stop = .value ((buf.take stop).drop start) := if_pos ⟨hstart,hstop⟩

theorem sliceFrom_of_le {buf : Bytes} {start : ℕ} (h : start ≤ buf.length) : sliceFrom buf start = .value (buf.drop start) := by
  rw [sliceFrom,slice_of_le h le_rfl,List.take_length]

/-- No group is shifted out of range and no count overflows. -/
theorem readVarintFrom_eq {i shift result : ℕ} {bytes : Bytes} (hshift : shift < 64) (hlen : i + bytes.length < 2 ^ 64) :
    readVarintFrom i shift result bytes =
      .value ((Lib.Varint.readFrom shift result bytes).map fun x => (x.1,i + (bytes.length - x.2.length))) := by
  induction bytes generalizing i shift result with
  | nil => rfl
  | cons byte bytes ih =>
    rw [List.length_cons] at hlen
    rw [readVarintFrom,checkedShl,if_pos hshift,Outcome.value_bind,Lib.Varint.readFrom]
    split_ifs with hlast hend
    · rw [checkedAdd_of_lt (by omega)]
      simp [Outcome.bind]
    · rfl
    · rw [ih (by omega) (by omega)]
      cases hread : Lib.Varint.readFrom (shift + 7) (result ||| (byte.toNat % 128) <<< shift % 2 ^ 64) bytes with
      | none => rfl
      | some x =>
        obtain ⟨used,-,hused⟩ := Lib.Varint.readFrom_eq_append hread
        have hle : x.2.length ≤ bytes.length := by rw [hused,List.length_append]; omega
        simp only [Option.map_some,List.length_cons]
        rw [show i + 1 + (bytes.length - x.2.length) = i + (bytes.length + 1 - x.2.length) by omega]

theorem readVarint_eq {bytes : Bytes} (hlen : bytes.length < 2 ^ 63) :
    readVarint bytes = .value ((Lib.Varint.read bytes).map fun x => (x.1,bytes.length - x.2.length)) := by
  rw [readVarint,readVarintFrom_eq (by decide) (by omega),Lib.Varint.read]
  simp only [Nat.zero_add]

theorem delimitedOutcome_meets {nested : Bytes → DescriptorProto → Outcome Json} {data : Bytes}
    (h : ∀ inner, Meets (Overflows fds data inner) (decodeProtoToJson codecs fds data inner) (nested data inner)) (ty : FieldType)
    (field : Option FieldDescriptorProto) :
    Meets (ty = .message ∧ ∃ inner, innerMessage fds field = some inner ∧ Overflows fds data inner)
      (delimitedValue codecs fds (decodeProtoToJson codecs fds) ty (field.bind (·.typeName)) data)
      (delimitedOutcome codecs fds nested ty (field.bind (·.typeName)) data) := by
  cases ty with
  | message =>
    simp only [innerMessage,delimitedValue,delimitedOutcome]
    cases field.bind (·.typeName) with
    | none => exact .of_not (by rintro ⟨-,inner,hinner,-⟩; cases hinner) rfl
    | some typeName =>
      dsimp only [Option.bind_some]
      cases resolveMessage fds typeName with
      | none => exact .of_not (by rintro ⟨-,inner,hinner,-⟩; cases hinner) rfl
      | some inner =>
        refine ⟨?_,fun hnot => (h inner).2 fun hover => hnot ⟨trivial,inner,rfl,hover⟩⟩
        rintro ⟨-,inner',hinner,hover⟩
        obtain rfl := Option.some.inj hinner
        exact (h inner).1 hover
  | _ => exact .of_not (fun hover => by cases hover.1) rfl

theorem fieldOverflows_iff {bytes after : Bytes} {field : Option FieldDescriptorProto} {len : ℕ}
    (hread : Lib.Varint.read bytes = some (len,after)) :
    FieldOverflows fds bytes wireLengthDelimited field ↔ 2 ^ 64 ≤ bytes.length - after.length + len ∨ len ≤ after.length ∧
      typeOf field = .message ∧ ∃ inner, innerMessage fds field = some inner ∧ Overflows fds (after.take len) inner := by
  constructor
  · rintro ⟨-,len',after',hread',hover⟩
    obtain ⟨rfl,rfl⟩ := Prod.mk.inj (Option.some.inj (hread.symm.trans hread'))
    exact hover
  · exact fun hover => ⟨rfl,len,after,hread,hover⟩

theorem decodeFieldAt_length_meets {nested : Bytes → DescriptorProto → Outcome Json} {bytes : Bytes} (hlen : bytes.length < 2 ^ 63)
    (h : ∀ data inner, data.length < bytes.length →
      Meets (Overflows fds data inner) (decodeProtoToJson codecs fds data inner) (nested data inner))
    (field : Option FieldDescriptorProto) :
    Meets (FieldOverflows fds bytes wireLengthDelimited field)
      ((decodeField codecs fds (decodeProtoToJson codecs fds) bytes wireLengthDelimited field).map fun x => (x.1,bytes.length - x.2.length))
      (decodeFieldAt codecs fds nested bytes wireLengthDelimited field) := by
  rw [decodeFieldAt,if_neg (by decide),if_neg (by decide),if_pos rfl,readVarint_eq hlen,decodeField_length,Outcome.value_bind]
  cases hread : Lib.Varint.read bytes with
  | none => exact .of_not (by rintro ⟨-,len,after,hsome,-⟩; cases hread.symm.trans hsome) rfl
  | some x =>
    obtain ⟨len,after⟩ := x
    have hiff : FieldOverflows fds bytes wireLengthDelimited field ↔ _ := fieldOverflows_iff hread
    obtain ⟨used,-,rfl⟩ := Lib.Varint.read_eq_append hread
    have hused : (used ++ after).length - after.length = used.length := by rw [List.length_append,Nat.add_sub_cancel]
    rw [hused] at hiff
    simp only [Option.map_some,hused]
    by_cases hlarge : 2 ^ 64 ≤ used.length + len
    · rw [checkedAdd_of_le hlarge]
      exact ⟨fun _ => rfl,fun hnot => absurd (hiff.mpr (.inl hlarge)) hnot⟩
    rw [checkedAdd_of_lt (by omega),Outcome.value_bind,List.length_append]
    by_cases hshort : after.length < len
    · rw [if_pos hshort,if_pos (by omega)]
      exact .of_not (fun hover => by rcases hiff.mp hover with hover | hover <;> omega) rfl
    have hdata : ((used ++ after).take (used.length + len)).drop used.length = after.take len := by
      rw [List.take_length_add_append,List.drop_left]
    have hmeets := delimitedOutcome_meets (h (after.take len) · (length_take_lt hread)) (typeOf field) field
    rw [if_neg hshort,if_neg (by omega),slice_of_le (by omega) (by rw [List.length_append]; omega),Outcome.value_bind,hdata]
    constructor
    · intro hover
      rw [hmeets.1 ((hiff.mp hover).resolve_left hlarge).2,Outcome.fault_bind]
    · intro hnot
      rw [hmeets.2 fun hover => hnot (hiff.mpr (.inr ⟨by omega,hover⟩))]
      cases delimitedValue codecs fds (decodeProtoToJson codecs fds) (typeOf field) (field.bind (·.typeName)) (after.take len) with
      | error e => rfl
      | ok value =>
        simp only [Except.map,Outcome.ofExcept,Outcome.value_bind,List.length_drop]
        rw [show used.length + after.length - (after.length - len) = used.length + len by omega]

/-- A field comes to what it is decoded to, with the count of its bytes, unless its length is too large. -/
theorem decodeFieldAt_meets {nested : Bytes → DescriptorProto → Outcome Json} {bytes : Bytes} (hlen : bytes.length < 2 ^ 63)
    (h : ∀ data inner, data.length < bytes.length →
      Meets (Overflows fds data inner) (decodeProtoToJson codecs fds data inner) (nested data inner))
    (wireType : ℕ) (field : Option FieldDescriptorProto) :
    Meets (FieldOverflows fds bytes wireType field)
      ((decodeField codecs fds (decodeProtoToJson codecs fds) bytes wireType field).map fun x => (x.1,bytes.length - x.2.length))
      (decodeFieldAt codecs fds nested bytes wireType field) := by
  by_cases hvarint : wireType = wireVarint
  · subst hvarint
    refine .of_not (fun hover => absurd hover.1 (by decide)) ?_
    rw [decodeFieldAt,if_pos rfl,readVarint_eq hlen,decodeField_varint]
    cases Lib.Varint.read bytes with
    | none => rfl
    | some x => rfl
  by_cases hword64 : wireType = wire64Bit
  · subst hword64
    refine .of_not (fun hover => absurd hover.1 (by decide)) ?_
    rw [decodeFieldAt,if_neg (by decide),if_pos rfl,decodeField_word64]
    split_ifs with hshort
    · rfl
    · rw [slice_of_le (by omega) (by omega),Outcome.value_bind,List.drop_zero]
      simp only [Except.map,Outcome.ofExcept,List.length_drop]
      rw [Nat.sub_sub_self (by omega)]
  by_cases hlength : wireType = wireLengthDelimited
  · subst hlength
    exact decodeFieldAt_length_meets hlen h field
  by_cases hword32 : wireType = wire32Bit
  · subst hword32
    refine .of_not (fun hover => absurd hover.1 (by decide)) ?_
    rw [decodeFieldAt,if_neg (by decide),if_neg (by decide),if_neg (by decide),if_pos rfl,decodeField_word32]
    split_ifs with hshort
    · rfl
    · rw [slice_of_le (by omega) (by omega),Outcome.value_bind,List.drop_zero]
      simp only [Except.map,Outcome.ofExcept,List.length_drop]
      rw [Nat.sub_sub_self (by omega)]
  · refine .of_not (fun hover => hlength hover.1) ?_
    rw [decodeFieldAt,if_neg hvarint,if_neg hword64,if_neg hlength,if_neg hword32,decodeField_other hvarint hword64 hlength hword32]
    rfl

/-- What is left of the bytes starts at the count of those before it. -/
theorem drop_of_suffix {bytes rest : Bytes} {pos : ℕ} (h : rest <:+ bytes.drop pos) :
    bytes.drop (pos + ((bytes.drop pos).length - rest.length)) = rest := by
  rw [← List.drop_drop]
  exact (List.suffix_iff_eq_drop.mp h).symm

theorem decodeOnto_nil {obj : List (String × Json)} {desc : DescriptorProto} : decodeOnto codecs fds obj [] desc = .ok (.object obj) := rfl

/-- The loop comes to what the rest is decoded to, unless a length on the way is too large. -/
theorem decodeAt_meets {n pos : ℕ} {obj : List (String × Json)} {proto : Bytes} {desc : DescriptorProto} (hlen : proto.length < 2 ^ 63)
    (hpos : pos ≤ proto.length) (hn : proto.length - pos ≤ n) :
    Meets (Overflows fds (proto.drop pos) desc) (decodeOnto codecs fds obj (proto.drop pos) desc)
      (decodeAt codecs fds (n + 1) obj pos proto desc) := by
  induction n generalizing pos obj proto desc with
  | zero =>
    have hdrop : proto.drop pos = [] := List.drop_eq_nil_of_le (by omega)
    rw [hdrop,decodeAt,if_neg (by omega),decodeOnto_nil]
    exact .of_not (not_overflows_of_read_none rfl) rfl
  | succ n ih =>
    rw [decodeAt]
    by_cases hend : pos < proto.length
    · have hne : proto.drop pos ≠ [] := by simpa using hend
      have hdroplen : (proto.drop pos).length = proto.length - pos := List.length_drop
      rw [if_pos hend,sliceFrom_of_le hpos,Outcome.value_bind,readVarint_eq (by omega),Outcome.value_bind,decodeOnto_of_ne_nil hne]
      cases htag : Lib.Varint.read (proto.drop pos) with
      | none => exact .of_not (not_overflows_of_read_none htag) rfl
      | some x =>
        obtain ⟨tag,rest⟩ := x
        have hrestlt := length_lt_of_read htag
        have hrest := drop_of_suffix (read_suffix htag)
        have hnested : ∀ data inner, data.length < rest.length →
            Meets (Overflows fds data inner) (decodeProtoToJson codecs fds data inner) (decodeAt codecs fds (n + 1) [] 0 data inner) := by
          intro data inner hdata
          have hwhole : Meets (Overflows fds (data.drop 0) inner) (decodeOnto codecs fds [] (data.drop 0) inner)
              (decodeAt codecs fds (n + 1) [] 0 data inner) := ih (by omega) (Nat.zero_le _) (by omega)
          exact hwhole
        have hat := decodeFieldAt_meets (by omega) hnested (tag % 8) (fieldOf desc tag)
        simp only [Option.map_some]
        rw [checkedAdd_of_lt (by omega),Outcome.value_bind,sliceFrom_of_le (by omega),Outcome.value_bind,hrest]
        by_cases hover : FieldOverflows fds rest (tag % 8) (fieldOf desc tag)
        · rw [hat.1 hover]
          exact ⟨fun _ => rfl,fun hnot => absurd ((overflows_iff htag).mpr (.inl hover)) hnot⟩
        rw [hat.2 hover]
        cases hfield : decodeField codecs fds (decodeProtoToJson codecs fds) rest (tag % 8) (fieldOf desc tag) with
        | error e => exact .of_not (not_overflows_of_error htag hover hfield) rfl
        | ok y =>
          obtain ⟨value,later⟩ := y
          have hlater := decodeField_suffix hfield
          have hlaterle := hlater.length_le
          rw [← hrest] at hlater
          have hdrop := drop_of_suffix hlater
          rw [hrest] at hdrop
          have hrun := @ih (pos + ((proto.drop pos).length - rest.length) + (rest.length - later.length))
            (accumulate obj (jsonNameOf desc tag) value) proto desc hlen (by omega) (by omega)
          rw [hdrop,← overflows_iff_later htag hover hfield] at hrun
          simp only [Except.map,Outcome.ofExcept,Outcome.value_bind]
          rw [checkedAdd_of_lt (by omega),Outcome.value_bind]
          exact hrun
    · have hdrop : proto.drop pos = [] := List.drop_eq_nil_of_le (by omega)
      rw [hdrop,if_neg hend,decodeOnto_nil]
      exact .of_not (not_overflows_of_read_none rfl) rfl

/-- Where no length is too large, the decoder with its cursor is the decoder. -/
theorem decodeProtoOutcome_meets (codecs : Codecs) (fds : List FileDescriptorProto) {proto : Bytes} (hlen : proto.length < 2 ^ 63)
    (desc : DescriptorProto) :
    Meets (Overflows fds proto desc) (decodeProtoToJson codecs fds proto desc) (decodeProtoOutcome codecs fds proto desc) := by
  have hwhole : Meets (Overflows fds (proto.drop 0) desc) (decodeOnto codecs fds [] (proto.drop 0) desc)
      (decodeAt codecs fds (proto.length + 1) [] 0 proto desc) := decodeAt_meets hlen (Nat.zero_le _) (Nat.sub_le _ _)
  exact hwhole

/-- The bytes of a slice take at most half of the words. -/
abbrev Slice := {bytes : Bytes // bytes.length < 2 ^ 63}

/-- The decoder comes to a value or an error just where no length that it comes to is too large. -/
theorem decoder_returns_iff (codecs : Codecs) (fds : List FileDescriptorProto) (proto : Slice) (desc : DescriptorProto) :
    (decodeProtoOutcome codecs fds proto.1 desc).Returns ↔ ¬ Overflows fds proto.1 desc :=
  (decodeProtoOutcome_meets codecs fds proto.2 desc).returns_iff

/-- `message Note { string text = 1; }` -/
def noteMessage : DescriptorProto := ⟨some "Note",[⟨some "text",some 1,some .optional,some .string,none⟩],[]⟩

/-- The text is said to be of 2^64 − 1 bytes, and ten bytes say so. -/
def longNote : Slice := ⟨[0x0A,0xFF,0xFF,0xFF,0xFF,0xFF,0xFF,0xFF,0xFF,0xFF,0x01],by decide⟩

theorem longNote_fault (codecs : Codecs) : decodeProtoOutcome codecs [] longNote.1 noteMessage = .fault .add := rfl

theorem decoder_faults_on_longNote :
    ¬ ∀ (codecs : Codecs) (fds : List FileDescriptorProto) (proto : Slice) (desc : DescriptorProto),
      (decodeProtoOutcome codecs fds proto.1 desc).Returns := by
  intro h
  have hreturns := h ⟨fun _ => "",fun _ => .ok [],fun _ => none,fun _ => none,fun _ => .null,fun _ => .null⟩ [] longNote noteMessage
  rw [longNote_fault] at hreturns
  exact Outcome.not_returns_fault _ hreturns

end Bounds

end Dwara.Dataplane.GrpcWeb
