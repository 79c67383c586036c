import Dwara.Dataplane.GrpcWeb
import Mathlib.Tactic.SplitIfs

/-! From JSON to protobuf and back: what comes back of an object that conforms to its
message, and when it is the same object. -/

namespace Dwara.Dataplane.GrpcWeb
open Dwara.Lib (Json)
open Dwara.Lib.Varint (Bytes)

section Words

theorem toWord_lt (bits : ℕ) (n : ℤ) : toWord bits n < 2 ^ bits := by
  have hpos : (0 : ℤ) < 2 ^ bits := Int.pow_pos (by decide)
  have hlt := Int.emod_lt_of_pos n hpos
  rw [toWord,Int.toNat_lt (Int.emod_nonneg n (Int.ne_of_gt hpos))]
  exact_mod_cast hlt

theorem ofWord_toWord (bits : ℕ) (n : ℤ) : ofWord bits (toWord bits n) = n.bmod (2 ^ bits) := by
  have hpos : (0 : ℤ) < 2 ^ bits := Int.pow_pos (by decide)
  have h := Int.emod_bmod n (2 ^ bits)
  push_cast at h
  rw [ofWord,toWord,Int.toNat_of_nonneg (Int.emod_nonneg n (Int.ne_of_gt hpos)),Int.emod_emod_of_dvd n ⟨1,(Int.mul_one _).symm⟩]
  exact h

end Words

section Conforming
variable (codecs : Codecs) (fds : List FileDescriptorProto)

namespace FieldDescriptorProto
variable (field : FieldDescriptorProto) (v : Json)

/-- The message type of a message field. -/
def messageType : Option DescriptorProto := if field.ty = .message then field.typeName.bind (resolveMessage fds) else none

/-- The values that the field has under its label. -/
def elements : List Json := if field.isRepeated then v.asArray.getD [] else [v]

/-- A single value of the type, within its range. What is in a message is asked elsewhere. -/
def HasType : Prop :=
  match field.ty with
  | .string => ∃ s, v = .string s
  | .bytes => ∃ bytes, v = .string (codecs.base64Encode bytes)
  | .bool => ∃ b, v = .bool b
  | .int32 | .sint32 | .sfixed32 | .enum => ∃ n, v = .int n ∧ -2 ^ 31 ≤ n ∧ n < 2 ^ 31
  | .int64 | .sint64 | .sfixed64 => ∃ n, v = .int n ∧ -2 ^ 63 ≤ n ∧ n < 2 ^ 63
  | .uint32 | .fixed32 => ∃ n : ℕ, v = .int n ∧ n < 2 ^ 32
  | .uint64 | .fixed64 => ∃ n : ℕ, v = .int n ∧ n < 2 ^ 64
  | .message => (field.messageType fds).isSome ∧ v.asObject.isSome
  | .float | .double | .other _ => False

/-- A value under the label, with at least so many items if it is repeated. -/
structure Takes (least : ℕ) : Prop where
  items : field.isRepeated → ∃ items, v = .array items ∧ least ≤ items.length
  typed : ∀ x ∈ field.elements v, field.HasType codecs fds x

end FieldDescriptorProto

/-- An object has fields of its message only, each with a value of its type, in the messages
within as well. The repeated ones have at least so many items. -/
inductive Conforms (least : ℕ) : DescriptorProto → Json → Prop
  | object {desc : DescriptorProto} {obj : List (String × Json)}
      (hfields : ∀ key v, obj.lookup key = some v →
        ∃ field ∈ desc.field, field.jsonName = some key ∧ field.Takes codecs fds v least)
      (hmessages : ∀ key v field x within, obj.lookup key = some v → field ∈ desc.field → field.jsonName = some key →
        x ∈ field.elements v → field.messageType fds = some within → Conforms least within x) :
      Conforms least desc (.object obj)

/-- No two fields have one number or one name. -/
structure DescriptorProto.Valid (desc : DescriptorProto) : Prop where
  numbers : (desc.field.map (·.wireNumber)).Nodup
  names : (desc.field.filterMap (·.jsonName)).Nodup

end Conforming

section Single
variable {codecs : Codecs} {fds : List FileDescriptorProto} {field : FieldDescriptorProto} {v w : Json} {desc : DescriptorProto}
  {obj : List (String × Json)} {bytes rest payload : Bytes} {wireType : ℕ}

variable (codecs fds) in
/-- With enough fuel the bytes are decoded to the value. -/
def Decodes (obj : List (String × Json)) (bytes : Bytes) (desc : DescriptorProto) (w : Json) : Prop :=
  ∀ fuel, bytes.length ≤ fuel → decodeFrom codecs fds fuel obj bytes desc = .ok w

variable (codecs fds) in
/-- A value goes into a message as a tag and a payload, and another one comes out. -/
structure Wired (field : FieldDescriptorProto) (v w : Json) (wireType : ℕ) (payload : Bytes) : Prop where
  wire : wireType < 8
  encode : ∀ fuel, v.depth ≤ fuel → encodeSingleField codecs fds (encodeWithin codecs fds fuel) field v =
    .ok (writeTag field.wireNumber wireType ++ payload)
  decode : payload.length < 2 ^ 64 → ∀ fuel, payload.length ≤ fuel → ∀ rest,
    decodeField codecs fds (decodeFrom codecs fds fuel []) (payload ++ rest) wireType (some field) = .ok (w,rest)
  single : w.asArray = none

theorem read_lengthDelimited {data : Bytes} (h : (lengthDelimited data).length < 2 ^ 64) (rest : Bytes) :
    Lib.Varint.read (lengthDelimited data ++ rest) = some (data.length,data ++ rest) := by
  rw [lengthDelimited,List.length_append] at h
  rw [lengthDelimited,List.append_assoc,Lib.Varint.read_write (by omega)]

theorem wired_varint {k : ℕ} (hk : k < 2 ^ 64)
    (hencode : ∀ nested, encodeSingleField codecs fds nested field v =
      .ok (writeTag field.wireNumber wireVarint ++ Lib.Varint.write k))
    (hdecode : varintValue field.ty k = w) (hsingle : w.asArray = none) :
    Wired codecs fds field v w wireVarint (Lib.Varint.write k) := by
  refine ⟨by decide,fun _ _ => hencode _,fun _ fuel _ rest => ?_,hsingle⟩
  rw [decodeField,if_pos rfl,Lib.Varint.read_write hk,← hdecode]
  rfl

/-- A varint of a number that fits in 32 bits with its sign. -/
theorem ofWord_toWord_32 {n : ℤ} (hlow : -2 ^ 31 ≤ n) (hhigh : n < 2 ^ 31) : ofWord 32 (toWord 32 (n.bmod (2 ^ 32))) = n := by
  rw [ofWord_toWord,Int.bmod_bmod,Int.bmod_eq_of_le (by simpa using hlow) (by simpa using hhigh)]

theorem ofWord_toWord_64 {n : ℤ} (hlow : -2 ^ 63 ≤ n) (hhigh : n < 2 ^ 63) : ofWord 64 (toWord 64 n) = n := by
  rw [ofWord_toWord,Int.bmod_eq_of_le (by simpa using hlow) (by simpa using hhigh)]

theorem asI64_of_range {n : ℤ} (hlow : -2 ^ 63 ≤ n) (hhigh : n < 2 ^ 63) : asI64 (.int n) = some n := if_pos ⟨hlow,hhigh⟩

theorem asU64_of_range {n : ℕ} (h : n < 2 ^ 64) : asU64 (.int n) = some n := by
  have hfits : (0 : ℤ) ≤ n ∧ (n : ℤ) < 2 ^ 64 := ⟨Int.natCast_nonneg n,by exact_mod_cast h⟩
  rw [asU64,Json.asU64,if_pos hfits]
  exact congrArg some (Nat.mod_eq_of_lt h)

/-- Data of a length goes in and comes out whole. -/
theorem wired_delimited (data : Bytes)
    (hencode : ∀ fuel, v.depth ≤ fuel → encodeSingleField codecs fds (encodeWithin codecs fds fuel) field v =
      .ok (writeTag field.wireNumber wireLengthDelimited ++ lengthDelimited data))
    (hdecode : data.length < 2 ^ 64 → ∀ fuel, data.length ≤ fuel →
      delimitedValue codecs fds (decodeFrom codecs fds fuel []) field.ty field.typeName data = .ok w)
    (hsingle : w.asArray = none) : Wired codecs fds field v w wireLengthDelimited (lengthDelimited data) := by
  refine ⟨by decide,hencode,fun hlen fuel hfuel rest => ?_,hsingle⟩
  have hread := read_lengthDelimited hlen rest
  rw [lengthDelimited,List.length_append] at hlen hfuel
  have hfits : ¬ (data ++ rest).length < data.length := by
    rw [List.length_append]
    omega
  have hvalue := hdecode (by omega) fuel (by omega)
  rw [decodeField,if_neg (by decide),if_neg (by decide),if_pos rfl,hread]
  dsimp only
  rw [if_neg hfits,List.take_left,List.drop_left]
  exact congrArg (Except.map fun value => (value,rest)) hvalue

/-- Every scalar comes out as it went in. -/
theorem wired_scalar (hbase64 : ∀ bytes, codecs.base64Decode (codecs.base64Encode bytes) = .ok bytes)
    (htype : field.HasType codecs fds v) (hmessage : field.ty ≠ .message) : ∃ wireType payload, Wired codecs fds field v v wireType payload := by
  rw [FieldDescriptorProto.HasType] at htype
  cases hty : field.ty with
  | message => exact absurd hty hmessage
  | string =>
    simp only [hty] at htype
    obtain ⟨s,rfl⟩ := htype
    refine ⟨_,_,wired_delimited (Lib.Utf8.encode s.toList) (fun _ _ => ?_) (fun _ _ _ => ?_) rfl⟩
    · simp only [encodeSingleField,hty,Json.asStr]
    · simp only [delimitedValue,hty,Lib.Utf8.fromUtf8Lossy_of_encode,String.ofList_toList]
  | bytes =>
    simp only [hty] at htype
    obtain ⟨bytes,rfl⟩ := htype
    refine ⟨_,_,wired_delimited bytes (fun _ _ => ?_) (fun _ _ _ => ?_) rfl⟩
    · simp only [encodeSingleField,hty,Json.asStr,hbase64]
    · simp only [delimitedValue,hty]
  | bool =>
    simp only [hty] at htype
    obtain ⟨b,rfl⟩ := htype
    refine ⟨_,_,wired_varint (k := if b then 1 else 0) (by split <;> omega) (fun nested => ?_) ?_ rfl⟩
    · simp only [encodeSingleField,hty,Json.asBool]
    · cases b <;> simp [varintValue,hty]
  | int32 | sint32 | sfixed32 | enum =>
    simp only [hty] at htype
    obtain ⟨n,rfl,hlow,hhigh⟩ := htype
    have hword := toWord_lt 32 (n.bmod (2 ^ 32))
    refine ⟨_,_,wired_varint (k := toWord 32 (n.bmod (2 ^ 32))) (by omega) (fun nested => ?_) ?_ rfl⟩
    · simp only [encodeSingleField,hty,asI64_of_range (n := n) (by omega) (by omega)]
    · simp only [varintValue,hty,ofWord_toWord_32 hlow hhigh]
  | int64 | sint64 | sfixed64 =>
    simp only [hty] at htype
    obtain ⟨n,rfl,hlow,hhigh⟩ := htype
    refine ⟨_,_,wired_varint (toWord_lt 64 n) (fun nested => ?_) ?_ rfl⟩
    · simp only [encodeSingleField,hty,asI64_of_range hlow hhigh]
    · simp only [varintValue,hty,ofWord_toWord_64 hlow hhigh]
  | uint32 | fixed32 =>
    simp only [hty] at htype
    obtain ⟨n,hv,h⟩ := htype
    have hasU64 : asU64 v = some n := by rw [hv,asU64_of_range (by omega)]
    refine ⟨_,_,wired_varint (k := n) (by omega) (fun nested => ?_) ?_ (by rw [hv]; rfl)⟩
    · simp only [encodeSingleField,hty,hasU64,Nat.mod_eq_of_lt h]
    · simp only [varintValue,hty,hv,Nat.mod_eq_of_lt h]
  | uint64 | fixed64 =>
    simp only [hty] at htype
    obtain ⟨n,hv,h⟩ := htype
    have hasU64 : asU64 v = some n := by rw [hv,asU64_of_range h]
    refine ⟨_,_,wired_varint h (fun nested => ?_) ?_ (by rw [hv]; rfl)⟩
    · simp only [encodeSingleField,hty,hasU64]
    · simp only [varintValue,hty,hv]
  | float | double | other code => simp only [hty] at htype

theorem wireNumber_lt (field : FieldDescriptorProto) : field.wireNumber < 2 ^ 32 := toWord_lt 32 _

/-- The tag is one varint of the number over the wire type. -/
theorem tag_eq {number : ℕ} (hwire : wireType < 8) : number <<< 3 ||| wireType = number * 8 + wireType := by
  rw [← Nat.shiftLeft_add_eq_or_of_lt (by simpa using hwire),Nat.shiftLeft_eq]

theorem find_field (hvalid : desc.Valid) (hfield : field ∈ desc.field) :
    desc.field.find? (·.wireNumber = field.wireNumber) = some field := by
  have hinj := List.inj_on_of_nodup_map hvalid.numbers
  cases hfind : desc.field.find? (·.wireNumber = field.wireNumber) with
  | none => exact absurd (decide_eq_true rfl) (List.find?_eq_none.mp hfind field hfield)
  | some other =>
    have hnumber : other.wireNumber = field.wireNumber := by simpa using List.find?_some hfind
    rw [hinj (List.mem_of_find?_eq_some hfind) hfield hnumber]

/-- A tag and its payload are decoded, and what comes out joins the object. -/
theorem decodes_step {name : String} {u : Json} (hvalid : desc.Valid) (hfield : field ∈ desc.field) (hname : field.jsonName = some name)
    (hwired : Wired codecs fds field v w wireType payload) (hfits : payload.length < 2 ^ 64)
    (h : Decodes codecs fds (accumulate obj name w) rest desc u) :
    Decodes codecs fds obj (writeTag field.wireNumber wireType ++ payload ++ rest) desc u := by
  intro fuel hlen
  have hnumber := wireNumber_lt field
  have hwire := hwired.wire
  have htag : field.wireNumber * 8 + wireType < 2 ^ 64 := by omega
  have hne : writeTag field.wireNumber wireType ≠ [] := Lib.Varint.write_ne_nil _
  have hpos := List.length_pos_iff.mpr hne
  simp only [List.length_append] at hlen
  obtain ⟨fuel,rfl⟩ := Nat.exists_eq_add_one_of_ne_zero (n := fuel) (by omega)
  obtain ⟨byte,tail,hcons⟩ := List.exists_cons_of_ne_nil (l := writeTag field.wireNumber wireType ++ payload ++ rest) (by simp [hne])
  have hread : Lib.Varint.read (byte :: tail) = some (field.wireNumber * 8 + wireType,payload ++ rest) := by
    rw [← hcons,List.append_assoc,writeTag,tag_eq hwire,Lib.Varint.read_write htag]
  have hshift : ((field.wireNumber * 8 + wireType) >>> 3) % 2 ^ 32 = field.wireNumber := by
    rw [Nat.shiftRight_eq_div_pow]
    omega
  have hmod : (field.wireNumber * 8 + wireType) % 8 = wireType := by omega
  rw [hcons,decodeFrom,hread]
  dsimp only
  rw [hshift,hmod,find_field hvalid hfield,hwired.decode hfits fuel (by omega) rest]
  simp only [Option.bind_some,hname,Option.getD_some]
  exact h fuel (by omega)

theorem decodes_nil : Decodes codecs fds obj [] desc (.object obj) := by
  intro fuel _
  cases fuel <;> rfl

end Single

section Repeated

theorem onField_append {name : String} {f : Json → Json} {obj : List (String × Json)} {w : Json} (h : obj.lookup name = none) :
    Json.onField name f (obj ++ [(name,w)]) = obj ++ [(name,f w)] := by
  induction obj with
  | nil => simp [Json.onField]
  | cons field obj ih =>
    rw [List.lookup_cons] at h
    split at h
    · cases h
    · rename_i hne
      have hkey : field.1 ≠ name := fun heq => by simp [heq] at hne
      rw [List.cons_append,Json.onField,if_neg hkey,ih h,List.cons_append]

theorem lookup_append_self {name : String} {obj : List (String × Json)} {w : Json} (h : obj.lookup name = none) :
    (obj ++ [(name,w)]).lookup name = some w := by
  simp [List.lookup_append,h]

/-- What is left of some values under one name: one alone is not an array. -/
def collapse : List Json → Option Json
  | [] => none
  | [w] => some w
  | ws => some (.array ws)

theorem foldl_push {w : Json} (hw : w.asArray = none) (x : Json) (ws : List Json) :
    (x :: ws).foldl push w = .array (w :: x :: ws) := by
  have harray : ∀ items : List Json, ws.foldl push (.array items) = .array (items ++ ws) := by
    induction ws with
    | nil => simp
    | cons y ws ih =>
      intro items
      rw [List.foldl_cons,push,ih,List.append_assoc,List.singleton_append]
  have hfirst : push w x = .array [w,x] := by
    cases w <;> first | rfl | cases hw
  rw [List.foldl_cons,hfirst,harray]
  rfl

/-- The values of one name join the object as they are left. -/
theorem foldl_accumulate {name : String} {obj : List (String × Json)} (h : obj.lookup name = none) {ws : List Json}
    (hws : ∀ w ∈ ws, w.asArray = none) :
    ws.foldl (fun obj w => accumulate obj name w) obj = obj ++ (collapse ws).toList.map fun w => (name,w) := by
  cases ws with
  | nil => simp [collapse]
  | cons w ws =>
    have hrest : ∀ v, ws.foldl (fun obj w => accumulate obj name w) (obj ++ [(name,v)]) = obj ++ [(name,ws.foldl push v)] := by
      clear hws
      induction ws with
      | nil => exact fun v => rfl
      | cons x ws ih =>
        intro v
        rw [List.foldl_cons,List.foldl_cons,accumulate,lookup_append_self h]
        dsimp only
        rw [onField_append h,ih]
    rw [List.foldl_cons,accumulate,h]
    dsimp only
    rw [hrest]
    cases ws with
    | nil => rfl
    | cons x ws =>
      rw [foldl_push (hws w List.mem_cons_self)]
      rfl

end Repeated

section Fields
variable {codecs : Codecs} {fds : List FileDescriptorProto} {field : FieldDescriptorProto} {v w : Json} {desc : DescriptorProto}
  {obj : List (String × Json)}

/-- What the fields of the messages within ask of a value. -/
def ReturnsWithin (codecs : Codecs) (fds : List FileDescriptorProto) (field : FieldDescriptorProto) (v : Json) : Prop :=
  ∀ within, field.messageType fds = some within → Conforms codecs fds 2 within v

/-- A single value of the field goes in, and what comes out is the same iff it is so within. -/
def Carried (codecs : Codecs) (fds : List FileDescriptorProto) (field : FieldDescriptorProto) (v w : Json) : Prop :=
  (∃ wireType payload, Wired codecs fds field v w wireType payload) ∧ v.isNull = false ∧
    (Json.Same v w ↔ ReturnsWithin codecs fds field v)

theorem same_array_iff {items ws : List Json} (h : List.Forall₂ (Carried codecs fds field) items ws) :
    Json.Same (.array items) (.array ws) ↔ ∀ v ∈ items, ReturnsWithin codecs fds field v := by
  constructor
  · intro hsame v hv
    obtain ⟨i,hi⟩ := List.mem_iff_getElem?.mp hv
    cases hsame with
    | scalar _ harray _ => cases harray
    | array hlen hitems =>
      obtain ⟨hlt,rfl⟩ := List.getElem?_eq_some_iff.mp hi
      have hw : i < ws.length := hlen ▸ hlt
      exact ((h.get hlt hw).2.2).mp (hitems i _ ws[i] hi (List.getElem?_eq_getElem hw))
  · intro hall
    refine .array h.length_eq fun i v w hv hw => ?_
    obtain ⟨hlt,rfl⟩ := List.getElem?_eq_some_iff.mp hv
    obtain ⟨hlt',rfl⟩ := List.getElem?_eq_some_iff.mp hw
    exact ((h.get hlt hlt').2.2).mpr (hall _ (List.getElem_mem hlt))

theorem exists_forall₂_carried {items : List Json} (h : ∀ v ∈ items, ∃ w, Carried codecs fds field v w) :
    ∃ ws, List.Forall₂ (Carried codecs fds field) items ws := by
  induction items with
  | nil => exact ⟨[],.nil⟩
  | cons v items ih =>
    obtain ⟨w,hw⟩ := h v List.mem_cons_self
    obtain ⟨ws,hws⟩ := ih fun x hx => h x (List.mem_cons_of_mem v hx)
    exact ⟨w :: ws,.cons hw hws⟩

theorem asArray_of_carried {items ws : List Json} (h : List.Forall₂ (Carried codecs fds field) items ws) :
    ∀ w ∈ ws, w.asArray = none := by
  induction h with
  | nil => exact fun w hw => absurd hw List.not_mem_nil
  | cons hcarried _ ih =>
    obtain ⟨⟨_,_,hwired⟩,-⟩ := hcarried
    exact List.forall_mem_cons.mpr ⟨hwired.single,ih⟩

/-- All items of a repeated field go in one after the other. -/
theorem exists_items_bytes {name : String} (hvalid : desc.Valid) (hfield : field ∈ desc.field) (hname : field.jsonName = some name)
    {items ws : List Json} (h : List.Forall₂ (Carried codecs fds field) items ws) :
    ∃ bytes, (∀ fuel, (∀ v ∈ items, v.depth ≤ fuel) → ∀ buf, items.foldlM (fun buf item =>
        if item.isNull then .ok buf
        else (encodeSingleField codecs fds (encodeWithin codecs fds fuel) field item).map (buf ++ ·)) buf = .ok (buf ++ bytes)) ∧
      (bytes.length < 2 ^ 64 → ∀ obj rest u,
        Decodes codecs fds (ws.foldl (fun obj w => accumulate obj name w) obj) rest desc u →
        Decodes codecs fds obj (bytes ++ rest) desc u) := by
  induction h with
  | nil => exact ⟨[],fun _ _ buf => by simp [pure,Except.pure],fun _ _ _ _ h => h⟩
  | @cons v w items ws hcarried _ ih =>
    obtain ⟨⟨wireType,payload,hwired⟩,hnull,-⟩ := hcarried
    obtain ⟨bytes,hencode,hdecode⟩ := ih
    refine ⟨writeTag field.wireNumber wireType ++ payload ++ bytes,fun fuel hfuel buf => ?_,fun hlen obj rest u h => ?_⟩
    · rw [List.foldlM_cons,hnull,hwired.encode fuel (hfuel v List.mem_cons_self)]
      rw [← List.append_assoc]
      exact hencode fuel (fun x hx => hfuel x (List.mem_cons_of_mem v hx)) _
    · simp only [List.length_append] at hlen
      rw [List.append_assoc]
      exact decodes_step hvalid hfield hname hwired (by omega) (hdecode (by omega) _ rest u h)

/-- A field that the object has goes into the message, and comes out as said. -/
structure FieldWired (codecs : Codecs) (fds : List FileDescriptorProto) (desc : DescriptorProto) (field : FieldDescriptorProto)
    (name : String) (v : Json) (bytes : Bytes) (out : Option Json) : Prop where
  present : v.isNull = false
  encode : ∀ fuel, v.depth ≤ fuel → encodeField codecs fds (encodeWithin codecs fds fuel) field v = .ok bytes
  decode : bytes.length < 2 ^ 64 → ∀ obj rest u, obj.lookup name = none →
    Decodes codecs fds (obj ++ out.toList.map fun w => (name,w)) rest desc u → Decodes codecs fds obj (bytes ++ rest) desc u
  same_iff : (∃ w, out = some w ∧ Json.Same v w) ↔
    field.Takes codecs fds v 2 ∧ ∀ x ∈ field.elements v, ReturnsWithin codecs fds field x

theorem exists_fieldWired {name : String} (hvalid : desc.Valid) (hfield : field ∈ desc.field) (hname : field.jsonName = some name)
    (htakes : field.Takes codecs fds v 0) (hcarried : ∀ x ∈ field.elements v, ∃ w, Carried codecs fds field x w) :
    ∃ bytes out, FieldWired codecs fds desc field name v bytes out := by
  cases hrepeated : field.isRepeated with
  | false =>
    have helements : field.elements v = [v] := by simp [FieldDescriptorProto.elements,hrepeated]
    obtain ⟨w,⟨wireType,payload,hwired⟩,hnull,hsame⟩ := hcarried v (by simp [helements])
    refine ⟨writeTag field.wireNumber wireType ++ payload,some w,hnull,fun fuel hfuel => ?_,fun hlen obj rest u hobj h => ?_,?_⟩
    · rw [encodeField,hrepeated]
      exact hwired.encode fuel hfuel
    · rw [List.length_append] at hlen
      refine decodes_step hvalid hfield hname hwired (by omega) ?_
      rwa [accumulate,hobj]
    · have htakes2 : field.Takes codecs fds v 2 := ⟨fun h => absurd h (by simp [hrepeated]),htakes.typed⟩
      simp [hsame,htakes2,helements]
  | true =>
    obtain ⟨items,rfl,-⟩ := htakes.items hrepeated
    have helements : field.elements (.array items) = items := by simp [FieldDescriptorProto.elements,hrepeated,Json.asArray]
    rw [helements] at hcarried
    obtain ⟨ws,hws⟩ := exists_forall₂_carried hcarried
    obtain ⟨bytes,hencode,hdecode⟩ := exists_items_bytes hvalid hfield hname hws
    have hsingle := asArray_of_carried hws
    refine ⟨bytes,collapse ws,rfl,fun fuel hfuel => ?_,fun hlen obj rest u hobj h => ?_,?_⟩
    · rw [encodeField,hrepeated]
      exact hencode fuel (fun x hx => Nat.le_trans (Json.depth_le_depthItems hx) (Nat.le_of_succ_le hfuel)) []
    · refine hdecode hlen obj rest u ?_
      rwa [foldl_accumulate hobj hsingle]
    · rw [helements]
      cases hws with
      | nil =>
        constructor
        · rintro ⟨_,hw,_⟩
          cases hw
        · rintro ⟨htakes2,-⟩
          obtain ⟨items,heq,hlen⟩ := htakes2.items hrepeated
          cases heq
          simp at hlen
      | @cons x w items ws hx hrest =>
        cases hrest with
        | nil =>
          have harray : w.asArray = none := hsingle w List.mem_cons_self
          constructor
          · rintro ⟨_,hw,hsame⟩
            obtain rfl := Option.some.inj hw
            cases hsame with
            | scalar _ hnone _ => cases hnone
            | array _ _ => cases harray
          · rintro ⟨htakes2,-⟩
            obtain ⟨items,heq,hlen⟩ := htakes2.items hrepeated
            cases heq
            simp at hlen
        | @cons y z items ws hy hrest =>
          have htakes2 : field.Takes codecs fds (.array (x :: y :: items)) 2 :=
            ⟨fun _ => ⟨_,rfl,by simp⟩,htakes.typed⟩
          rw [← same_array_iff (.cons hx (.cons hy hrest))]
          constructor
          · rintro ⟨_,hw,hsame⟩
            exact ⟨htakes2,Option.some.inj hw ▸ hsame⟩
          · rintro ⟨-,hsame⟩
            exact ⟨_,rfl,hsame⟩

/-- What comes out under the names of some fields: nothing of the absent ones, and of the others
what comes out of each alone. -/
structure MessageWired (codecs : Codecs) (fds : List FileDescriptorProto) (desc : DescriptorProto) (obj : List (String × Json))
    (fields : List FieldDescriptorProto) (bytes : Bytes) (outs : List (String × Json)) : Prop where
  encode : ∀ fuel, Json.depthFields obj ≤ fuel → ∀ buf,
    fields.foldlM (encodeMember codecs fds (encodeWithin codecs fds fuel) obj) buf = .ok (buf ++ bytes)
  decode : bytes.length < 2 ^ 64 → ∀ acc rest u, (∀ name ∈ fields.filterMap (·.jsonName), acc.lookup name = none) →
    Decodes codecs fds (acc ++ outs) rest desc u → Decodes codecs fds acc (bytes ++ rest) desc u
  absent : ∀ key, key ∉ fields.filterMap (·.jsonName) ∨ obj.lookup key = none → outs.lookup key = none
  same_iff : ∀ field ∈ fields, ∀ name v, field.jsonName = some name → obj.lookup name = some v →
    ((∃ w, outs.lookup name = some w ∧ Json.Same v w) ↔
      field.Takes codecs fds v 2 ∧ ∀ x ∈ field.elements v, ReturnsWithin codecs fds field x)

theorem MessageWired.skip {fields : List FieldDescriptorProto} {bytes : Bytes} {outs : List (String × Json)}
    (h : MessageWired codecs fds desc obj fields bytes outs) (hskip : (field.jsonName.bind fun name => obj.lookup name) = none) :
    MessageWired codecs fds desc obj (field :: fields) bytes outs := by
  refine ⟨fun fuel hfuel buf => ?_,fun hlen acc rest u hacc => ?_,fun key hkey => ?_,?_⟩
  · rw [List.foldlM_cons,encodeMember,hskip]
    exact h.encode fuel hfuel buf
  · refine h.decode hlen acc rest u fun name hname => hacc name ?_
    rw [List.filterMap_cons]
    split
    · exact hname
    · exact List.mem_cons_of_mem _ hname
  · by_cases hobj : obj.lookup key = none
    · exact h.absent key (.inr hobj)
    · refine h.absent key (.inl fun hmem => hkey.elim (fun hnot => hnot ?_) hobj)
      rw [List.filterMap_cons]
      split
      · exact hmem
      · exact List.mem_cons_of_mem _ hmem
  · intro other hother name v hname hv
    rcases List.mem_cons.mp hother with rfl | hother
    · simp [hname,hv] at hskip
    · exact h.same_iff other hother name v hname hv

theorem MessageWired.cons {fields : List FieldDescriptorProto} {bytes fieldBytes : Bytes} {outs : List (String × Json)}
    {name : String} {out : Option Json} (h : MessageWired codecs fds desc obj fields bytes outs) (hname : field.jsonName = some name)
    (hnew : name ∉ fields.filterMap (·.jsonName)) (hv : obj.lookup name = some v)
    (hfield : FieldWired codecs fds desc field name v fieldBytes out) :
    MessageWired codecs fds desc obj (field :: fields) (fieldBytes ++ bytes) ((out.toList.map fun w => (name,w)) ++ outs) := by
  have hself : ((out.toList.map fun w => (name,w)) ++ outs).lookup name = out := by
    have hnone := h.absent name (.inl hnew)
    cases out <;> simp [hnone]
  have hother : ∀ key, key ≠ name → ((out.toList.map fun w => (name,w)) ++ outs).lookup key = outs.lookup key := by
    intro key hne
    cases out with
    | none => rfl
    | some w => simp [List.lookup_cons,beq_eq_false_iff_ne.mpr hne]
  have hnames : (field :: fields).filterMap (·.jsonName) = name :: fields.filterMap (·.jsonName) := List.filterMap_cons_some hname
  refine ⟨fun fuel hfuel buf => ?_,fun hlen acc rest u hacc hdecodes => ?_,fun key hkey => ?_,?_⟩
  · have hdepth := Json.depth_le_depthFields hv
    rw [List.foldlM_cons,encodeMember,hname,Option.bind_some,hv]
    dsimp only
    rw [hfield.present]
    rw [if_neg Bool.false_ne_true,hfield.encode fuel (by omega),← List.append_assoc]
    exact h.encode fuel hfuel _
  · rw [List.length_append] at hlen
    rw [hnames] at hacc
    rw [List.append_assoc]
    refine hfield.decode (by omega) acc _ u (hacc name List.mem_cons_self) (h.decode (by omega) _ rest u ?_ ?_)
    · intro key hkey
      have hne : key ≠ name := fun heq => hnew (heq ▸ hkey)
      rw [List.lookup_append,hacc key (List.mem_cons_of_mem name hkey)]
      cases out <;> simp [hne]
    · rwa [List.append_assoc]
  · rw [hnames] at hkey
    have hne : key ≠ name := by
      rintro rfl
      rcases hkey with hkey | hkey
      · exact hkey List.mem_cons_self
      · rw [hv] at hkey
        cases hkey
    rw [hother key hne]
    exact h.absent key (hkey.imp_left fun hnot hmem => hnot (List.mem_cons_of_mem name hmem))
  · intro other hmem key x hkey hx
    rcases List.mem_cons.mp hmem with rfl | hmem
    · obtain rfl := Option.some.inj (hname.symm.trans hkey)
      obtain rfl := Option.some.inj (hv.symm.trans hx)
      rw [hself]
      exact hfield.same_iff
    · have hne : key ≠ name := by
        rintro rfl
        exact hnew (List.mem_filterMap.mpr ⟨other,hmem,hkey⟩)
      rw [hother key hne]
      exact h.same_iff other hmem key x hkey hx

/-- The fields of a message go in one after the other. -/
theorem exists_messageWired {fields : List FieldDescriptorProto} (hnames : (fields.filterMap (·.jsonName)).Nodup)
    (h : ∀ field ∈ fields, ∀ name v, field.jsonName = some name → obj.lookup name = some v →
      ∃ bytes out, FieldWired codecs fds desc field name v bytes out) :
    ∃ bytes outs, MessageWired codecs fds desc obj fields bytes outs := by
  induction fields with
  | nil => exact ⟨[],[],by simp [pure,Except.pure],by simp,by simp,by simp⟩
  | cons field fields ih =>
    have hrest : (fields.filterMap (·.jsonName)).Nodup := hnames.sublist ((List.sublist_cons_self field fields).filterMap _)
    obtain ⟨bytes,outs,hmessage⟩ := ih hrest fun other hother => h other (List.mem_cons_of_mem field hother)
    cases hbind : field.jsonName.bind fun name => obj.lookup name with
    | none => exact ⟨bytes,outs,hmessage.skip hbind⟩
    | some v =>
      obtain ⟨name,hname,hv⟩ := Option.bind_eq_some_iff.mp hbind
      obtain ⟨fieldBytes,out,hfield⟩ := h field List.mem_cons_self name v hname hv
      rw [List.filterMap_cons_some hname,List.nodup_cons] at hnames
      exact ⟨_,_,hmessage.cons hname hnames.1 hv hfield⟩

end Fields

section Messages
variable {codecs : Codecs} {fds : List FileDescriptorProto} {field : FieldDescriptorProto} {v w : Json} {desc : DescriptorProto}

/-- A message goes into its bytes, and what comes out is the same message iff no repeated field
of it has fewer than two items. -/
structure RoundTrips (codecs : Codecs) (fds : List FileDescriptorProto) (desc : DescriptorProto) (v w : Json) (bytes : Bytes) : Prop where
  encode : ∀ fuel, v.depth ≤ fuel → encodeWithin codecs fds fuel v desc = .ok bytes
  decode : bytes.length < 2 ^ 64 → Decodes codecs fds [] bytes desc w
  single : w.asArray = none
  same_iff : Json.Same v w ↔ Conforms codecs fds 2 desc v

theorem field_eq {fields : List FieldDescriptorProto} (h : (fields.filterMap (·.jsonName)).Nodup) {f g : FieldDescriptorProto}
    {name : String} (hf : f ∈ fields) (hg : g ∈ fields) (hfname : f.jsonName = some name) (hgname : g.jsonName = some name) : f = g := by
  induction fields with
  | nil => cases hf
  | cons e fields ih =>
    have hmem : ∀ e ∈ fields, e.jsonName = some name → name ∈ fields.filterMap (·.jsonName) :=
      fun e he hname => List.mem_filterMap.mpr ⟨e,he,hname⟩
    have hrest : (fields.filterMap (·.jsonName)).Nodup := h.sublist ((List.sublist_cons_self e fields).filterMap _)
    rcases List.mem_cons.mp hf with rfl | hf'
    · rw [List.filterMap_cons_some hfname,List.nodup_cons] at h
      exact ((List.mem_cons.mp hg).resolve_right fun hg' => h.1 (hmem g hg' hgname)).symm
    · rcases List.mem_cons.mp hg with rfl | hg'
      · rw [List.filterMap_cons_some hgname,List.nodup_cons] at h
        exact absurd (hmem f hf' hfname) h.1
      · exact ih hrest hf' hg'

theorem scalar_of_hasType (htype : field.HasType codecs fds v) (hmessage : field.ty ≠ .message) :
    v.asArray = none ∧ v.asObject = none ∧ v.isNull = false := by
  rw [FieldDescriptorProto.HasType] at htype
  cases hty : field.ty with
  | message => exact absurd hty hmessage
  | string | bytes | bool =>
    simp only [hty] at htype
    obtain ⟨_,rfl⟩ := htype
    exact ⟨rfl,rfl,rfl⟩
  | int32 | sint32 | sfixed32 | enum | int64 | sint64 | sfixed64 | uint32 | fixed32 | uint64 | fixed64 =>
    simp only [hty] at htype
    obtain ⟨_,rfl,_⟩ := htype
    exact ⟨rfl,rfl,rfl⟩
  | float | double | other code => simp only [hty] at htype

theorem carried_scalar (hbase64 : ∀ bytes, codecs.base64Decode (codecs.base64Encode bytes) = .ok bytes)
    (htype : field.HasType codecs fds v) (hmessage : field.ty ≠ .message) : Carried codecs fds field v v := by
  obtain ⟨harray,hobject,hnull⟩ := scalar_of_hasType htype hmessage
  have hnone : field.messageType fds = none := if_neg hmessage
  refine ⟨wired_scalar hbase64 htype hmessage,hnull,fun _ within hwithin => ?_,fun _ => .scalar v harray hobject⟩
  rw [hnone] at hwithin
  cases hwithin

theorem carried_message {within : DescriptorProto} {bytes : Bytes} (hwithin : field.messageType fds = some within)
    (hobject : v.asObject.isSome) (h : RoundTrips codecs fds within v w bytes) : Carried codecs fds field v w := by
  have hty : field.ty = .message := by
    by_contra hne
    rw [FieldDescriptorProto.messageType,if_neg hne] at hwithin
    cases hwithin
  obtain ⟨typeName,htypeName,hresolve⟩ : ∃ typeName, field.typeName = some typeName ∧ resolveMessage fds typeName = some within := by
    rw [FieldDescriptorProto.messageType,if_pos hty] at hwithin
    exact Option.bind_eq_some_iff.mp hwithin
  refine ⟨⟨_,_,wired_delimited bytes (fun fuel hfuel => ?_) (fun hlen fuel hfuel => ?_) h.single⟩,?_,?_⟩
  · simp only [encodeSingleField,hty,htypeName,hresolve,h.encode fuel hfuel]
    rfl
  · simp only [delimitedValue,hty,htypeName,hresolve]
    exact h.decode hlen fuel hfuel
  · cases v <;> first | rfl | cases hobject
  · rw [h.same_iff]
    refine ⟨fun hconforms within' hwithin' => ?_,fun hreturns => hreturns within hwithin⟩
    obtain rfl := Option.some.inj (hwithin.symm.trans hwithin')
    exact hconforms

/-- Every object that conforms to its message makes the round trip. -/
theorem exists_roundTrips (hbase64 : ∀ bytes, codecs.base64Decode (codecs.base64Encode bytes) = .ok bytes)
    (hfds : ∀ name within, resolveMessage fds name = some within → within.Valid) (hconforms : Conforms codecs fds 0 desc v)
    (hvalid : desc.Valid) : ∃ bytes w, RoundTrips codecs fds desc v w bytes := by
  induction hconforms with
  | @object desc obj hfields hmessages ih =>
    have htakes : ∀ field ∈ desc.field, ∀ name v, field.jsonName = some name → obj.lookup name = some v → field.Takes codecs fds v 0 := by
      intro field hfield name v hname hv
      obtain ⟨other,hother,hname',htakes⟩ := hfields name v hv
      rwa [field_eq hvalid.names hfield hother hname hname']
    have hwired : ∀ field ∈ desc.field, ∀ name v, field.jsonName = some name → obj.lookup name = some v →
        ∃ bytes out, FieldWired codecs fds desc field name v bytes out := by
      intro field hfield name v hname hv
      refine exists_fieldWired hvalid hfield hname (htakes field hfield name v hname hv) fun x hx => ?_
      have htype := (htakes field hfield name v hname hv).typed x hx
      by_cases hmessage : field.ty = .message
      · rw [FieldDescriptorProto.HasType] at htype
        simp only [hmessage] at htype
        obtain ⟨within,hwithin⟩ := Option.isSome_iff_exists.mp htype.1
        have hresolve : ∃ typeName, resolveMessage fds typeName = some within := by
          rw [FieldDescriptorProto.messageType,if_pos hmessage] at hwithin
          obtain ⟨typeName,-,hresolve⟩ := Option.bind_eq_some_iff.mp hwithin
          exact ⟨typeName,hresolve⟩
        obtain ⟨typeName,hresolve⟩ := hresolve
        obtain ⟨bytes,w,hround⟩ := ih name v field x within hv hfield hname hx hwithin (hfds typeName within hresolve)
        exact ⟨w,carried_message hwithin htype.2 hround⟩
      · exact ⟨x,carried_scalar hbase64 htype hmessage⟩
    obtain ⟨bytes,outs,hmessage⟩ := exists_messageWired hvalid.names hwired
    refine ⟨bytes,.object outs,fun fuel hfuel => ?_,fun hlen => ?_,rfl,fun hsame => ?_,fun hconforms => ?_⟩
    · rw [Json.depth] at hfuel
      obtain ⟨fuel,rfl⟩ := Nat.exists_eq_add_one_of_ne_zero (n := fuel) (by omega)
      exact hmessage.encode fuel (by omega) []
    · have h := hmessage.decode hlen [] [] (.object outs) (fun _ _ => rfl) decodes_nil
      rwa [List.append_nil] at h
    · cases hsame with
      | scalar _ _ hobject => cases hobject
      | object hkeys hsame =>
        have hreturns : ∀ field ∈ desc.field, ∀ name v, field.jsonName = some name → obj.lookup name = some v →
            field.Takes codecs fds v 2 ∧ ∀ x ∈ field.elements v, ReturnsWithin codecs fds field x := by
          intro field hfield name v hname hv
          have hsome := hkeys name
          rw [hv,Option.isSome_some] at hsome
          obtain ⟨w,hw⟩ := Option.isSome_iff_exists.mp hsome.symm
          exact (hmessage.same_iff field hfield name v hname hv).mp ⟨w,hw,hsame name v w hv hw⟩
        refine .object (fun key v hv => ?_) fun key v field x within hv hfield hname hx hwithin =>
          (hreturns field hfield key v hname hv).2 x hx within hwithin
        obtain ⟨field,hfield,hname,-⟩ := hfields key v hv
        exact ⟨field,hfield,hname,(hreturns field hfield key v hname hv).1⟩
    · cases hconforms with
      | object hfields2 hmessages2 =>
        have hsame : ∀ key v, obj.lookup key = some v → ∃ w, outs.lookup key = some w ∧ Json.Same v w := by
          intro key v hv
          obtain ⟨field,hfield,hname,htakes2⟩ := hfields2 key v hv
          exact (hmessage.same_iff field hfield key v hname hv).mpr
            ⟨htakes2,fun x hx within hwithin => hmessages2 key v field x within hv hfield hname hx hwithin⟩
        refine .object (fun key => ?_) fun key v w hv hw => ?_
        · cases hv : obj.lookup key with
          | none => rw [hmessage.absent key (.inr hv)]
          | some v =>
            obtain ⟨w,hw,-⟩ := hsame key v hv
            rw [hw]
            rfl
        · obtain ⟨w',hw',hvw⟩ := hsame key v hv
          rwa [Option.some.inj (hw.symm.trans hw')]

/-- Which objects come back as they were: those without a repeated field of fewer than two items, in
the messages within as well. One item comes back alone, and no items do not come back. -/
theorem decode_encode_iff (codecs : Codecs) (fds : List FileDescriptorProto) (desc : DescriptorProto) (json : Json)
    (hbase64 : ∀ bytes, codecs.base64Decode (codecs.base64Encode bytes) = .ok bytes)
    (hfds : ∀ name within, resolveMessage fds name = some within → within.Valid) (hdesc : desc.Valid)
    (hconforms : Conforms codecs fds 0 desc json)
    (hfits : ∀ bytes, encodeJsonToProto codecs fds json desc = .ok bytes → bytes.length < 2 ^ 64) :
    (∃ bytes back, encodeJsonToProto codecs fds json desc = .ok bytes ∧ decodeProtoToJson codecs fds bytes desc = .ok back ∧
      Json.Same json back) ↔ Conforms codecs fds 2 desc json := by
  obtain ⟨bytes,back,hround⟩ := exists_roundTrips hbase64 hfds hconforms hdesc
  have hencode : encodeJsonToProto codecs fds json desc = .ok bytes := hround.encode json.depth (Nat.le_refl _)
  have hdecode : decodeProtoToJson codecs fds bytes desc = .ok back := hround.decode (hfits bytes hencode) bytes.length (Nat.le_refl _)
  rw [← hround.same_iff]
  constructor
  · rintro ⟨bytes',back',hencode',hdecode',hsame⟩
    obtain rfl := Except.ok.inj (hencode.symm.trans hencode')
    rwa [Except.ok.inj (hdecode.symm.trans hdecode')]
  · exact fun hsame => ⟨bytes,back,hencode,hdecode,hsame⟩

end Messages

section Flags

/-- `message Flags { repeated bool flags = 1; }` -/
def flagsMessage : DescriptorProto := ⟨some "Flags",[⟨some "flags",some 1,some .repeated,some .bool,none⟩],[]⟩

/-- A text of the bytes in place of base64; there are no bytes in the message. -/
def latin1 : Codecs where
  base64Encode bytes := String.ofList (bytes.map fun byte => Char.ofNat byte.toNat)
  base64Decode s := .ok (s.toList.map fun c => UInt8.ofNat c.toNat)
  f32Bytes _ := none
  f64Bytes _ := none
  f32Json _ := .null
  f64Json _ := .null

theorem latin1_decode (bytes : Bytes) : latin1.base64Decode (latin1.base64Encode bytes) = .ok bytes := by
  have hbyte : ∀ byte : UInt8, UInt8.ofNat (Char.ofNat byte.toNat).toNat = byte := by
    intro byte
    have hlt := byte.toNat_lt
    have hvalid : byte.toNat.isValidChar := .inl (by omega)
    rw [Char.ofNat,dif_pos hvalid]
    exact UInt8.ofNat_toNat
  simp [latin1,hbyte,Function.comp_def]

theorem conforms_flags (items : List Bool) {least : ℕ} (hlen : least ≤ items.length) :
    Conforms latin1 [] least flagsMessage (.object [("flags",.array (items.map .bool))]) := by
  have hlookup : ∀ key v, [("flags",Json.array (items.map .bool))].lookup key = some v → key = "flags" ∧ v = .array (items.map .bool) := by
    intro key v h
    rw [List.lookup_cons] at h
    split at h
    · exact ⟨by simpa using ‹(key == "flags") = true›,(Option.some.inj h).symm⟩
    · cases h
  refine .object (fun key v hv => ?_) fun key v field x within _ hfield _ _ hwithin => ?_
  · obtain ⟨rfl,rfl⟩ := hlookup key v hv
    refine ⟨_,List.mem_singleton_self _,rfl,fun _ => ⟨_,rfl,by simpa using hlen⟩,fun x hx => ?_⟩
    obtain ⟨b,-,rfl⟩ := List.mem_map.mp hx
    exact ⟨b,rfl⟩
  · obtain rfl := List.mem_singleton.mp hfield
    cases hwithin

/-- Two flags come back as two. -/
theorem decode_encode_two_flags :
    ∃ bytes back, encodeJsonToProto latin1 [] (.object [("flags",.array [.bool true,.bool false])]) flagsMessage = .ok bytes ∧
      decodeProtoToJson latin1 [] bytes flagsMessage = .ok back ∧ Json.Same (.object [("flags",.array [.bool true,.bool false])]) back := by
  refine (decode_encode_iff latin1 [] flagsMessage _ latin1_decode (fun _ _ h => by cases h) ⟨by decide,by decide⟩
    (conforms_flags [true,false] (Nat.zero_le _)) ?_).mpr (conforms_flags [true,false] (Nat.le_refl 2))
  rintro bytes hbytes
  obtain rfl := Except.ok.inj hbytes
  decide

/-- One flag in an array comes back as a flag. -/
theorem decode_encode_one_flag :
    Conforms latin1 [] 0 flagsMessage (.object [("flags",.array [.bool true])]) ∧
      encodeJsonToProto latin1 [] (.object [("flags",.array [.bool true])]) flagsMessage = .ok [8,1] ∧
      decodeProtoToJson latin1 [] [8,1] flagsMessage = .ok (.object [("flags",.bool true)]) ∧
      ¬ Json.Same (.object [("flags",.array [.bool true])]) (.object [("flags",.bool true)]) := by
  refine ⟨conforms_flags [true] (Nat.zero_le _),rfl,rfl,fun hsame => ?_⟩
  cases hsame with
  | object _ hfields => cases hfields "flags" (.array [.bool true]) (.bool true) rfl rfl

end Flags
end Dwara.Dataplane.GrpcWeb
