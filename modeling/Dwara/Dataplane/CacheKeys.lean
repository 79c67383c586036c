import Dwara.Dataplane.CacheReplays
import Dwara.Lib.HeaderMap
import Dwara.Lib.Text
import Dwara.Lib.Utf8

/-! What two requests with the same cache key have in common. -/

namespace Dwara.Dataplane.CacheKeys
open Dwara.Lib Dwara.Snapshot Dwara.Dataplane.ResponseCache Dwara.Dataplane.CacheGenerations

def isValueByte (b : UInt8) : Bool := 32 ≤ b.toNat && b.toNat != 127 || b.toNat == 9

/-- The value of a header line, as a parser of HTTP takes it. -/
structure HeaderValue where
  bytes : List UInt8
  valid : bytes.all isValueByte = true

def isVisibleAscii (b : UInt8) : Bool := 32 ≤ b.toNat && b.toNat < 127 || b.toNat == 9

/-- The value as text, if all of it is visible ASCII. -/
def HeaderValue.toStr (v : HeaderValue) : Option String :=
  if v.bytes.all isVisibleAscii then some (String.ofList (v.bytes.map fun b => Char.ofNat b.toNat)) else none

def captureVaryValues (vary : List String) (headers : HeaderMap String HeaderValue) : List (String × String) :=
  vary.map fun name => (name,", ".intercalate ((headers.getAll name).filterMap HeaderValue.toStr))

/-- A request at the cache, with the epoch and the vary set of its route. None of its texts has a NUL. -/
structure CacheableRequest where
  route : String
  epoch : ℕ
  identity : Option String
  method : String
  path : String
  query : Option String
  vary : List String
  headers : HeaderMap String HeaderValue
  epoch_lt : epoch < 256 ^ 8
  plain : ∀ text ∈ [route,identity.getD "",method,path,query.getD ""], 0 ∉ bytes text
  varyNames : ∀ name ∈ vary, 1 ∉ bytes name

theorem filter_getD (text : Option String) : (text.filter (· ≠ "")).getD "" = text.getD "" := by
  cases text with
  | none => rfl
  | some s =>
    by_cases hs : s = ""
    · subst hs
      rfl
    · simp [Option.filter,hs]

theorem filter_eq (text : Option String) :
    text.filter (· ≠ "") = if text.getD "" = "" then none else some (text.getD "") := by
  cases text with
  | none => rfl
  | some s =>
    by_cases hs : s = ""
    · subst hs
      rfl
    · simp [Option.filter,hs]

theorem filter_eq_iff {text text' : Option String} :
    text.filter (· ≠ "") = text'.filter (· ≠ "") ↔ text.getD "" = text'.getD "" := by
  constructor
  · intro h
    rw [← filter_getD text,h,filter_getD]
  · intro h
    rw [filter_eq,filter_eq,h]

theorem filter_eq_self_iff {text : Option String} : text.filter (· ≠ "") = text ↔ text ≠ some "" := by
  cases text with
  | none => exact iff_of_true rfl nofun
  | some s => simp [Option.filter]

namespace CacheableRequest

def key (sha256Hex : List UInt8 → String) (r : CacheableRequest) : String :=
  deriveKey sha256Hex r.route ⟨r.epoch,r.identity,r.method,r.path,r.query,captureVaryValues r.vary r.headers⟩

/-- The lines of a header, joined with commas. -/
def joined (r : CacheableRequest) (name : String) : List UInt8 :=
  (bytes ", ").intercalate ((r.headers.getAll name).map HeaderValue.bytes)

/-- The requests agree in all that is to separate two of them. -/
structure Agree (r r' : CacheableRequest) : Prop where
  route : r.route = r'.route
  epoch : r.epoch = r'.epoch
  method : r.method = r'.method
  identity : r.identity = r'.identity
  path : r.path = r'.path
  query : r.query = r'.query
  vary : r.vary = r'.vary
  joined : ∀ name ∈ r.vary, r.joined name = r'.joined name

/-- The request without the header lines that are no text, and with nothing in place of an empty query or
consumer name. -/
def readable (r : CacheableRequest) : CacheableRequest where
  route := r.route
  epoch := r.epoch
  identity := r.identity.filter (· ≠ "")
  method := r.method
  path := r.path
  query := r.query.filter (· ≠ "")
  vary := r.vary
  headers := r.headers.filter fun line => line.2.toStr.isSome
  epoch_lt := r.epoch_lt
  plain := by
    rw [filter_getD,filter_getD]
    exact r.plain
  varyNames := r.varyNames

/-- Every line of a vary header is text, and neither the query nor the consumer name is empty where it is there. -/
structure Readable (r : CacheableRequest) : Prop where
  lines : ∀ name ∈ r.vary, ∀ v ∈ r.headers.getAll name, v.toStr.isSome
  query : r.query ≠ some ""
  identity : r.identity ≠ some ""

end CacheableRequest

section Bytes

theorem bytes_append (s t : String) : bytes (s ++ t) = bytes s ++ bytes t := by
  simp [bytes,String.toUTF8]

theorem bytes_ofList (cs : List Char) : bytes (String.ofList cs) = Utf8.encode cs := by
  rw [bytes,String.toUTF8,String.toByteArray_ofList,List.utf8Encode,Utf8.encode]
  simp

theorem bytes_intercalate (sep : String) (l : List String) : bytes (sep.intercalate l) = (bytes sep).intercalate (l.map bytes) := by
  induction l with
  | nil => rfl
  | cons s l ih =>
    cases l with
    | nil => simp
    | cons t l =>
      rw [String.intercalate_cons_cons,bytes_append,bytes_append,ih]
      exact List.intercalate_cons_cons.symm

theorem not_mem_intercalate {α : Type*} {a : α} {sep : List α} {ls : List (List α)} (hsep : a ∉ sep) (h : ∀ l ∈ ls, a ∉ l) :
    a ∉ sep.intercalate ls := by
  induction ls with
  | nil => exact List.not_mem_nil
  | cons l ls ih =>
    obtain ⟨hl,hls⟩ := List.forall_mem_cons.mp h
    cases ls with
    | nil => simpa using hl
    | cons m ls =>
      rw [List.intercalate_cons_cons,List.mem_append,List.mem_append]
      rintro ((hmem | hmem) | hmem)
      · exact hl hmem
      · exact hsep hmem
      · exact ih hls hmem

theorem mem_intercalate {α : Type*} {a : α} {sep l : List α} {ls : List (List α)} (hl : l ∈ ls) (ha : a ∈ l) :
    a ∈ sep.intercalate ls := by
  induction ls with
  | nil => cases hl
  | cons m ls ih =>
    cases ls with
    | nil =>
      obtain rfl := List.mem_singleton.mp hl
      simpa using ha
    | cons n ls =>
      rw [List.intercalate_cons_cons,List.mem_append,List.mem_append]
      rcases List.mem_cons.mp hl with rfl | hl
      · exact .inl (.inl ha)
      · exact .inr (ih hl)

theorem utf8EncodeChar_ascii {b : UInt8} (hlt : b.toNat < 128) : String.utf8EncodeChar (Char.ofNat b.toNat) = [b] := by
  have hvalid : b.toNat.isValidChar := .inl (by omega)
  have hval : (Char.ofNat b.toNat).val = b.toUInt32 := by
    rw [Char.ofNat,dif_pos hvalid]
    rfl
  have hsize : (Char.ofNat b.toNat).utf8Size = 1 := by
    have hle : b.toUInt32 ≤ 127 := by
      show b.toUInt32.toNat ≤ 127
      rw [UInt8.toNat_toUInt32]
      omega
    rw [Char.utf8Size,hval]
    exact if_pos hle
  rw [String.utf8EncodeChar_eq_singleton hsize,hval]
  simp

/-- ASCII characters are their bytes. -/
theorem encode_ascii {l : List UInt8} (h : ∀ b ∈ l, b.toNat < 128) : Utf8.encode (l.map fun b => Char.ofNat b.toNat) = l := by
  induction l with
  | nil => rfl
  | cons b l ih =>
    obtain ⟨hb,hl⟩ := List.forall_mem_cons.mp h
    rw [List.map_cons,Utf8.encode,List.flatMap_cons,utf8EncodeChar_ascii hb]
    exact congrArg (b :: ·) (ih hl)

theorem leBytes_injective {m n : ℕ} (hm : m < 256 ^ 8) (hn : n < 256 ^ 8) (h : leBytes m = leBytes n) : m = n := by
  have hbyte : ∀ i < 8, m / 256 ^ i % 256 = n / 256 ^ i % 256 := fun i hi => by
    have hget := congrArg (·[i]?) h
    simp only [leBytes,List.getElem?_map,List.getElem?_range hi,Option.map_some,Option.some.injEq] at hget
    simpa using congrArg UInt8.toNat hget
  have h0 := hbyte 0 (by omega)
  have h1 := hbyte 1 (by omega)
  have h2 := hbyte 2 (by omega)
  have h3 := hbyte 3 (by omega)
  have h4 := hbyte 4 (by omega)
  have h5 := hbyte 5 (by omega)
  have h6 := hbyte 6 (by omega)
  have h7 := hbyte 7 (by omega)
  norm_num at h0 h1 h2 h3 h4 h5 h6 h7 hm hn
  omega

end Bytes

section Lines
variable {b : UInt8} {v : HeaderValue} {s : String}

theorem isVisibleAscii_iff : isVisibleAscii b = true ↔ 32 ≤ b.toNat ∧ b.toNat < 127 ∨ b.toNat = 9 := by
  simp [isVisibleAscii]

theorem toStr_isSome_iff : v.toStr.isSome ↔ ∀ b ∈ v.bytes, isVisibleAscii b = true := by
  rw [HeaderValue.toStr]
  split
  · rename_i hall
    exact iff_of_true rfl (List.all_eq_true.mp hall)
  · rename_i hall
    exact iff_of_false Bool.false_ne_true fun h => hall (List.all_eq_true.mpr h)

/-- A text is the bytes it was read from. -/
theorem bytes_toStr (h : v.toStr = some s) : bytes s = v.bytes := by
  have hvisible := toStr_isSome_iff.mp (by rw [h]; rfl)
  rw [HeaderValue.toStr,if_pos (List.all_eq_true.mpr hvisible)] at h
  cases h
  refine (bytes_ofList _).trans (encode_ascii fun b hb => ?_)
  have := isVisibleAscii_iff.mp (hvisible b hb)
  omega

theorem readable_lines {vs : List HeaderValue} :
    (vs.filterMap HeaderValue.toStr).map bytes = (vs.filter fun v => v.toStr.isSome).map HeaderValue.bytes := by
  induction vs with
  | nil => rfl
  | cons v vs ih =>
    cases h : v.toStr with
    | none => rw [List.filterMap_cons_none h,List.filter_cons_of_neg (by simp [h]),ih]
    | some s => rw [List.filterMap_cons_some h,List.filter_cons_of_pos (by simp [h]),List.map_cons,List.map_cons,ih,bytes_toStr h]

end Lines

section Fold

/-- The vary values, as the key folds them. -/
def foldValues (values : List (String × String)) : List UInt8 :=
  values.flatMap fun (name,value) => bytes name ++ [1] ++ bytes value ++ [0]

def Foldable (values : List (String × String)) : Prop := ∀ p ∈ values, 1 ∉ bytes p.1 ∧ 0 ∉ bytes p.2

theorem foldValues_cons (p : String × String) (values : List (String × String)) :
    foldValues (p :: values) = bytes p.1 ++ 1 :: (bytes p.2 ++ 0 :: foldValues values) := by
  simp [foldValues]

theorem foldValues_injective {values values' : List (String × String)} (hv : Foldable values) (hv' : Foldable values')
    (h : foldValues values = foldValues values') : values = values' := by
  induction values generalizing values' with
  | nil =>
    cases values' with
    | nil => rfl
    | cons p values' =>
      rw [foldValues_cons] at h
      exact absurd h.symm (by simp [foldValues])
  | cons p values ih =>
    cases values' with
    | nil =>
      rw [foldValues_cons] at h
      exact absurd h (by simp [foldValues])
    | cons p' values' =>
      obtain ⟨hp,hv⟩ := List.forall_mem_cons.mp hv
      obtain ⟨hp',hv'⟩ := List.forall_mem_cons.mp hv'
      rw [foldValues_cons,foldValues_cons] at h
      obtain ⟨hname,h⟩ := Text.append_sep_inj hp.1 hp'.1 h
      obtain ⟨hvalue,h⟩ := Text.append_sep_inj hp.2 hp'.2 h
      rw [ih hv hv' h,Prod.ext (bytes_injective hname) (bytes_injective hvalue)]

/-- The key tells all of its parts, up to what is absent and what is empty. -/
theorem deriveKey_injective {sha256Hex : List UInt8 → String} (hsha : Function.Injective sha256Hex) {route route' : String} {k k' : KeyParts}
    (hk : k.epoch < 256 ^ 8) (hk' : k'.epoch < 256 ^ 8)
    (hplain : ∀ text ∈ [route,k.consumer.getD "",k.method,k.path,k.query.getD ""], 0 ∉ bytes text)
    (hplain' : ∀ text ∈ [route',k'.consumer.getD "",k'.method,k'.path,k'.query.getD ""], 0 ∉ bytes text)
    (hvalues : Foldable k.varyValues) (hvalues' : Foldable k'.varyValues)
    (h : deriveKey sha256Hex route k = deriveKey sha256Hex route' k') :
    route = route' ∧ k.epoch = k'.epoch ∧ k.method = k'.method ∧ k.consumer.getD "" = k'.consumer.getD "" ∧ k.path = k'.path ∧
      k.query.getD "" = k'.query.getD "" ∧ k.varyValues = k'.varyValues := by
  have helim : ∀ consumer : Option String, consumer.elim [] bytes = bytes (consumer.getD "") := fun consumer => by
    cases consumer <;> rfl
  simp only [List.forall_mem_cons] at hplain hplain'
  obtain ⟨hr,hc,hm,hp,hq,-⟩ := hplain
  obtain ⟨hr',hc',hm',hp',hq',-⟩ := hplain'
  have hlist := congrArg String.toList h
  rw [deriveKey,deriveKey,String.toList_append,String.toList_append] at hlist
  have hinput := hsha (String.toList_inj.mp (List.append_cancel_left hlist))
  simp only [List.append_assoc,List.cons_append,List.nil_append,helim] at hinput
  obtain ⟨hroute,hinput⟩ := Text.append_sep_inj hr hr' (List.append_cancel_left hinput)
  obtain ⟨hepoch,hinput⟩ := List.append_inj hinput (by simp [leBytes])
  obtain ⟨hmethod,hinput⟩ := Text.append_sep_inj hm hm' hinput
  obtain ⟨hconsumer,hinput⟩ := Text.append_sep_inj hc hc' hinput
  obtain ⟨hpath,hinput⟩ := Text.append_sep_inj hp hp' hinput
  obtain ⟨hquery,hinput⟩ := Text.append_sep_inj hq hq' hinput
  have hfold : foldValues k.varyValues = foldValues k'.varyValues := by simpa [foldValues] using hinput
  exact ⟨bytes_injective hroute,leBytes_injective hk hk' hepoch,bytes_injective hmethod,bytes_injective hconsumer,
    bytes_injective hpath,bytes_injective hquery,foldValues_injective hvalues hvalues' hfold⟩

end Fold
namespace CacheableRequest
variable {r r' r'' : CacheableRequest} {name : String}

theorem Agree.symm (h : r.Agree r') : r'.Agree r :=
  ⟨h.route.symm,h.epoch.symm,h.method.symm,h.identity.symm,h.path.symm,h.query.symm,h.vary.symm,
    fun name hname => (h.joined name (h.vary ▸ hname)).symm⟩

theorem Agree.trans (h : r.Agree r') (h' : r'.Agree r'') : r.Agree r'' :=
  ⟨h.route.trans h'.route,h.epoch.trans h'.epoch,h.method.trans h'.method,h.identity.trans h'.identity,h.path.trans h'.path,
    h.query.trans h'.query,h.vary.trans h'.vary,fun name hname => (h.joined name hname).trans (h'.joined name (h.vary ▸ hname))⟩

theorem getAll_readable (r : CacheableRequest) (name : String) :
    r.readable.headers.getAll name = (r.headers.getAll name).filter fun v => v.toStr.isSome := by
  simp only [readable,HeaderMap.getAll,List.filter_map,List.filter_filter]
  congr 2
  funext line
  exact Bool.and_comm _ _

/-- What is captured of a header is what is readable of it. -/
theorem bytes_captured (r : CacheableRequest) (name : String) :
    bytes (", ".intercalate ((r.headers.getAll name).filterMap HeaderValue.toStr)) = r.readable.joined name := by
  rw [bytes_intercalate,readable_lines,joined,getAll_readable]

theorem isVisibleAscii_joined {b : UInt8} (hb : isVisibleAscii b = false) : b ∉ r.readable.joined name := by
  have hsep : (bytes ", ").all isVisibleAscii = true := by decide
  refine not_mem_intercalate (fun hmem => ?_) (fun l hl hmem => ?_)
  · exact Bool.false_ne_true (hb.symm.trans (List.all_eq_true.mp hsep b hmem))
  · rw [getAll_readable] at hl
    obtain ⟨v,hv,rfl⟩ := List.mem_map.mp hl
    exact Bool.false_ne_true (hb.symm.trans (toStr_isSome_iff.mp (List.mem_filter.mp hv).2 b hmem))

theorem foldable_captured (r : CacheableRequest) : Foldable (captureVaryValues r.vary r.headers) := by
  intro p hp
  obtain ⟨name,hname,rfl⟩ := List.mem_map.mp hp
  refine ⟨r.varyNames name hname,?_⟩
  rw [bytes_captured]
  exact isVisibleAscii_joined (by decide)

theorem captured_eq_iff : captureVaryValues r.vary r.headers = captureVaryValues r'.vary r'.headers ↔
    r.vary = r'.vary ∧ ∀ name ∈ r.vary, r.readable.joined name = r'.readable.joined name := by
  have hnames : ∀ r : CacheableRequest, (captureVaryValues r.vary r.headers).map Prod.fst = r.vary := fun r => by
    simp [captureVaryValues,Function.comp_def]
  constructor
  · intro h
    have hvary : r.vary = r'.vary := by rw [← hnames r,h,hnames]
    refine ⟨hvary,fun name hname => ?_⟩
    rw [captureVaryValues,captureVaryValues,← hvary] at h
    rw [← bytes_captured,← bytes_captured,(Prod.mk.inj (List.map_inj_left.mp h name hname)).2]
  · rintro ⟨hvary,hjoined⟩
    rw [captureVaryValues,captureVaryValues,← hvary]
    refine List.map_inj_left.mpr fun name hname => ?_
    have hsame := hjoined name hname
    rw [← bytes_captured,← bytes_captured] at hsame
    rw [bytes_injective hsame]

/-- Two requests have one key just when they agree in what is readable of them. -/
theorem key_eq_iff {sha256Hex : List UInt8 → String} (hsha : Function.Injective sha256Hex) :
    r.key sha256Hex = r'.key sha256Hex ↔ r.readable.Agree r'.readable := by
  constructor
  · intro h
    obtain ⟨hroute,hepoch,hmethod,hidentity,hpath,hquery,hvalues⟩ := deriveKey_injective hsha r.epoch_lt r'.epoch_lt r.plain r'.plain
      (foldable_captured r) (foldable_captured r') h
    obtain ⟨hvary,hjoined⟩ := captured_eq_iff.mp hvalues
    exact ⟨hroute,hepoch,hmethod,filter_eq_iff.mpr hidentity,hpath,filter_eq_iff.mpr hquery,hvary,hjoined⟩
  · intro h
    have helim : ∀ consumer : Option String, consumer.elim [] bytes = bytes (consumer.getD "") := fun consumer => by
      cases consumer <;> rfl
    have hvalues : captureVaryValues r.vary r.headers = captureVaryValues r'.vary r'.headers := captured_eq_iff.mpr ⟨h.vary,h.joined⟩
    have hroute : r.route = r'.route := h.route
    have hepoch : r.epoch = r'.epoch := h.epoch
    have hmethod : r.method = r'.method := h.method
    have hpath : r.path = r'.path := h.path
    rw [key,key,deriveKey,deriveKey,helim,helim,filter_eq_iff.mp h.identity,filter_eq_iff.mp h.query,hroute,hepoch,hmethod,hpath,hvalues]

/-- A request agrees with what is readable of it just when all of it is. -/
theorem agree_readable_iff : r.Agree r.readable ↔ r.Readable := by
  constructor
  · intro h
    refine ⟨fun name hname v hv => toStr_isSome_iff.mpr fun b hb => ?_,?_,?_⟩
    · by_contra hnot
      have hmem : b ∈ r.joined name := mem_intercalate (List.mem_map_of_mem hv) hb
      rw [h.joined name hname] at hmem
      exact isVisibleAscii_joined (Bool.eq_false_iff.mpr hnot) hmem
    · exact filter_eq_self_iff.mp h.query.symm
    · exact filter_eq_self_iff.mp h.identity.symm
  · intro h
    refine ⟨rfl,rfl,rfl,(filter_eq_self_iff.mpr h.identity).symm,rfl,(filter_eq_self_iff.mpr h.query).symm,rfl,fun name hname => ?_⟩
    rw [joined,joined,getAll_readable,List.filter_eq_self.mpr (h.lines name hname)]

theorem readable_readable (r : CacheableRequest) : r.readable.Readable := by
  refine ⟨fun name _ v hv => ?_,?_,?_⟩
  · rw [getAll_readable] at hv
    exact (List.mem_filter.mp hv).2
  · exact filter_eq_self_iff.mp (filter_eq_iff.mpr (filter_getD r.query))
  · exact filter_eq_self_iff.mp (filter_eq_iff.mpr (filter_getD r.identity))

end CacheableRequest

open CacheableRequest

/-- Two requests with one key agree just when they do as far as they agree in what is readable of them; and
a request agrees with every readable one of its key just when it is readable. -/
theorem key_separates_iff {sha256Hex : List UInt8 → String} (hsha : Function.Injective sha256Hex) (r : CacheableRequest) :
    (∀ r' : CacheableRequest, (r.key sha256Hex = r'.key sha256Hex → r.Agree r') ↔ (r.readable.Agree r'.readable → r.Agree r')) ∧
    ((∀ r' : CacheableRequest, r'.Readable → r.key sha256Hex = r'.key sha256Hex → r.Agree r') ↔ r.Readable) := by
  refine ⟨fun r' => by rw [key_eq_iff hsha],fun h => ?_,fun hr r' hr' hkey => ?_⟩
  · have hkey : r.key sha256Hex = r.readable.key sha256Hex := (key_eq_iff hsha).mpr (agree_readable_iff.mpr (readable_readable r))
    exact agree_readable_iff.mp (h r.readable (readable_readable r) hkey)
  · have hreadable := (key_eq_iff hsha).mp hkey
    exact (agree_readable_iff.mpr hr).trans (hreadable.trans (agree_readable_iff.mpr hr').symm)

section Order

theorem order_epoch : 1 < 256 ^ 8 := by decide

theorem order_plain : ∀ text ∈ ["home","","GET","/",""], 0 ∉ bytes text := by decide

theorem order_varyNames : ∀ name ∈ ["x-drink"], 1 ∉ bytes name := by decide

/-- A request to a route that varies by the header. -/
def order (drink : HeaderValue) : CacheableRequest where
  route := "home"
  epoch := 1
  identity := none
  method := "GET"
  path := "/"
  query := none
  vary := ["x-drink"]
  headers := [("x-drink",drink)]
  epoch_lt := order_epoch
  plain := order_plain
  varyNames := order_varyNames

theorem tea_valid : [116,101,97].all isValueByte = true := by decide

theorem rum_valid : [114,117,109].all isValueByte = true := by decide

theorem cafe_valid : [99,97,102,233].all isValueByte = true := by decide

theorem rose_valid : [114,111,115,233].all isValueByte = true := by decide

def tea : HeaderValue := ⟨[116,101,97],tea_valid⟩

def rum : HeaderValue := ⟨[114,117,109],rum_valid⟩

/-- The last letter of both is not ASCII. -/
def cafe : HeaderValue := ⟨[99,97,102,233],cafe_valid⟩

def rose : HeaderValue := ⟨[114,111,115,233],rose_valid⟩

theorem readable_order {drink : HeaderValue} (h : drink.toStr.isSome) : (order drink).Readable := by
  refine ⟨fun n hn v hv => ?_,nofun,nofun⟩
  obtain rfl := List.mem_singleton.mp hn
  obtain rfl : v = drink := List.mem_singleton.mp hv
  exact h

theorem key_separates_drinks : (order tea).key latin ≠ (order rum).key latin := by
  intro hkey
  have hagree := (key_separates_iff latin_injective (order tea)).2.mpr (readable_order (by decide)) (order rum)
    (readable_order (by decide)) hkey
  exact absurd (hagree.joined "x-drink" List.mem_cons_self) (by decide)

/-- Whatever the hash, two values that are no text have one key. -/
theorem key_confounds_drinks : (∀ sha256Hex : List UInt8 → String, (order cafe).key sha256Hex = (order rose).key sha256Hex) ∧
    ¬ (order cafe).Agree (order rose) := by
  constructor
  · intro sha256Hex
    have hcaptured : captureVaryValues ["x-drink"] [("x-drink",cafe)] = captureVaryValues ["x-drink"] [("x-drink",rose)] := by decide
    show deriveKey sha256Hex "home" ⟨_,_,_,_,_,captureVaryValues ["x-drink"] [("x-drink",cafe)]⟩ = _
    rw [hcaptured]
    rfl
  · intro hagree
    exact absurd (hagree.joined "x-drink" List.mem_cons_self) (by decide)

end Order

end Dwara.Dataplane.CacheKeys
