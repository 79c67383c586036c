import Mathlib.Algebra.Group.Int.Defs
import Mathlib.Data.Int.Notation
import Mathlib.Data.Nat.Notation
import Mathlib.Data.List.Sort
import Mathlib.Order.Basic
import Mathlib.Order.Lattice
import Mathlib.Order.Nat

/-! JSON values, as a text that parses to one stands for them. -/

namespace Dwara.Lib

section Fallible
universe u
variable {ε : Type*} {α β : Type u}

/-- A step after one that may fail. -/
theorem bind_eq_ok {x : Except ε α} {f : α → Except ε β} {b : β} : (x >>= f) = .ok b ↔ ∃ a, x = .ok a ∧ f a = .ok b := by
  cases x with
  | error e => exact ⟨fun h => (by cases h),fun ⟨_,h,_⟩ => by cases h⟩
  | ok a => exact ⟨fun h => ⟨a,rfl,h⟩,fun ⟨_,ha,h⟩ => Except.ok.inj ha ▸ h⟩

theorem elim_eq_ok {o : Option α} {e : ε} {a : α} : o.elim (.error e) .ok = Except.ok a ↔ o = some a := by
  cases o with
  | none => exact ⟨fun h => (by cases h),fun h => by cases h⟩
  | some b => exact ⟨fun h => congrArg some (Except.ok.inj h),fun h => congrArg Except.ok (Option.some.inj h)⟩

/-- Values read one by one, none of which fails. -/
theorem forall₂_of_mapM {f : α → Except ε β} {xs : List α} {ys : List β} (h : xs.mapM f = .ok ys) :
    List.Forall₂ (fun x y => f x = .ok y) xs ys := by
  induction xs generalizing ys with
  | nil =>
    obtain rfl := Except.ok.inj h
    exact .nil
  | cons x xs ih =>
    rw [List.mapM_cons] at h
    obtain ⟨y,hy,h⟩ := bind_eq_ok.mp h
    obtain ⟨rest,hrest,h⟩ := bind_eq_ok.mp h
    obtain rfl := Except.ok.inj h
    exact .cons hy (ih hrest)

end Fallible

/-- A float is kept as its text. -/
inductive Json where
  | null
  | bool (b : Bool)
  | int (n : ℤ)
  | float (text : String)
  | string (s : String)
  | array (items : List Json)
  | object (fields : List (String × Json))

namespace Json

def get (v : Json) (field : String) : Option Json :=
  match v with
  | object fields => fields.lookup field
  | _ => none

def asStr : Json → Option String
  | string s => some s
  | _ => none

def asArray : Json → Option (List Json)
  | array items => some items
  | _ => none

def asObject : Json → Option (List (String × Json))
  | object fields => some fields
  | _ => none

def asU64 : Json → Option UInt64
  | int n => if 0 ≤ n ∧ n < 2^64 then some (UInt64.ofNat n.toNat) else none
  | _ => none

def asBool : Json → Option Bool
  | bool b => some b
  | _ => none

theorem asStr_eq_some {v : Json} {s : String} : v.asStr = some s ↔ v = string s := by
  cases v <;> simp [asStr]

theorem asArray_eq_some {v : Json} {items : List Json} : v.asArray = some items ↔ v = array items := by
  cases v <;> simp [asArray]

theorem asObject_eq_some {v : Json} {fields : List (String × Json)} : v.asObject = some fields ↔ v = object fields := by
  cases v <;> simp [asObject]

theorem asBool_eq_some {v : Json} {b : Bool} : v.asBool = some b ↔ v = bool b := by
  cases v <;> simp [asBool]

/-- A field set to a value. -/
def insert (v : Json) (key : String) (value : Json) : Json :=
  match v with
  | object fields => object (fields.filter (·.1 ≠ key) ++ [(key,value)])
  | _ => v

def isNull : Json → Bool
  | null => true
  | _ => false

/-- A character within a string literal. -/
def escape (c : Char) : List Char :=
  if c = '"' then ['\\','"'] else if c = '\\' then ['\\','\\']
  else if c = '\n' then ['\\','n'] else if c = '\r' then ['\\','r'] else if c = '\t' then ['\\','t']
  else if c.toNat = 8 then ['\\','b'] else if c.toNat = 12 then ['\\','f']
  else if c.toNat < 32 then ['\\','u','0','0',Nat.digitChar (c.toNat / 16),Nat.digitChar (c.toNat % 16)]
  else [c]

def quote (s : String) : List Char := '"' :: s.toList.flatMap escape ++ ['"']

mutual

/-- The compact text, with the keys of an object in order. -/
def print : Json → List Char
  | null => "null".toList
  | bool b => (toString b).toList
  | int n => (toString n).toList
  | float text => text.toList
  | string s => quote s
  | array items => '[' :: [','].intercalate (printItems items) ++ [']']
  | object fields => '\x7b' :: [','].intercalate (((printFields fields).insertionSort fun f g => f.1 ≤ g.1).map (·.2)) ++ ['\x7d']

def printItems : List Json → List (List Char)
  | [] => []
  | v :: items => print v :: printItems items

def printFields : List (String × Json) → List (String × List Char)
  | [] => []
  | (key,v) :: fields => (key,quote key ++ ':' :: print v) :: printFields fields

end

/-- The text of a value, as it is sent. -/
def toText (v : Json) : String := String.ofList v.print

end Json
end Dwara.Lib

/-! JSON values as trees: how deep they are, and when two of them differ in the order of
keys only. -/

namespace Dwara.Lib.Json

mutual

/-- How deep arrays and objects are nested. -/
def depth : Json → ℕ
  | array items => depthItems items + 1
  | object fields => depthFields fields + 1
  | _ => 0

def depthItems : List Json → ℕ
  | [] => 0
  | v :: items => max (depth v) (depthItems items)

def depthFields : List (String × Json) → ℕ
  | [] => 0
  | (_,v) :: fields => max (depth v) (depthFields fields)

end

theorem depth_le_depthItems {items : List Json} {v : Json} (h : v ∈ items) : depth v ≤ depthItems items := by
  induction items with
  | nil => cases h
  | cons w items ih =>
    rw [depthItems]
    rcases List.mem_cons.mp h with rfl | h
    · exact le_max_left _ _
    · exact le_trans (ih h) (le_max_right _ _)

theorem depth_le_depthFields {fields : List (String × Json)} {key : String} {v : Json} (h : fields.lookup key = some v) :
    depth v ≤ depthFields fields := by
  induction fields with
  | nil => cases h
  | cons field fields ih =>
    obtain ⟨other,w⟩ := field
    rw [depthFields]
    rw [List.lookup_cons] at h
    split at h
    · obtain rfl := Option.some.inj h
      exact le_max_left _ _
    · exact le_trans (ih h) (le_max_right _ _)

/-- The same value, up to the order of keys. -/
inductive Same : Json → Json → Prop
  | scalar (v : Json) (harray : v.asArray = none) (hobject : v.asObject = none) : Same v v
  | array {items others : List Json} (hlen : items.length = others.length)
      (hitems : ∀ (i : ℕ) (v w : Json), items[i]? = some v → others[i]? = some w → Same v w) : Same (array items) (array others)
  | object {fields others : List (String × Json)}
      (hkeys : ∀ key, (fields.lookup key).isSome = (others.lookup key).isSome)
      (hfields : ∀ (key : String) (v w : Json), fields.lookup key = some v → others.lookup key = some w → Same v w) :
      Same (object fields) (object others)

section Sameness

private theorem same_refl_of_depth (n : ℕ) : ∀ v : Json, depth v < n → Same v v := by
  induction n with
  | zero => exact fun v h => absurd h (Nat.not_lt_zero _)
  | succ n ih =>
    intro v h
    cases v with
    | array items =>
      refine .array rfl fun i v w hv hw => ?_
      obtain rfl := Option.some.inj (hv.symm.trans hw)
      have hle := depth_le_depthItems (List.mem_of_getElem? hv)
      rw [depth] at h
      exact ih v (by omega)
    | object fields =>
      refine .object (fun _ => rfl) fun key v w hv hw => ?_
      obtain rfl := Option.some.inj (hv.symm.trans hw)
      have hle := depth_le_depthFields hv
      rw [depth] at h
      exact ih v (by omega)
    | null => exact .scalar _ rfl rfl
    | bool b => exact .scalar _ rfl rfl
    | int n => exact .scalar _ rfl rfl
    | float text => exact .scalar _ rfl rfl
    | string s => exact .scalar _ rfl rfl

@[refl] theorem Same.refl (v : Json) : Same v v := same_refl_of_depth (depth v + 1) v (Nat.lt_succ_self _)

/-- A value without parts is the same as itself only. -/
theorem same_scalar_iff {v w : Json} (harray : v.asArray = none) (hobject : v.asObject = none) : Same v w ↔ w = v := by
  constructor
  · intro h
    cases h with
    | scalar => rfl
    | array => cases harray
    | object => cases hobject
  · rintro rfl
    exact .scalar _ harray hobject

theorem same_array_iff {items : List Json} {w : Json} :
    Same (array items) w ↔ ∃ others, w = array others ∧ List.Forall₂ Same items others := by
  constructor
  · intro h
    cases h with
    | scalar _ harray => cases harray
    | array hlen hitems =>
      refine ⟨_,rfl,List.forall₂_iff_get.mpr ⟨hlen,fun i hi hj => ?_⟩⟩
      exact hitems i _ _ (List.getElem?_eq_getElem hi) (List.getElem?_eq_getElem hj)
  · rintro ⟨others,rfl,h⟩
    obtain ⟨hlen,hitems⟩ := List.forall₂_iff_get.mp h
    refine .array hlen fun i v w hv hw => ?_
    obtain ⟨hi,rfl⟩ := List.getElem?_eq_some_iff.mp hv
    obtain ⟨hj,rfl⟩ := List.getElem?_eq_some_iff.mp hw
    exact hitems i hi hj

theorem rel_none_iff {o : Option Json} : Option.Rel Same none o ↔ o = none := by
  constructor
  · intro h
    cases h
    rfl
  · rintro rfl
    exact .none

theorem rel_some_iff {v : Json} {o : Option Json} : Option.Rel Same (some v) o ↔ ∃ w, o = some w ∧ Same v w := by
  constructor
  · intro h
    cases h with
    | some h => exact ⟨_,rfl,h⟩
  · rintro ⟨w,rfl,h⟩
    exact .some h

theorem same_object_iff {fields : List (String × Json)} {w : Json} :
    Same (object fields) w ↔ ∃ others, w = object others ∧ ∀ key, Option.Rel Same (fields.lookup key) (others.lookup key) := by
  constructor
  · intro h
    cases h with
    | scalar _ _ hobject => cases hobject
    | object hkeys hfields =>
      rename_i others
      refine ⟨others,rfl,fun key => ?_⟩
      have hkey := hkeys key
      cases hv : fields.lookup key with
      | none =>
        rw [hv] at hkey
        rw [Option.isSome_eq_false_iff.mp hkey.symm |> Option.isNone_iff_eq_none.mp]
        exact .none
      | some v =>
        rw [hv] at hkey
        obtain ⟨u,hu⟩ := Option.isSome_iff_exists.mp hkey.symm
        rw [hu]
        exact .some (hfields key v u hv hu)
  · rintro ⟨others,rfl,h⟩
    refine .object (fun key => ?_) fun key v w hv hw => ?_
    · have hkey := h key
      cases hv : fields.lookup key with
      | none =>
        rw [hv] at hkey
        rw [rel_none_iff.mp hkey]
      | some v =>
        rw [hv] at hkey
        obtain ⟨w,hw,-⟩ := rel_some_iff.mp hkey
        rw [hw]
        rfl
    · have hkey := h key
      rw [hv,hw] at hkey
      cases hkey with
      | some hsame => exact hsame

/-- The fields that have a value. -/
def present (entries : List (String × Option Json)) : List (String × Json) :=
  entries.filterMap fun e => e.2.map fun v => (e.1,v)

theorem lookup_present_eq_none {entries : List (String × Option Json)} {name : String} (h : name ∉ entries.map Prod.fst) :
    (present entries).lookup name = none := by
  refine List.lookup_eq_none_iff.mpr fun f hf => ?_
  obtain ⟨e,he,hfe⟩ := List.mem_filterMap.mp hf
  obtain ⟨v,-,rfl⟩ := Option.map_eq_some_iff.mp hfe
  have hne : name ≠ e.1 := by
    rintro rfl
    exact h (List.mem_map_of_mem he)
  simpa using hne

theorem lookup_present {entries : List (String × Option Json)} (h : (entries.map Prod.fst).Nodup) {name : String} {value : Option Json}
    (hmem : (name,value) ∈ entries) : (present entries).lookup name = value := by
  induction entries with
  | nil => cases hmem
  | cons e entries ih =>
    rw [List.map_cons,List.nodup_cons] at h
    rw [present,List.filterMap_cons]
    rcases List.mem_cons.mp hmem with rfl | hmem
    · cases value with
      | none =>
        exact lookup_present_eq_none h.1
      | some v => simp
    · have hne : name ≠ e.1 := fun heq => h.1 (heq ▸ List.mem_map_of_mem hmem)
      have hrest := ih h.2 hmem
      obtain ⟨key,v⟩ := e
      cases v with
      | none => exact hrest
      | some v =>
        have hkey : (name == key) = false := by simpa using hne
        simp only [Option.map_some,List.lookup_cons,hkey]
        exact hrest

/-- An object of given fields, and of more with other names, compared field by field. -/
theorem same_present_append_iff {entries : List (String × Option Json)} (h : (entries.map Prod.fst).Nodup) {more : List (String × Json)}
    (hmore : ∀ name ∈ entries.map Prod.fst, more.lookup name = none) {w : Json} :
    Same (object (present entries ++ more)) w ↔ ∃ others, w = object others ∧
      (∀ e ∈ entries, Option.Rel Same e.2 (others.lookup e.1)) ∧
      ∀ name, name ∉ entries.map Prod.fst → Option.Rel Same (more.lookup name) (others.lookup name) := by
  have hlookup : ∀ name, (present entries ++ more).lookup name = ((present entries).lookup name).or (more.lookup name) :=
    fun name => List.lookup_append
  rw [same_object_iff]
  refine exists_congr fun others => and_congr_right fun _ => ⟨fun hall => ⟨fun e he => ?_,fun name hname => ?_⟩,fun ⟨hentries,hothers⟩ name => ?_⟩
  · have hname := hall e.1
    rwa [hlookup,lookup_present h he,hmore e.1 (List.mem_map_of_mem he),Option.or_none] at hname
  · have hrel := hall name
    rwa [hlookup,lookup_present_eq_none hname,Option.none_or] at hrel
  · by_cases hname : name ∈ entries.map Prod.fst
    · obtain ⟨e,he,rfl⟩ := List.mem_map.mp hname
      rw [hlookup,lookup_present h he,hmore e.1 hname,Option.or_none]
      exact hentries e he
    · rw [hlookup,lookup_present_eq_none hname,Option.none_or]
      exact hothers name hname

theorem same_present_iff {entries : List (String × Option Json)} (h : (entries.map Prod.fst).Nodup) {w : Json} :
    Same (object (present entries)) w ↔ ∃ others, w = object others ∧
      (∀ e ∈ entries, Option.Rel Same e.2 (others.lookup e.1)) ∧ ∀ name, name ∉ entries.map Prod.fst → others.lookup name = none := by
  have hmore : ∀ name ∈ entries.map Prod.fst, ([] : List (String × Json)).lookup name = none := fun _ _ => rfl
  have happend := same_present_append_iff h hmore (w := w)
  rw [List.append_nil] at happend
  rw [happend]
  exact exists_congr fun others => and_congr_right fun _ => and_congr_right fun _ => forall_congr' fun name => imp_congr_right fun _ => rel_none_iff

end Sameness

end Dwara.Lib.Json
