import Dwara.Lib.Json

/-! Paths into a JSON value: what they lead to, and a value changed at the end of one. -/

namespace Dwara.Lib.Json

/-- The value at the first field of a name changed. -/
def onField (token : String) (f : Json → Json) : List (String × Json) → List (String × Json)
  | [] => []
  | field :: fields => if field.1 = token then (field.1,f field.2) :: fields else field :: onField token f fields

/-- A value without what its items and fields hold. -/
def shape (v : Json) : Json :=
  match v with
  | array items => array (items.map fun _ => null)
  | object fields => object (fields.map fun field => (field.1,null))
  | v => v

section Path
variable (index : String → Option ℕ)

/-- The field or the item that a token names. -/
def child (v : Json) (token : String) : Option Json :=
  match v with
  | object fields => fields.lookup token
  | array items => (index token).bind (items[·]?)
  | _ => none

def onChild (v : Json) (token : String) (f : Json → Json) : Json :=
  match v with
  | object fields => object (onField token f fields)
  | array items => array ((index token).elim items fun i => items.modify i f)
  | v => v

/-- What a path leads to. -/
def descend (v : Json) : List String → Option Json
  | [] => some v
  | token :: path => (v.child index token).bind (descend · path)

/-- The value changed where a path leads. -/
def modify (f : Json → Json) (v : Json) : List String → Json
  | [] => f v
  | token :: path => v.onChild index token (modify f · path)

end Path

section Fields
variable {token other : String} {f g : Json → Json} {fields : List (String × Json)}

theorem lookup_cons_eq {name : String} {value : Json} (h : name = token) : ((name,value) :: fields).lookup token = some value := by
  subst h
  exact List.lookup_cons_self

theorem lookup_cons_ne {name : String} {value : Json} (h : name ≠ token) :
    ((name,value) :: fields).lookup token = fields.lookup token := by
  rw [List.lookup_cons,beq_eq_false_iff_ne.mpr (Ne.symm h)]

theorem lookup_onField : (onField token f fields).lookup token = (fields.lookup token).map f := by
  induction fields with
  | nil => rfl
  | cons field fields ih =>
    rw [onField]
    by_cases h : field.1 = token
    · rw [if_pos h,lookup_cons_eq h,lookup_cons_eq h]
      rfl
    · rw [if_neg h,lookup_cons_ne h,lookup_cons_ne h]
      exact ih

theorem lookup_onField_ne (h : other ≠ token) : (onField token f fields).lookup other = fields.lookup other := by
  induction fields with
  | nil => rfl
  | cons field fields ih =>
    rw [onField]
    split
    · rename_i heq
      have hne : field.1 ≠ other := fun hother => h (hother.symm.trans heq)
      rw [lookup_cons_ne hne,lookup_cons_ne hne]
    · by_cases hother : field.1 = other
      · rw [lookup_cons_eq hother,lookup_cons_eq hother]
      · rw [lookup_cons_ne hother,lookup_cons_ne hother,ih]

theorem keys_onField (token : String) (f : Json → Json) (fields : List (String × Json)) : (onField token f fields).map (·.1) = fields.map (·.1) := by
  induction fields with
  | nil => rfl
  | cons field fields ih =>
    rw [onField]
    split
    · rfl
    · rw [List.map_cons,List.map_cons,ih]

theorem onField_congr (h : ∀ v ∈ fields.lookup token, f v = g v) : onField token f fields = onField token g fields := by
  induction fields with
  | nil => rfl
  | cons field fields ih =>
    rw [onField,onField]
    by_cases heq : field.1 = token
    · rw [if_pos heq,if_pos heq,h field.2 (lookup_cons_eq heq)]
    · rw [if_neg heq,if_neg heq,ih]
      intro v hv
      refine h v ?_
      rw [lookup_cons_ne heq]
      exact hv

end Fields

section Change
variable {index : String → Option ℕ} {token other : String} {f g : Json → Json} {v w : Json} {path : List String}

theorem child_onChild : (v.onChild index token f).child index token = (v.child index token).map f := by
  cases v with
  | object fields => exact lookup_onField
  | array items =>
    cases h : index token with
    | none => simp [onChild,child,h]
    | some i => simp [onChild,child,h]
  | null | bool b | int n | float text | string s => rfl

/-- The children of other names stay. -/
theorem child_onChild_ne (hindex : ∀ s t i, index s = some i → index t = some i → s = t) (h : other ≠ token) :
    (v.onChild index token f).child index other = v.child index other := by
  cases v with
  | object fields => exact lookup_onField_ne h
  | array items =>
    cases hi : index token with
    | none => simp [onChild,child,hi]
    | some i =>
      cases hj : index other with
      | none => simp [child,onChild,hj]
      | some j =>
        have hne : i ≠ j := fun heq => h (hindex other token j hj (heq ▸ hi))
        simp [child,onChild,hi,hj,List.getElem?_modify,hne]
  | null | bool b | int n | float text | string s => rfl

theorem shape_onChild : (v.onChild index token f).shape = v.shape := by
  cases v with
  | object fields =>
    have hkeys := congrArg (List.map fun key => (key,null)) (keys_onField token f fields)
    simp only [List.map_map] at hkeys
    exact congrArg object hkeys
  | array items =>
    cases h : index token with
    | none => simp [onChild,h]
    | some i => simp [onChild,h,shape,List.map_const']
  | null | bool b | int n | float text | string s => rfl

theorem onChild_congr (h : ∀ w ∈ v.child index token, f w = g w) : v.onChild index token f = v.onChild index token g := by
  cases v with
  | object fields => exact congrArg object (onField_congr h)
  | array items =>
    cases hi : index token with
    | none => simp [onChild,hi]
    | some i =>
      simp only [onChild,hi,Option.elim_some]
      refine congrArg array (List.ext_getElem? fun j => ?_)
      simp only [List.getElem?_modify]
      split
      · subst j
        cases hw : items[i]? with
        | none => rfl
        | some w => exact congrArg some (h w (by simp [child,hi,hw]))
      · rfl
  | null | bool b | int n | float text | string s => rfl

theorem modify_append (path tail : List String) :
    v.modify index f (path ++ tail) = v.modify index (modify index f · tail) path := by
  induction path generalizing v with
  | nil => rfl
  | cons token path ih =>
    simp only [List.cons_append,modify]
    exact onChild_congr fun w _ => ih

theorem descend_append (path tail : List String) :
    v.descend index (path ++ tail) = (v.descend index path).bind (descend index · tail) := by
  induction path generalizing v with
  | nil => rfl
  | cons token path ih =>
    rw [List.cons_append,descend,descend,Option.bind_assoc]
    exact Option.bind_congr fun w _ => ih

/-- Only what is at the end of the path matters to a change there. -/
theorem modify_congr (h : ∀ w ∈ v.descend index path, f w = g w) : v.modify index f path = v.modify index g path := by
  induction path generalizing v with
  | nil => exact h v rfl
  | cons token path ih =>
    rw [modify,modify]
    refine onChild_congr fun w hw => ih fun u hu => h u ?_
    rw [descend,hw]
    exact hu

/-- Behind the change lies what it left there. -/
theorem descend_modify (path tail : List String) :
    (v.modify index f path).descend index (path ++ tail) = (v.descend index path).bind fun w => (f w).descend index tail := by
  induction path generalizing v with
  | nil => rfl
  | cons token path ih =>
    rw [List.cons_append,modify,descend,descend,child_onChild]
    cases v.child index token with
    | none => rfl
    | some w => exact ih

/-- Off the change every value keeps its shape. -/
theorem shape_descend_modify (hindex : ∀ s t i, index s = some i → index t = some i → s = t) {place : List String}
    (h : ¬ path <+: place) :
    ((v.modify index f path).descend index place).map shape = (v.descend index place).map shape := by
  induction path generalizing v place with
  | nil => exact absurd List.nil_prefix h
  | cons token path ih =>
    cases place with
    | nil => exact congrArg some shape_onChild
    | cons other place =>
      rw [modify,descend,descend]
      by_cases heq : other = token
      · subst other
        rw [List.cons_prefix_cons] at h
        rw [child_onChild]
        cases v.child index token with
        | none => rfl
        | some w => exact ih fun hstart => h ⟨rfl,hstart⟩
      · rw [child_onChild_ne hindex heq]

/-- What neither leads to a change nor lies behind it stays. -/
theorem descend_modify_apart (hindex : ∀ s t i, index s = some i → index t = some i → s = t) {place : List String}
    (h : ¬ path <+: place) (h' : ¬ place <+: path) : (v.modify index f path).descend index place = v.descend index place := by
  induction path generalizing v place with
  | nil => exact absurd List.nil_prefix h
  | cons token path ih =>
    cases place with
    | nil => exact absurd List.nil_prefix h'
    | cons other place =>
      rw [modify,descend,descend]
      by_cases heq : other = token
      · subst other
        rw [List.cons_prefix_cons] at h h'
        rw [child_onChild]
        cases v.child index token with
        | none => rfl
        | some w => exact ih (fun hstart => h ⟨rfl,hstart⟩) fun hstart => h' ⟨rfl,hstart⟩
      · rw [child_onChild_ne hindex heq]

end Change

section Members
variable (index : String → Option ℕ)

/-- A member of an object written, or an item of an array replaced. -/
def put (v : Json) (token : String) (value : Json) : Json :=
  match v with
  | object _ => v.insert token value
  | array items => array ((index token).elim items fun i => items.set i value)
  | v => v

/-- A member of an object dropped, or an item of an array with the later ones moved up. -/
def erase (v : Json) (token : String) : Json :=
  match v with
  | object fields => object (fields.filter (·.1 ≠ token))
  | array items => array ((index token).elim items items.eraseIdx)
  | v => v

variable {index} {token other : String} {fields : List (String × Json)} {items : List Json} {value : Json} {i j : ℕ}

theorem lookup_filter_ne (h : other ≠ token) : (fields.filter (·.1 ≠ token)).lookup other = fields.lookup other := by
  induction fields with
  | nil => rfl
  | cons field fields ih =>
    by_cases hfield : field.1 = token
    · have hne : field.1 ≠ other := fun heq => h (heq.symm.trans hfield)
      rw [List.filter_cons_of_neg (by simpa using hfield),ih,lookup_cons_ne hne]
    · rw [List.filter_cons_of_pos (by simpa using hfield)]
      by_cases hother : field.1 = other
      · rw [lookup_cons_eq hother,lookup_cons_eq hother]
      · rw [lookup_cons_ne hother,lookup_cons_ne hother,ih]

theorem lookup_filter_self : (fields.filter (·.1 ≠ token)).lookup token = none := by
  refine List.lookup_eq_none_iff.mpr fun field hfield => ?_
  simpa using Ne.symm (by simpa using (List.mem_filter.mp hfield).2 : field.1 ≠ token)

theorem child_put_object : ((object fields).put index token value).child index token = some value := by
  change (fields.filter (·.1 ≠ token) ++ [(token,value)]).lookup token = some value
  rw [List.lookup_append,lookup_filter_self]
  simp

theorem child_put_array (hi : index token = some i) (hlt : i < items.length) :
    ((array items).put index token value).child index token = some value := by
  simp [put,child,hi,hlt]

theorem child_put_ne (hindex : ∀ s t i, index s = some i → index t = some i → s = t) (h : other ≠ token) (v : Json) :
    (v.put index token value).child index other = v.child index other := by
  cases v with
  | object fields =>
    change (fields.filter (·.1 ≠ token) ++ [(token,value)]).lookup other = fields.lookup other
    rw [List.lookup_append,lookup_filter_ne h,lookup_cons_ne (Ne.symm h)]
    simp
  | array items =>
    cases hi : index token with
    | none => simp [put,hi]
    | some i =>
      cases hj : index other with
      | none => simp [child,put,hj]
      | some j =>
        have hne : i ≠ j := fun heq => h (hindex other token j hj (heq ▸ hi))
        simp [child,put,hi,hj,List.getElem?_set,hne]
  | null | bool b | int n | float text | string s => rfl

theorem child_erase_object_ne (h : other ≠ token) :
    ((object fields).erase index token).child index other = (object fields).child index other := lookup_filter_ne h

theorem child_erase_object_self : ((object fields).erase index token).child index token = none := lookup_filter_self

/-- Before the item that is dropped the others stay, behind it they move up. -/
theorem child_erase_array (hi : index token = some i) (hj : index other = some j) :
    ((array items).erase index token).child index other = if j < i then items[j]? else items[j + 1]? := by
  simp only [erase,child,hi,hj,Option.elim_some,Option.bind_some,List.getElem?_eraseIdx]

end Members
end Dwara.Lib.Json
