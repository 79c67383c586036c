import Dwara.Config.Masking
import Dwara.Lib.Pieces

/-! The operations on a JSON body, beside what they mean for the pointers into it. -/

namespace Dwara.Config.Transforms
open Dwara.Lib (Json)

section Apply

inductive JsonOp where
  | set (path : String) (value : Json)
  | remove (path : String)

structure JsonBodyTransform where
  maxBytes : ℕ
  ops : List JsonOp

inductive CompiledJsonOp where
  | set (pointer : JsonPointer) (value : Json)
  | remove (pointer : JsonPointer)

structure CompiledJsonTransform where
  maxBytes : ℕ
  ops : List CompiledJsonOp

def JsonOp.compile : JsonOp → Option CompiledJsonOp
  | .set path value => (JsonPointer.parse path).map (.set · value)
  | .remove path => (JsonPointer.parse path).map .remove

def CompiledJsonTransform.compile (cfg : JsonBodyTransform) : CompiledJsonTransform := ⟨cfg.maxBytes,cfg.ops.filterMap JsonOp.compile⟩

/-- The last step of a write: a member is inserted, an item must be there. -/
def setLast (path last : String) (value : Json) (parent : Json) : Except JsonTransformError Json :=
  match parent with
  | .object _ => .ok (parent.insert last value)
  | .array items =>
    match parseIndex last with
    | some idx => if idx < items.length then .ok (.array (items.set idx value)) else .error (.unresolved path)
    | none => .error (.unresolved path)
  | _ => .error (.unresolved path)

def applySet (pointer : JsonPointer) (value doc : Json) : Except JsonTransformError Json :=
  match pointer.tokens.getLast? with
  | none => .ok value
  | some last => resolveTokens pointer.render (setLast pointer.render last value) pointer.tokens.dropLast doc

/-- The last step of a removal: what is removed must be there. -/
def removeLast (path last : String) (parent : Json) : Except JsonTransformError Json :=
  match parent with
  | .object fields =>
    if (fields.lookup last).isSome then .ok (.object (fields.filter (·.1 ≠ last))) else .error (.unresolved path)
  | .array items =>
    match parseIndex last with
    | some idx => if idx < items.length then .ok (.array (items.eraseIdx idx)) else .error (.unresolved path)
    | none => .error (.unresolved path)
  | _ => .error (.unresolved path)

def applyRemove (pointer : JsonPointer) (doc : Json) : Except JsonTransformError Json :=
  match pointer.tokens.getLast? with
  | none => .error .removeRoot
  | some last => resolveTokens pointer.render (removeLast pointer.render last) pointer.tokens.dropLast doc

def CompiledJsonOp.apply (doc : Json) : CompiledJsonOp → Except JsonTransformError Json
  | .set pointer value => applySet pointer value doc
  | .remove pointer => applyRemove pointer doc

/-- One operation after the other, up to the first that fails. -/
def CompiledJsonTransform.apply (t : CompiledJsonTransform) (doc : Json) : Except JsonTransformError Json :=
  t.ops.foldlM CompiledJsonOp.apply doc

end Apply

section Meaning

/-- What a pointer leads to. -/
abbrev resolve (doc : Json) (tokens : List String) : Option Json := doc.descend parseIndex tokens

/-- What an operation means, where it applies. -/
def CompiledJsonOp.meaning (doc : Json) : CompiledJsonOp → Json
  | .set pointer value =>
    match pointer.tokens.getLast? with
    | none => value
    | some last => doc.modify parseIndex (·.put parseIndex last value) pointer.tokens.dropLast
  | .remove pointer =>
    match pointer.tokens.getLast? with
    | none => doc
    | some last => doc.modify parseIndex (·.erase parseIndex last) pointer.tokens.dropLast

/-- Pointers that neither lead to a place nor go through it find what they did. -/
def SameApart (tokens : List String) (doc doc' : Json) : Prop :=
  ∀ q : JsonPointer, ¬ q.tokens <+: tokens → ¬ tokens <+: q.tokens → resolve doc' q.tokens = resolve doc q.tokens

/-- After a write the pointer leads to the value, and the others apart from it are as before. -/
structure Written (pointer : JsonPointer) (value doc doc' : Json) : Prop where
  here : resolve doc' pointer.tokens = some value
  apart : SameApart pointer.tokens doc doc'

/-- Of an object one member is gone. -/
structure MemberRemoved (parent : List String) (last : String) (doc doc' : Json) : Prop where
  container : ∃ fields, resolve doc parent = some (.object fields) ∧ (fields.lookup last).isSome ∧
    resolve doc' parent = some (.object (fields.filter (·.1 ≠ last)))
  gone : ∀ tail, resolve doc' (parent ++ last :: tail) = none
  others : ∀ name ≠ last, ∀ tail, resolve doc' (parent ++ name :: tail) = resolve doc (parent ++ name :: tail)

/-- Of an array one item is gone, and those behind it have moved up. -/
structure ItemRemoved (parent : List String) (last : String) (doc doc' : Json) : Prop where
  container : ∃ items i, resolve doc parent = some (.array items) ∧ parseIndex last = some i ∧ i < items.length ∧
    resolve doc' parent = some (.array (items.eraseIdx i))
  before : ∀ i name j, parseIndex last = some i → parseIndex name = some j → j < i →
    ∀ tail, resolve doc' (parent ++ name :: tail) = resolve doc (parent ++ name :: tail)
  behind : ∀ i name next j, parseIndex last = some i → parseIndex name = some j → parseIndex next = some (j + 1) → i ≤ j →
    ∀ tail, resolve doc' (parent ++ name :: tail) = resolve doc (parent ++ next :: tail)

/-- After a removal one member or item is gone, and pointers apart from its container are as before. -/
def Removed (pointer : JsonPointer) (doc doc' : Json) : Prop :=
  ∃ parent last, pointer.tokens = parent ++ [last] ∧ SameApart parent doc doc' ∧
    (MemberRemoved parent last doc doc' ∨ ItemRemoved parent last doc doc')

def CompiledJsonOp.Law (doc doc' : Json) : CompiledJsonOp → Prop
  | .set pointer value => Written pointer value doc doc'
  | .remove pointer => Removed pointer doc doc'

/-- Every operation in turn does what it means, and by the laws. -/
inductive Obeys : List CompiledJsonOp → Json → Json → Prop
  | nil (doc : Json) : Obeys [] doc doc
  | cons {op : CompiledJsonOp} {ops : List CompiledJsonOp} {doc doc' : Json} (law : op.Law doc (op.meaning doc))
      (rest : Obeys ops (op.meaning doc) doc') : Obeys (op :: ops) doc doc'

end Meaning

section Laws
variable {path last : String} {tokens parent : List String} {doc doc' value v w : Json} {pointer : JsonPointer}

theorem resolveTokens_ok {change : Json → Except JsonTransformError Json} (h : resolveTokens path change tokens doc = .ok doc') :
    ∃ v w, resolve doc tokens = some v ∧ change v = .ok w ∧ doc' = doc.modify parseIndex (fun _ => w) tokens := by
  rw [resolveTokens_eq] at h
  cases hv : doc.descend parseIndex tokens with
  | none =>
    rw [hv] at h
    cases h
  | some v =>
    rw [hv] at h
    dsimp only at h
    cases hw : change v with
    | error e =>
      rw [hw] at h
      cases h
    | ok w =>
      rw [hw] at h
      exact ⟨v,w,hv,hw,(Except.ok.inj h).symm⟩

/-- A change of what the tokens lead to is a change by any function that makes it of that. -/
private theorem modify_const {f : Json → Json} (hv : resolve doc tokens = some v) (hw : f v = w) :
    doc.modify parseIndex (fun _ => w) tokens = doc.modify parseIndex f tokens := by
  refine Json.modify_congr fun u hu => ?_
  obtain rfl := Option.some.inj (hv.symm.trans hu)
  exact hw.symm

private theorem resolve_modify {f : Json → Json} (hv : resolve doc parent = some v) (name : String) (tail : List String) :
    resolve (doc.modify parseIndex f parent) (parent ++ name :: tail) = ((f v).child parseIndex name).bind (resolve · tail) := by
  have hv : doc.descend parseIndex parent = some v := hv
  rw [resolve,Json.descend_modify,hv]
  rfl

private theorem resolve_append (hv : resolve doc parent = some v) (name : String) (tail : List String) :
    resolve doc (parent ++ name :: tail) = (v.child parseIndex name).bind (resolve · tail) := by
  have hv : doc.descend parseIndex parent = some v := hv
  rw [resolve,Json.descend_append,hv]
  rfl

theorem sameApart_modify {f : Json → Json} : SameApart tokens doc (doc.modify parseIndex f tokens) :=
  fun _ h h' => Json.descend_modify_apart parseIndex_inj h' h

/-- What a last step of a write leaves: the value in its place. -/
theorem setLast_ok (h : setLast path last value v = .ok w) :
    v.put parseIndex last value = w ∧ (v.put parseIndex last value).child parseIndex last = some value := by
  cases v with
  | object fields => exact ⟨Except.ok.inj h,Json.child_put_object⟩
  | array items =>
    rw [setLast] at h
    cases hi : parseIndex last with
    | none =>
      rw [hi] at h
      cases h
    | some i =>
      rw [hi] at h
      dsimp only at h
      split_ifs at h with hlt
      refine ⟨?_,Json.child_put_array hi hlt⟩
      rw [Json.put,hi]
      exact Except.ok.inj h
  | null | bool b | int n | float text | string s => cases h

/-- What a last step of a removal leaves, and that there was something to remove. -/
theorem removeLast_ok (h : removeLast path last v = .ok w) : v.erase parseIndex last = w ∧
    ((∃ fields, v = .object fields ∧ (fields.lookup last).isSome) ∨
      ∃ items i, v = .array items ∧ parseIndex last = some i ∧ i < items.length) := by
  cases v with
  | object fields =>
    rw [removeLast] at h
    split_ifs at h with hthere
    exact ⟨Except.ok.inj h,.inl ⟨fields,rfl,hthere⟩⟩
  | array items =>
    rw [removeLast] at h
    cases hi : parseIndex last with
    | none =>
      rw [hi] at h
      cases h
    | some i =>
      rw [hi] at h
      dsimp only at h
      split_ifs at h with hlt
      refine ⟨?_,.inr ⟨items,i,rfl,rfl,hlt⟩⟩
      rw [Json.erase,hi]
      exact Except.ok.inj h
  | null | bool b | int n | float text | string s => cases h

theorem applySet_ok (h : applySet pointer value doc = .ok doc') :
    doc' = (CompiledJsonOp.set pointer value).meaning doc ∧ Written pointer value doc doc' := by
  rw [applySet] at h
  rw [CompiledJsonOp.meaning]
  cases hlast : pointer.tokens.getLast? with
  | none =>
    rw [hlast] at h
    obtain rfl := Except.ok.inj h
    have hroot : pointer.tokens = [] := List.getLast?_eq_none_iff.mp hlast
    exact ⟨rfl,by rw [hroot]; rfl,fun q _ hbelow => absurd (hroot ▸ List.nil_prefix) hbelow⟩
  | some last =>
    rw [hlast] at h
    obtain ⟨parent,htokens⟩ := List.getLast?_eq_some_iff.mp hlast
    dsimp only at h ⊢
    rw [htokens,List.dropLast_concat] at h ⊢
    obtain ⟨v,w,hv,hw,hdoc⟩ := resolveTokens_ok h
    obtain ⟨hput,hchild⟩ := setLast_ok hw
    rw [modify_const (f := (·.put parseIndex last value)) hv hput] at hdoc
    refine ⟨hdoc,?_,fun q habove hbelow => ?_⟩
    · rw [htokens,hdoc,resolve_modify hv,hchild]
      rfl
    · rw [htokens] at habove hbelow
      by_cases hparent : parent <+: q.tokens
      · obtain ⟨rest,hrest⟩ := hparent
        cases rest with
        | nil => exact absurd (hrest ▸ by rw [List.append_nil]; exact List.prefix_append parent [last]) habove
        | cons name tail =>
          have hname : name ≠ last := by
            rintro rfl
            exact hbelow ⟨tail,by rw [← hrest,List.append_assoc]; rfl⟩
          rw [← hrest,hdoc,resolve_modify hv,resolve_append hv,Json.child_put_ne parseIndex_inj hname]
      · rw [hdoc]
        exact sameApart_modify q (fun hq => habove (hq.trans (List.prefix_append parent [last]))) hparent

theorem applyRemove_ok (h : applyRemove pointer doc = .ok doc') :
    doc' = (CompiledJsonOp.remove pointer).meaning doc ∧ Removed pointer doc doc' := by
  rw [applyRemove] at h
  rw [CompiledJsonOp.meaning]
  cases hlast : pointer.tokens.getLast? with
  | none =>
    rw [hlast] at h
    cases h
  | some last =>
    rw [hlast] at h
    obtain ⟨parent,htokens⟩ := List.getLast?_eq_some_iff.mp hlast
    dsimp only at h ⊢
    rw [htokens,List.dropLast_concat] at h ⊢
    obtain ⟨v,w,hv,hw,hdoc⟩ := resolveTokens_ok h
    obtain ⟨herase,hthere⟩ := removeLast_ok hw
    rw [modify_const (f := (·.erase parseIndex last)) hv herase] at hdoc
    have hparent : resolve doc' parent = some (v.erase parseIndex last) := by
      have hdescend : (doc.modify parseIndex (·.erase parseIndex last) parent).descend parseIndex (parent ++ []) =
          (doc.descend parseIndex parent).bind fun w => (w.erase parseIndex last).descend parseIndex [] := Json.descend_modify parent []
      rw [List.append_nil,show doc.descend parseIndex parent = some v from hv,← hdoc] at hdescend
      exact hdescend
    refine ⟨hdoc,parent,last,htokens,hdoc ▸ sameApart_modify,?_⟩
    obtain ⟨fields,rfl,hmember⟩ | ⟨items,i,rfl,hi,hlt⟩ := hthere
    · refine .inl ⟨⟨fields,hv,hmember,hparent⟩,fun tail => ?_,fun name hname tail => ?_⟩
      · rw [hdoc,resolve_modify hv,Json.child_erase_object_self]
        rfl
      · rw [hdoc,resolve_modify hv,resolve_append hv,Json.child_erase_object_ne hname]
    · have hchild : ∀ {name j}, parseIndex name = some j → (Json.array items).child parseIndex name = items[j]? := by
        intro name j hj
        simp [Json.child,hj]
      refine .inr ⟨⟨items,i,hv,hi,hlt,?_⟩,fun i' name j hi' hj hji tail => ?_,fun i' name next j hi' hj hnext hij tail => ?_⟩
      · rw [hparent,Json.erase,hi]
        rfl
      · obtain rfl := Option.some.inj (hi.symm.trans hi')
        rw [hdoc,resolve_modify hv,resolve_append hv,Json.child_erase_array hi hj,if_pos hji,hchild hj]
      · obtain rfl := Option.some.inj (hi.symm.trans hi')
        rw [hdoc,resolve_modify hv,resolve_append hv,Json.child_erase_array hi hj,if_neg (Nat.not_lt.mpr hij),hchild hnext]

theorem apply_ok {op : CompiledJsonOp} (h : op.apply doc = .ok doc') : doc' = op.meaning doc ∧ op.Law doc doc' := by
  cases op with
  | set pointer value => exact applySet_ok h
  | remove pointer => exact applyRemove_ok h

/-- Operations that all apply do what they mean, one after the other. -/
theorem foldlM_apply_ok {ops : List CompiledJsonOp} (h : ops.foldlM CompiledJsonOp.apply doc = .ok doc') :
    doc' = ops.foldl CompiledJsonOp.meaning doc ∧ Obeys ops doc doc' := by
  induction ops generalizing doc with
  | nil =>
    obtain rfl := Except.ok.inj h
    exact ⟨rfl,.nil doc⟩
  | cons op ops ih =>
    rw [List.foldlM_cons] at h
    obtain ⟨mid,hmid,h⟩ := Dwara.Lib.bind_eq_ok.mp h
    obtain ⟨rfl,hlaw⟩ := apply_ok hmid
    obtain ⟨hmeaning,hrest⟩ := ih h
    exact ⟨hmeaning,.cons hlaw hrest⟩

end Laws

section Render

/-- A token as it is shown. -/
def escapeToken (cs : List Char) : List Char := cs.flatMap fun c => if c = '~' then ['~','0'] else if c = '/' then ['~','1'] else [c]

theorem unescape_escapeToken (cs : List Char) : JsonPointer.unescape (escapeToken cs) = some cs := by
  induction cs with
  | nil => rfl
  | cons c cs ih =>
    have hrest : ∀ ds, escapeToken (c :: cs) = ds ++ escapeToken cs →
        JsonPointer.unescape (ds ++ escapeToken cs) = (JsonPointer.unescape (escapeToken cs)).map (c :: ·) →
          JsonPointer.unescape (escapeToken (c :: cs)) = some (c :: cs) := by
      intro ds hds hstep
      rw [hds,hstep,ih]
      rfl
    by_cases htilde : c = '~'
    · subst htilde
      exact hrest ['~','0'] rfl rfl
    · by_cases hslash : c = '/'
      · subst hslash
        exact hrest ['~','1'] rfl rfl
      · refine hrest [c] (by simp [escapeToken,htilde,hslash]) ?_
        rw [List.singleton_append,JsonPointer.unescape.eq_def]
        split <;> simp_all

theorem slash_not_mem_escapeToken (cs : List Char) : '/' ∉ escapeToken cs := by
  intro h
  obtain ⟨c,-,hc⟩ := List.mem_flatMap.mp h
  split_ifs at hc with htilde hslash
  · simp at hc
  · simp at hc
  · exact hslash (List.mem_singleton.mp hc).symm

/-- Tokens with a slash before each are tokens joined by slashes behind a first one. -/
private theorem flatMap_slash (token : String) (tokens : List String) :
    (token :: tokens).flatMap (fun t => '/' :: escapeToken t.toList) =
      '/' :: ['/'].intercalate ((token :: tokens).map fun t => escapeToken t.toList) := by
  induction tokens generalizing token with
  | nil => simp
  | cons next tokens ih =>
    rw [List.flatMap_cons,ih next]
    simp only [List.map_cons,List.intercalate_cons_cons,List.cons_append,List.append_assoc,List.nil_append]

private theorem mapM_unescape (tokens : List String) :
    (tokens.map fun t => escapeToken t.toList).mapM (fun raw => (JsonPointer.unescape raw).map String.ofList) = some tokens := by
  induction tokens with
  | nil => rfl
  | cons token tokens ih =>
    rw [List.map_cons,List.mapM_cons,ih,unescape_escapeToken]
    simp

theorem parse_render (p : JsonPointer) : JsonPointer.parse p.render = some p := by
  obtain ⟨tokens⟩ := p
  cases tokens with
  | nil => rfl
  | cons token tokens =>
    have hrender : (JsonPointer.render ⟨token :: tokens⟩).toList =
        '/' :: ['/'].intercalate ((token :: tokens).map fun t => escapeToken t.toList) := by
      rw [JsonPointer.render,String.toList_ofList]
      exact flatMap_slash token tokens
    have hslash : ∀ piece ∈ (token :: tokens).map fun t => escapeToken t.toList, '/' ∉ piece := by
      intro piece hpiece
      obtain ⟨t,-,rfl⟩ := List.mem_map.mp hpiece
      exact slash_not_mem_escapeToken t.toList
    have hsplit := Dwara.Lib.Joined.splitOn_join hslash (by simp)
    rw [JsonPointer.parse,hrender]
    simp only [hsplit,mapM_unescape,Option.map_some]

end Render

/-- The operations fail, or they do what they mean for the pointers; and a pointer is read back from how it
is shown. -/
theorem json_ops_obey_pointers (t : CompiledJsonTransform) (doc : Json) :
    ((∃ e, t.apply doc = .error e) ∨
      ∃ doc', t.apply doc = .ok doc' ∧ doc' = t.ops.foldl CompiledJsonOp.meaning doc ∧ Obeys t.ops doc doc') ∧
    ∀ raw p, JsonPointer.parse raw = some p → JsonPointer.parse p.render = some p := by
  refine ⟨?_,fun _ p _ => parse_render p⟩
  cases h : t.apply doc with
  | error e => exact .inl ⟨e,rfl⟩
  | ok doc' => exact .inr ⟨doc',rfl,foldlM_apply_ok h⟩

/-- A write to an item and a removal of the member `b~/c`. -/
def patched : CompiledJsonTransform := ⟨64,[.set ⟨["a","0"]⟩ (.int 7),.remove ⟨["b~/c"]⟩]⟩

def sample : Json := .object [("a",.array [.int 1,.int 2]),("b~/c",.null)]

theorem json_ops_obey_pointers_sample :
    (∃ doc', patched.apply sample = .ok doc' ∧ Obeys patched.ops sample doc') ∧
      JsonPointer.parse (JsonPointer.render ⟨["b~/c"]⟩) = some ⟨["b~/c"]⟩ := by
  obtain ⟨⟨e,he⟩ | ⟨doc',hdoc,-,hobeys⟩,hparse⟩ := json_ops_obey_pointers patched sample
  · cases he
  · exact ⟨⟨doc',hdoc,hobeys⟩,hparse "/b~0~1c" ⟨["b~/c"]⟩ (by decide)⟩

end Dwara.Config.Transforms
