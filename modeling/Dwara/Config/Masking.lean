import Dwara.Lib.Decimal
import Dwara.Lib.JsonPath
import Dwara.Lib.Text
import Mathlib.Data.Finset.Card
import Mathlib.Data.List.Dedup

/-! Response field masking: the pointers of a policy, their checks, and the document with
their values replaced. -/

namespace Dwara.Config.Transforms
open Dwara.Lib (Json)
open Dwara.Lib.Text (trim)
open Nat (ofDigitChars)

section Pointers

/-- The number of an array item: digits without leading zeros, within the word. -/
def parseIndex (token : String) : Option ℕ :=
  let cs := token.toList
  if cs = [] ∨ 1 < cs.length ∧ cs.head? = some '0' then none
  else if cs.all (·.isDigit) ∧ ofDigitChars 10 cs 0 < 2 ^ 64 then some (ofDigitChars 10 cs 0)
  else none

/-- A pointer by its tokens; their index forms follow from them. The whole document has no tokens. -/
structure JsonPointer where
  tokens : List String
  deriving DecidableEq, Repr

namespace JsonPointer

/-- `~1` is a slash and `~0` a tilde. Another tilde is malformed. -/
def unescape : List Char → Option (List Char)
  | [] => some []
  | '~' :: '0' :: cs => (unescape cs).map ('~' :: ·)
  | '~' :: '1' :: cs => (unescape cs).map ('/' :: ·)
  | '~' :: _ => none
  | c :: cs => (unescape cs).map (c :: ·)

def parse (raw : String) : Option JsonPointer :=
  match raw.toList with
  | [] => some ⟨[]⟩
  | '/' :: cs => ((cs.splitOn '/').mapM fun rawToken => (unescape rawToken).map String.ofList).map JsonPointer.mk
  | _ => none

def isRoot (p : JsonPointer) : Bool := p.tokens.isEmpty

/-- The pointer as an error shows it. -/
def render (p : JsonPointer) : String :=
  String.ofList (p.tokens.flatMap fun token => '/' :: token.toList.flatMap fun c =>
    if c = '~' then ['~','0'] else if c = '/' then ['~','1'] else [c])

end JsonPointer

inductive JsonTransformError where
  | unresolved (path : String)
  | removeRoot
  deriving DecidableEq, Repr

/-- A change to the value that the tokens lead to. -/
def resolveTokens (path : String) (change : Json → Except JsonTransformError Json) :
    List String → Json → Except JsonTransformError Json
  | [], doc => change doc
  | token :: tokens, doc =>
    match doc with
    | .object fields =>
      match fields.lookup token with
      | some v => (resolveTokens path change tokens v).map fun v => doc.onChild parseIndex token fun _ => v
      | none => .error (.unresolved path)
    | .array items =>
      match (parseIndex token).bind (items[·]?) with
      | some v => (resolveTokens path change tokens v).map fun v => doc.onChild parseIndex token fun _ => v
      | none => .error (.unresolved path)
    | _ => .error (.unresolved path)

end Pointers

section Policy

def maskedValue : String := "***"

structure Masking where
  maxBytes : ℕ
  fields : List String := []
  groups : List (String × List String) := []

structure CompiledMasking where
  maxBytes : ℕ
  base : List JsonPointer
  groups : List (String × List JsonPointer)

def CompiledMasking.compile (cfg : Masking) : CompiledMasking where
  maxBytes := cfg.maxBytes
  base := cfg.fields.filterMap JsonPointer.parse
  groups := cfg.groups.map fun (group,paths) => (group,paths.filterMap JsonPointer.parse)

/-- The value at the pointer replaced. Nothing is inserted. -/
def applyMaskPointer (p : JsonPointer) (doc : Json) : Except JsonTransformError Json :=
  match p.tokens.getLast? with
  | none => .ok (.string maskedValue)
  | some last =>
    resolveTokens p.render (fun parent =>
      match parent with
      | .object fields =>
        if (fields.lookup last).isSome then .ok (parent.onChild parseIndex last fun _ => .string maskedValue)
        else .error (.unresolved p.render)
      | .array items =>
        if ((parseIndex last).bind (items[·]?)).isSome then .ok (parent.onChild parseIndex last fun _ => .string maskedValue)
        else .error (.unresolved p.render)
      | _ => .error (.unresolved p.render)) p.tokens.dropLast doc

namespace CompiledMasking
variable (m : CompiledMasking) (consumerGroups : List String)

/-- A pointer of a group joins the others once. -/
def pushNew (effective : List JsonPointer) (pointer : JsonPointer) : List JsonPointer :=
  if pointer ∈ effective then effective else effective ++ [pointer]

/-- The pointers for a consumer: the floor as it is, and what its groups add. -/
def effective : List JsonPointer :=
  consumerGroups.foldl (fun effective group => ((m.groups.lookup group).getD []).foldl pushNew effective) m.base

/-- The masked document, and how many pointers were applied. -/
def apply (doc : Json) : Except JsonTransformError (Json × ℕ) :=
  ((m.effective consumerGroups).foldlM (fun doc pointer => applyMaskPointer pointer doc) doc).map fun doc =>
    (doc,(m.effective consumerGroups).length)

end CompiledMasking

structure ValidationIssue where
  entity : String
  name : String
  field : String
  message : String
  deriving DecidableEq, Repr

section Validation
variable (name : String)

def issue (field message : String) : ValidationIssue := ⟨"route",name,field,message⟩

def checkPointer (field path : String) : List ValidationIssue :=
  match JsonPointer.parse path with
  | none => [issue name field ("'" ++ path ++ "' is not an RFC 6901 JSON pointer (start with '/', use ~0 and ~1 for " ++
      "'~' and '/', e.g. /items/0/id)")]
  | some pointer => if pointer.isRoot then [issue name field ("the root pointer ('') would replace the whole document " ++
      "with the sentinel — a body the route cannot usefully serve; mask fields, not the document")] else []

/-- The checks of the pointers of one list. -/
def checkPointers (field : String) (paths : List String) : List ValidationIssue :=
  paths.zipIdx.flatMap fun (path,i) => checkPointer name (field ++ "[" ++ toString i ++ "]") path

def validateMasking (masking : Masking) (consumerGroups : List String) : List ValidationIssue :=
  (if masking.fields.isEmpty ∧ masking.groups.isEmpty then [issue name "masking"
    ("carries no fields and no groups (nothing to mask) and is always a mistake: " ++
      "omit the masking block to disable masking on this route")] else []) ++
  (if masking.maxBytes = 0 then [issue name "masking.max_bytes"
    "max_bytes must be > 0 (0 would fail every response against the masking cap)"] else []) ++
  checkPointers name "masking.fields" masking.fields ++
  masking.groups.flatMap fun (group,paths) =>
    (if trim group = "" then [issue name "masking.groups"
      ("group key '" ++ group ++ "' is empty: group names are non-empty strings")] else []) ++
    (if group ∈ consumerGroups then [] else [issue name "masking.groups"
      ("group '" ++ group ++ "' matches no configured consumer's groups membership — a " ++
        "typo here silently never masks (fail-open); grant a consumer the group " ++
        "or fix the name (store-managed consumers carry groups the config cannot " ++
        "see, the known caveat of this check)")]) ++
    (if paths.isEmpty then [issue name "masking.groups"
      ("group '" ++ group ++ "' carries no pointers and is always a mistake: omit " ++
        "the entry (the route floor still applies to the group's consumers)")] else []) ++
    checkPointers name ("masking.groups." ++ group) paths

end Validation
end Policy

theorem parseIndex_eq_some {token : String} {i : ℕ} (h : parseIndex token = some i) : Nat.toDigits 10 i = token.toList := by
  rw [parseIndex] at h
  split_ifs at h with hshape hdigits
  push Not at hshape
  obtain rfl := Option.some.inj h
  exact Dwara.Lib.Decimal.toDigits_ofDigitChars hshape.1 (List.all_eq_true.mp hdigits.1) hshape.2

/-- Two tokens never name one item. -/
theorem parseIndex_inj (s t : String) (i : ℕ) (hs : parseIndex s = some i) (ht : parseIndex t = some i) : s = t := by
  rw [← String.toList_inj,← parseIndex_eq_some hs,parseIndex_eq_some ht]

theorem resolveTokens_eq (path : String) (change : Json → Except JsonTransformError Json) (tokens : List String) (doc : Json) :
    resolveTokens path change tokens doc =
      match doc.descend parseIndex tokens with
      | some v => (change v).map fun w => doc.modify parseIndex (fun _ => w) tokens
      | none => .error (.unresolved path) := by
  induction tokens generalizing doc with
  | nil =>
    simp only [resolveTokens,Json.descend,Json.modify]
    cases change doc <;> rfl
  | cons token tokens ih =>
    have hstep : ∀ v, doc.child parseIndex token = some v →
        (resolveTokens path change tokens v).map (fun v => doc.onChild parseIndex token fun _ => v) =
          match v.descend parseIndex tokens with
          | some w => (change w).map fun w => doc.modify parseIndex (fun _ => w) (token :: tokens)
          | none => .error (.unresolved path) := by
      intro v hv
      rw [ih]
      cases v.descend parseIndex tokens with
      | none => rfl
      | some u =>
        dsimp only
        cases change u with
        | error e => rfl
        | ok w =>
          refine congrArg Except.ok (Json.onChild_congr ?_)
          rintro _ hw
          rw [hv] at hw
          obtain rfl := Option.some.inj hw
          rfl
    cases doc with
    | object fields =>
      rw [resolveTokens,Json.descend]
      cases hv : fields.lookup token with
      | none => simp [Json.child,hv]
      | some v => simpa [Json.child,hv] using hstep v hv
    | array items =>
      rw [resolveTokens,Json.descend]
      cases hv : (parseIndex token).bind (items[·]?) with
      | none => simp [Json.child,hv]
      | some v => simpa [Json.child,hv] using hstep v hv
    | null | bool b | int n | float text | string s => rfl

/-- A pointer is replaced where it resolves, and is an error where it does not. -/
theorem applyMaskPointer_eq (p : JsonPointer) (doc : Json) :
    applyMaskPointer p doc =
      if (doc.descend parseIndex p.tokens).isSome then .ok (doc.modify parseIndex (fun _ => .string maskedValue) p.tokens)
      else .error (.unresolved p.render) := by
  rw [applyMaskPointer]
  cases hlast : p.tokens.getLast? with
  | none =>
    rw [List.getLast?_eq_none_iff.mp hlast]
    rfl
  | some last =>
    obtain ⟨parents,htokens⟩ := List.getLast?_eq_some_iff.mp hlast
    simp only [htokens,List.dropLast_concat,resolveTokens_eq,Json.descend_append]
    cases hparent : doc.descend parseIndex parents with
    | none => rfl
    | some parent =>
      have hmodify : doc.modify parseIndex (fun _ => parent.onChild parseIndex last fun _ => .string maskedValue) parents =
          doc.modify parseIndex (fun _ => .string maskedValue) (parents ++ [last]) := by
        rw [Json.modify_append]
        refine Json.modify_congr ?_
        rintro _ hw
        rw [hparent] at hw
        obtain rfl := Option.some.inj hw
        rfl
      rw [← hmodify]
      cases parent with
      | object fields =>
        cases hv : fields.lookup last with
        | none => simp [Json.descend,Json.child,hv,Except.map]
        | some v => simp [Json.descend,Json.child,hv,Except.map]
      | array items =>
        cases hv : (parseIndex last).bind (items[·]?) with
        | none => simp [Json.descend,Json.child,hv,Except.map]
        | some v => simp [Json.descend,Json.child,hv,Except.map]
      | null | bool b | int n | float text | string s => rfl

section Valid
variable {name : String} {masking : Masking} {consumerGroups : List String}

theorem parse_of_checkPointers {field : String} {paths : List String} (h : checkPointers name field paths = []) :
    ∀ path ∈ paths, ∃ p, JsonPointer.parse path = some p ∧ p.isRoot = false := by
  intro path hpath
  obtain ⟨i,hi⟩ := List.mem_iff_getElem?.mp hpath
  have hmem : (path,i) ∈ paths.zipIdx := List.mk_mem_zipIdx_iff_getElem?.mpr hi
  have hcheck := List.flatMap_eq_nil_iff.mp h (path,i) hmem
  dsimp only at hcheck
  rw [checkPointer] at hcheck
  cases hp : JsonPointer.parse path with
  | none => simp [hp] at hcheck
  | some p => exact ⟨p,rfl,by simpa [hp] using hcheck⟩

theorem map_some_filterMap_parse {paths : List String} (h : ∀ path ∈ paths, ∃ p, JsonPointer.parse path = some p ∧ p.isRoot = false) :
    (paths.filterMap JsonPointer.parse).map some = paths.map JsonPointer.parse := by
  induction paths with
  | nil => rfl
  | cons path paths ih =>
    obtain ⟨p,hp,-⟩ := h path List.mem_cons_self
    rw [List.filterMap_cons,hp,List.map_cons,List.map_cons,hp,ih fun q hq => h q (List.mem_cons_of_mem path hq)]

/-- Of a policy without issues the compilation drops no pointer. -/
theorem compile_of_valid (h : validateMasking name masking consumerGroups = []) :
    (CompiledMasking.compile masking).base.map some = masking.fields.map JsonPointer.parse ∧
      ∀ entry ∈ masking.groups, (entry.2.filterMap JsonPointer.parse).map some = entry.2.map JsonPointer.parse := by
  simp only [validateMasking,List.append_eq_nil_iff,List.flatMap_eq_nil_iff] at h
  obtain ⟨⟨-,hfields⟩,hgroups⟩ := h
  exact ⟨map_some_filterMap_parse (parse_of_checkPointers hfields),
    fun entry hentry => map_some_filterMap_parse (parse_of_checkPointers (hgroups entry hentry).2)⟩

end Valid
end Dwara.Config.Transforms
