import Dwara.Lib.Json
import Dwara.Lib.TextCursor
import Dwara.Snapshot.RouteTable

/-! Path rewrites: the templates of substitutions, compiled once when a snapshot is published or
expanded as they stand. -/

namespace Dwara.Dataplane.PathRewrite
open Dwara.Config Dwara.Lib Dwara.Snapshot
open TextCursor (utf8Len utf8Len_append slice splitBytes splitBytes_append)

/-- The bytes of a part of a path, from the end of a character to the end of another. -/
def IsSpan (path : List Char) (span : ℕ × ℕ) : Prop :=
  ∃ pre matched post, path = pre ++ (matched ++ post) ∧ span = (utf8Len pre,utf8Len (pre ++ matched))

/-- What a regex reports of its first match: where it is, and where the groups behind it are. -/
structure Captures (path : List Char) where
  whole : ℕ × ℕ
  groups : List (Option (ℕ × ℕ))
  names : List (String × ℕ)
  whole_span : IsSpan path whole
  groups_span : ∀ span, some span ∈ groups → IsSpan path span

/-- A compiled regex, as the first match it finds. -/
abbrev Regex := (path : List Char) → Option (Captures path)

namespace Captures
variable {path : List Char} (caps : Captures path)

def span : ℕ → Option (ℕ × ℕ)
  | 0 => some caps.whole
  | i + 1 => caps.groups[i]?.join

def text (span : ℕ × ℕ) : List Char := (slice span.1 span.2 path).getD []

def get (i : ℕ) : Option (List Char) := (caps.span i).map (@text path)

def name (n : String) : Option (List Char) := (caps.names.lookup n).bind caps.get

end Captures

/-- A 64-bit number in decimal, after an optional plus sign. -/
def parseUsize (cs : List Char) : Option ℕ :=
  let digits := if cs.head? = some '+' then cs.tail else cs
  if digits = [] ∨ ¬ digits.all Char.isDigit then none
  else
    let n := Nat.ofDigitChars 10 digits 0
    if n < 2 ^ 64 then some n else none

def isIdent (c : Char) : Bool := c.isAlphanum || c = '_'

inductive SubstSegment where
  | literal (text : List Char)
  | numeric (i : ℕ)
  | named (name : String)
  deriving DecidableEq, Repr

/-- A template as segments, and how many bytes its literal text has. -/
structure CompiledSubstitution where
  segments : List SubstSegment
  capacity : ℕ
  deriving DecidableEq, Repr

/-- The segments so far, and the literal text behind them. -/
structure Building extends CompiledSubstitution where
  pending : List Char

namespace Building

def push (b : Building) (text : List Char) : Building := { b with pending := b.pending ++ text }

/-- The literal text becomes a segment, if there is any. -/
def flush (b : Building) : Building :=
  if b.pending = [] then b
  else ⟨⟨b.segments ++ [.literal b.pending],b.capacity + utf8Len b.pending⟩,[]⟩

def reference (b : Building) (name : List Char) : Building :=
  match parseUsize name with
  | some i => { b.flush with segments := b.flush.segments ++ [.numeric i] }
  | none => { b.flush with segments := b.flush.segments ++ [.named (String.ofList name)] }

end Building

section Cuts
variable {a : Char} {cs before after : List Char}

theorem splitOnceAt_singleton (h : Text.splitOnceAt [a] cs = some (before,after)) : cs = before ++ a :: after ∧ a ∉ before := by
  have hcs : cs = before ++ a :: after := TextCursor.eq_of_splitOnceAt h
  refine ⟨hcs,fun hmem => ?_⟩
  obtain ⟨front,back,hbefore,hfront⟩ := List.eq_append_cons_of_mem hmem
  have hfirst : Text.splitOnceAt [a] (front ++ ([a] ++ (back ++ a :: after))) = some (front,back ++ a :: after) :=
    Text.splitOnceAt_eq hfront
  rw [hcs,hbefore,List.append_assoc] at h
  have hsame : front = before := ((Prod.mk.inj (Option.some.inj (hfirst.symm.trans h))).1).trans hbefore.symm
  exact hfront (hsame ▸ hmem)

theorem length_lt_of_splitOnceAt (h : Text.splitOnceAt [a] cs = some (before,after)) : after.length < cs.length := by
  rw [(splitOnceAt_singleton h).1,List.length_append,List.length_cons]
  omega

theorem length_dropWhile_lt {p : Char → Bool} (h : p a = true) : ((a :: cs).dropWhile p).length < (a :: cs).length := by
  rw [List.dropWhile_cons_of_pos h,List.length_cons]
  have := (List.dropWhile_sublist p (l := cs)).length_le
  omega

end Cuts

namespace CompiledSubstitution

/-- The loop over what is left of the template. -/
def compileFrom (b : Building) (rest : List Char) : CompiledSubstitution :=
  match _hdollar : Text.splitOnceAt ['$'] rest with
  | none => (b.push rest).flush.toCompiledSubstitution
  | some (before,[]) => ((b.push before).push ['$']).flush.toCompiledSubstitution
  | some (before,c :: after) =>
    if c = '{' then
      match _hbrace : Text.splitOnceAt ['}'] after with
      | some (name,rest) => compileFrom ((b.push before).reference name) rest
      | none => compileFrom ((b.push before).push ['$']) (c :: after)
    else if _hident : isIdent c = true then
      compileFrom ((b.push before).reference ((c :: after).takeWhile isIdent)) ((c :: after).dropWhile isIdent)
    else
      compileFrom ((b.push before).push ['$']) (c :: after)
termination_by rest.length
decreasing_by
  · exact (length_lt_of_splitOnceAt _hbrace).trans (Nat.lt_of_succ_lt (length_lt_of_splitOnceAt _hdollar))
  · exact length_lt_of_splitOnceAt _hdollar
  · exact (length_dropWhile_lt _hident).trans (length_lt_of_splitOnceAt _hdollar)
  · exact length_lt_of_splitOnceAt _hdollar

/-- Parse a `$1` / `${name}` substitution into segments. -/
def compile (substitution : List Char) : CompiledSubstitution := compileFrom ⟨⟨[],0⟩,[]⟩ substitution

def expandSegment {path : List Char} (caps : Captures path) (params : Params) : SubstSegment → List Char
  | .literal text => text
  | .numeric i => (caps.get i).getD []
  | .named name =>
    match caps.name name with
    | some m => m
    | none => ((params.find? (·.1 = name)).map (·.2.toList)).getD []

/-- Expand against regex captures and route captures. -/
def expand {path : List Char} (s : CompiledSubstitution) (caps : Captures path) (params : Params) : List Char :=
  s.segments.foldl (fun out seg => out ++ expandSegment caps params seg) []

end CompiledSubstitution

section Plain
variable {path : List Char} (caps : Captures path) (params : Params)

def resolveRef (name : List Char) : List Char :=
  match parseUsize name with
  | some i => (caps.get i).getD []
  | none =>
    ((caps.name (String.ofList name)).or ((params.find? (·.1 = String.ofList name)).map (·.2.toList))).getD []

/-- The loop over what is left of the template. -/
def expandFrom (out rest : List Char) : List Char :=
  match _hdollar : Text.splitOnceAt ['$'] rest with
  | none => out ++ rest
  | some (before,[]) => out ++ before ++ ['$']
  | some (before,c :: after) =>
    if c = '{' then
      match _hbrace : Text.splitOnceAt ['}'] after with
      | some (name,rest) => expandFrom (out ++ before ++ resolveRef caps params name) rest
      | none => expandFrom (out ++ before ++ ['$']) (c :: after)
    else if _hident : isIdent c = true then
      expandFrom (out ++ before ++ resolveRef caps params ((c :: after).takeWhile isIdent)) ((c :: after).dropWhile isIdent)
    else
      expandFrom (out ++ before ++ ['$']) (c :: after)
termination_by rest.length
decreasing_by
  · exact (length_lt_of_splitOnceAt _hbrace).trans (Nat.lt_of_succ_lt (length_lt_of_splitOnceAt _hdollar))
  · exact length_lt_of_splitOnceAt _hdollar
  · exact (length_dropWhile_lt _hident).trans (length_lt_of_splitOnceAt _hdollar)
  · exact length_lt_of_splitOnceAt _hdollar

/-- Expand `$1` / `${name}` references against a regex match. -/
def expandSubstitution (substitution : List Char) : List Char := expandFrom caps params [] substitution

end Plain

/-- A pattern that does not compile, which fails the snapshot. -/
structure InvalidRegex where
  route : String
  pattern : String
  message : String
  deriving DecidableEq, Repr

/-- The rewrite regexes and compiled substitutions of a snapshot, by route. -/
structure RewriteTable where
  regexes : List (Option Regex)
  substitutions : List (Option CompiledSubstitution)

namespace RewriteTable

def rewriteRegex (t : RewriteTable) (idx : ℕ) : Option Regex := t.regexes[idx]?.join

def rewriteSubstitution (t : RewriteTable) (idx : ℕ) : Option CompiledSubstitution := t.substitutions[idx]?.join

/-- The table without the compiled substitutions. -/
def plain (t : RewriteTable) : RewriteTable := ⟨t.regexes,[]⟩

/-- What one route adds to the table. -/
def row (regexNew : String → Except String Regex) (route : Route) :
    Except InvalidRegex (Option Regex × Option CompiledSubstitution) :=
  match route.action with
  | .proxy (some (.regex pattern substitution)) =>
    match regexNew pattern with
    | .ok re => .ok (some re,some (CompiledSubstitution.compile substitution.toList))
    | .error message => .error ⟨route.name,pattern,message⟩
  | _ => .ok (none,none)

def compile (regexNew : String → Except String Regex) (routes : List Route) : Except InvalidRegex RewriteTable := do
  let rows ← routes.mapM (row regexNew)
  return ⟨rows.map Prod.fst,rows.map Prod.snd⟩

end RewriteTable

def stripPrefix (front path : List Char) : Option (List Char) :=
  if front.isPrefixOf path then some (path.drop front.length) else none

/-- The rewritten path, if the rewrite of the route applies. -/
def applyPathRewrite (route : Route) (table : RewriteTable) (idx : ℕ) (path : List Char) (params : Params) : Option (List Char) :=
  match route.action with
  | .proxy (some .stripPrefix) =>
    match stripPrefix (trimEndSlashes route.routeMatch.path.value).toList path with
    | some [] => some ['/']
    | some rest => if rest.head? = some '/' then some rest else some ('/' :: rest)
    | none => none
  | .proxy (some (.replacePrefix pfx replacement)) => (stripPrefix pfx.toList path).map (replacement.toList ++ ·)
  | .proxy (some (.regex _ substitution)) =>
    match table.rewriteRegex idx with
    | none => none
    | some re =>
      match re path with
      | none => none
      | some caps =>
        let pre := ((splitBytes caps.whole.1 path).map Prod.fst).getD []
        let post := ((splitBytes caps.whole.2 path).map Prod.snd).getD []
        match table.rewriteSubstitution idx with
        | some subst => some (pre ++ subst.expand caps params ++ post)
        | none => some (pre ++ expandSubstitution caps params substitution.toList ++ post)
  | _ => none

section Compiled
variable {path : List Char} (caps : Captures path) (params : Params) (b : Building)

theorem expand_eq_flatMap (s : CompiledSubstitution) :
    s.expand caps params = s.segments.flatMap (CompiledSubstitution.expandSegment caps params) := by
  rw [CompiledSubstitution.expand,List.flatMap_eq_foldl]

/-- The text that a template stands for as far as it is compiled. -/
def Building.value : List Char := b.toCompiledSubstitution.expand caps params ++ b.pending

theorem value_push (text : List Char) : (b.push text).value caps params = b.value caps params ++ text :=
  (List.append_assoc _ _ _).symm

theorem pending_flush : b.flush.pending = [] := by
  rw [Building.flush]
  split
  · assumption
  · rfl

theorem value_flush : b.flush.value caps params = b.value caps params := by
  rw [Building.flush]
  split
  · rfl
  · rw [Building.value,Building.value,expand_eq_flatMap,expand_eq_flatMap,List.flatMap_append,List.append_nil]
    simp [CompiledSubstitution.expandSegment]

theorem expand_flush : b.flush.toCompiledSubstitution.expand caps params = b.value caps params := by
  have h := value_flush caps params b
  rwa [Building.value,pending_flush,List.append_nil] at h

theorem value_reference (name : List Char) :
    (b.reference name).value caps params = b.value caps params ++ resolveRef caps params name := by
  rw [← expand_flush caps params b,Building.reference,resolveRef]
  split
  · rw [Building.value,pending_flush,List.append_nil,expand_eq_flatMap,expand_eq_flatMap,List.flatMap_append]
    simp [CompiledSubstitution.expandSegment]
  · rw [Building.value,pending_flush,List.append_nil,expand_eq_flatMap,expand_eq_flatMap,List.flatMap_append]
    cases hname : caps.name (String.ofList name) <;> simp [CompiledSubstitution.expandSegment,hname]

section Turns
variable {out rest before after name : List Char} {c : Char}

theorem expandFrom_end (h : Text.splitOnceAt ['$'] rest = none) : expandFrom caps params out rest = out ++ rest := by
  rw [expandFrom]
  split <;> simp_all

theorem expandFrom_trailing (h : Text.splitOnceAt ['$'] rest = some (before,[])) :
    expandFrom caps params out rest = out ++ before ++ ['$'] := by
  rw [expandFrom]
  split <;> simp_all

theorem expandFrom_braced (h : Text.splitOnceAt ['$'] rest = some (before,'{' :: after)) {rest' : List Char}
    (hbrace : Text.splitOnceAt ['}'] after = some (name,rest')) :
    expandFrom caps params out rest = expandFrom caps params (out ++ before ++ resolveRef caps params name) rest' := by
  rw [expandFrom]
  split
  · simp_all
  · simp_all
  · rename_i before' c' after' h'
    obtain ⟨rfl,rfl,rfl⟩ : before = before' ∧ '{' = c' ∧ after = after' := by simpa using h.symm.trans h'
    rw [if_pos rfl]
    split
    · rename_i name' rest'' hbrace'
      obtain ⟨rfl,rfl⟩ : name = name' ∧ rest' = rest'' := by simpa using hbrace.symm.trans hbrace'
      rfl
    · simp_all

theorem expandFrom_open (h : Text.splitOnceAt ['$'] rest = some (before,'{' :: after))
    (hbrace : Text.splitOnceAt ['}'] after = none) :
    expandFrom caps params out rest = expandFrom caps params (out ++ before ++ ['$']) ('{' :: after) := by
  rw [expandFrom]
  split
  · simp_all
  · simp_all
  · rename_i before' c' after' h'
    obtain ⟨rfl,rfl,rfl⟩ : before = before' ∧ '{' = c' ∧ after = after' := by simpa using h.symm.trans h'
    rw [if_pos rfl]
    split
    · simp_all
    · rfl

theorem expandFrom_word (h : Text.splitOnceAt ['$'] rest = some (before,c :: after)) (hc : c ≠ '{') :
    expandFrom caps params out rest =
      if isIdent c then
        expandFrom caps params (out ++ before ++ resolveRef caps params ((c :: after).takeWhile isIdent)) ((c :: after).dropWhile isIdent)
      else expandFrom caps params (out ++ before ++ ['$']) (c :: after) := by
  rw [expandFrom]
  split
  · simp_all
  · simp_all
  · rename_i before' c' after' h'
    obtain ⟨rfl,rfl,rfl⟩ : before = before' ∧ c = c' ∧ after = after' := by simpa using h.symm.trans h'
    rw [if_neg hc]
    rfl

end Turns

/-- What is left of a template adds the same to both. -/
theorem expand_compileFrom (rest : List Char) :
    (CompiledSubstitution.compileFrom b rest).expand caps params = expandFrom caps params (b.value caps params) rest := by
  fun_induction CompiledSubstitution.compileFrom b rest with
  | case1 b rest hdollar => rw [expandFrom_end caps params hdollar,expand_flush,value_push]
  | case2 b rest before hdollar => rw [expandFrom_trailing caps params hdollar,expand_flush,value_push,value_push]
  | case3 b rest before after name rest' hbrace hdollar ih =>
    rw [expandFrom_braced caps params hdollar hbrace,ih,value_reference,value_push]
  | case4 b rest before after hbrace hdollar ih => rw [expandFrom_open caps params hdollar hbrace,ih,value_push,value_push]
  | case5 b rest before c after hdollar hc hident ih =>
    rw [expandFrom_word caps params hdollar hc,if_pos hident,ih,value_reference,value_push]
  | case6 b rest before c after hdollar hc hident ih =>
    rw [expandFrom_word caps params hdollar hc,if_neg hident,ih,value_push,value_push]

/-- The compiled template expands as the plain one does. -/
theorem expand_compile (substitution : List Char) :
    (CompiledSubstitution.compile substitution).expand caps params = expandSubstitution caps params substitution :=
  expand_compileFrom caps params _ substitution

def SubstSegment.literalBytes : SubstSegment → ℕ
  | .literal text => utf8Len text
  | _ => 0

variable {b}

end Compiled

/-- A part of a template: a character of its text, or a reference by name or number. -/
inductive TemplatePiece where
  | text (c : Char)
  | reference (name : List Char)
  deriving DecidableEq, Repr

/-- How a template is read. A `$` refers to what stands in braces behind it, or to the longest word
behind it; every other `$` stands for itself. -/
inductive Reads : List Char → List TemplatePiece → Prop
  | nil : Reads [] []
  | text {c : Char} {cs : List Char} {ps : List TemplatePiece} (hc : c ≠ '$') (h : Reads cs ps) : Reads (c :: cs) (.text c :: ps)
  | lone {cs : List Char} {ps : List TemplatePiece} (hcs : ∀ c after, cs = c :: after → isIdent c = false ∧ (c = '{' → '}' ∉ after))
      (h : Reads cs ps) : Reads ('$' :: cs) (.text '$' :: ps)
  | braced {name cs : List Char} {ps : List TemplatePiece} (hname : '}' ∉ name) (h : Reads cs ps) :
      Reads ('$' :: '{' :: (name ++ '}' :: cs)) (.reference name :: ps)
  | word {name cs : List Char} {ps : List TemplatePiece} (hne : name ≠ []) (hname : ∀ c ∈ name, isIdent c = true)
      (hcs : ∀ c after, cs = c :: after → isIdent c = false) (h : Reads cs ps) :
      Reads ('$' :: (name ++ cs)) (.reference name :: ps)

section Reading
variable {cs rest : List Char} {ps qs : List TemplatePiece}

theorem Reads.append_text {before : List Char} (hbefore : '$' ∉ before) (h : Reads rest ps) :
    Reads (before ++ rest) (before.map .text ++ ps) := by
  induction before with
  | nil => exact h
  | cons c before ih => exact .text (fun hc => hbefore (hc ▸ List.mem_cons_self)) (ih (List.not_mem_of_not_mem_cons hbefore))

/-- A run of the characters with a property ends where the first one without it stands. -/
private theorem run_unique {p : Char → Bool} {as bs cs ds : List Char} (has : ∀ c ∈ as, p c = true) (hbs : ∀ c ∈ bs, p c = true)
    (hcs : ∀ c after, cs = c :: after → p c = false) (hds : ∀ c after, ds = c :: after → p c = false)
    (h : as ++ cs = bs ++ ds) : as = bs ∧ cs = ds := by
  have hstop : ∀ {es : List Char}, (∀ c after, es = c :: after → p c = false) → es.takeWhile p = [] := by
    intro es hes
    cases es with
    | nil => rfl
    | cons c after => rw [List.takeWhile_cons_of_neg (by rw [hes c after rfl]; exact Bool.false_ne_true)]
  have htake := congrArg (List.takeWhile p) h
  rw [List.takeWhile_append_of_pos has,List.takeWhile_append_of_pos hbs,hstop hcs,hstop hds,List.append_nil,List.append_nil] at htake
  exact ⟨htake,List.append_cancel_left (htake ▸ h)⟩

private theorem not_word_of_brace {name cs after : List Char} (hne : name ≠ []) (hname : ∀ c ∈ name, isIdent c = true)
    (h : name ++ cs = '{' :: after) : False := by
  cases name with
  | nil => exact hne rfl
  | cons c name =>
    obtain ⟨rfl,-⟩ := List.cons.inj h
    exact absurd (hname '{' List.mem_cons_self) (by decide)

/-- A template is read in one way. -/
theorem Reads.unique (h : Reads cs ps) (h' : Reads cs qs) : ps = qs := by
  induction h generalizing qs with
  | nil =>
    cases h'
    rfl
  | text hc _ ih =>
    cases h' with
    | text _ h' => rw [ih h']
    | lone => exact absurd rfl hc
    | braced => exact absurd rfl hc
    | word => exact absurd rfl hc
  | @lone cs ps hcs _ ih =>
    generalize ht : '$' :: cs = t at h'
    cases h' with
    | nil => cases ht
    | text hc => exact absurd (List.cons.inj ht).1.symm hc
    | lone _ h' =>
      obtain rfl := (List.cons.inj ht).2
      rw [ih h']
    | braced =>
      have := (hcs _ _ (List.cons.inj ht).2).2 rfl
      simp at this
    | @word name =>
      obtain ⟨c,name,rfl⟩ := List.exists_cons_of_ne_nil ‹name ≠ []›
      have hfalse := (hcs c _ (List.cons.inj ht).2).1
      have htrue := ‹∀ c' ∈ c :: name, isIdent c' = true› c List.mem_cons_self
      exact absurd (hfalse.symm.trans htrue) Bool.false_ne_true
  | @braced name cs ps hname _ ih =>
    generalize ht : '$' :: '{' :: (name ++ '}' :: cs) = t at h'
    cases h' with
    | nil => cases ht
    | text hc => exact absurd (List.cons.inj ht).1.symm hc
    | lone hcs =>
      have := (hcs _ _ (List.cons.inj ht).2.symm).2 rfl
      simp at this
    | braced hname' h' =>
      obtain ⟨rfl,rfl⟩ := Text.append_sep_inj hname hname' (List.cons.inj (List.cons.inj ht).2).2
      rw [ih h']
    | word hne hword => exact (not_word_of_brace hne hword (List.cons.inj ht).2.symm).elim
  | @word name cs ps hne hname hcs _ ih =>
    generalize ht : '$' :: (name ++ cs) = t at h'
    cases h' with
    | nil => cases ht
    | text hc => exact absurd (List.cons.inj ht).1.symm hc
    | lone hlone =>
      obtain ⟨c,name,rfl⟩ := List.exists_cons_of_ne_nil hne
      have hfalse := (hlone c _ (List.cons.inj ht).2.symm).1
      exact absurd (hfalse.symm.trans (hname c List.mem_cons_self)) Bool.false_ne_true
    | braced => exact (not_word_of_brace hne hname (List.cons.inj ht).2).elim
    | word _ hname' hcs' h' =>
      obtain ⟨rfl,rfl⟩ := run_unique hname hname' hcs hcs' (List.cons.inj ht).2
      rw [ih h']

theorem notMem_of_splitOnceAt_eq_none {a : Char} (h : Text.splitOnceAt [a] cs = none) : a ∉ cs := by
  intro hmem
  obtain ⟨before,after,rfl⟩ := List.mem_iff_append.mp hmem
  have hsome := Text.splitOnceAt_isSome [a] before after
  rw [List.singleton_append,h] at hsome
  cases hsome

variable {path : List Char} (caps : Captures path) (params : Params)

/-- The text that takes the place of a part of a template. -/
def TemplatePiece.meaning : TemplatePiece → List Char
  | .text c => [c]
  | .reference name => resolveRef caps params name

theorem meaning_text (before : List Char) : (before.map TemplatePiece.text).flatMap (TemplatePiece.meaning caps params) = before := by
  induction before with
  | nil => rfl
  | cons c before ih => rw [List.map_cons,List.flatMap_cons,ih]; rfl

/-- Every template can be read, and is expanded as it is read. -/
theorem exists_reads (out rest : List Char) :
    ∃ ps, Reads rest ps ∧ expandFrom caps params out rest = out ++ ps.flatMap (TemplatePiece.meaning caps params) := by
  fun_induction expandFrom caps params out rest with
  | case1 out rest hdollar =>
    have hread := Reads.append_text (notMem_of_splitOnceAt_eq_none hdollar) .nil
    rw [List.append_nil,List.append_nil] at hread
    exact ⟨_,hread,by rw [meaning_text]⟩
  | case2 out rest before hdollar =>
    obtain ⟨rfl,hbefore⟩ := splitOnceAt_singleton hdollar
    refine ⟨_,.append_text hbefore (.lone (fun c after h => by cases h) .nil),?_⟩
    rw [List.flatMap_append,meaning_text,List.append_assoc]
    rfl
  | case3 out rest before after name rest' hbrace hdollar ih =>
    obtain ⟨rfl,hbefore⟩ := splitOnceAt_singleton hdollar
    obtain ⟨rfl,hname⟩ := splitOnceAt_singleton hbrace
    obtain ⟨ps,hread,hvalue⟩ := ih
    refine ⟨_,.append_text hbefore (.braced hname hread),?_⟩
    rw [hvalue,List.flatMap_append,meaning_text,List.append_assoc,List.append_assoc]
    rfl
  | case4 out rest before after hbrace hdollar ih =>
    obtain ⟨rfl,hbefore⟩ := splitOnceAt_singleton hdollar
    obtain ⟨ps,hread,hvalue⟩ := ih
    refine ⟨_,.append_text hbefore (.lone (fun c after' h => ?_) hread),?_⟩
    · obtain ⟨rfl,rfl⟩ := List.cons.inj h
      exact ⟨rfl,fun _ => notMem_of_splitOnceAt_eq_none hbrace⟩
    · rw [hvalue,List.flatMap_append,meaning_text,List.append_assoc,List.append_assoc]
      rfl
  | case5 out rest before c after hdollar hc hident ih =>
    obtain ⟨rfl,hbefore⟩ := splitOnceAt_singleton hdollar
    obtain ⟨ps,hread,hvalue⟩ := ih
    have hword : ∀ d ∈ (c :: after).takeWhile isIdent, isIdent d = true := fun d hd => List.all_eq_true.mp List.all_takeWhile d hd
    have hne : (c :: after).takeWhile isIdent ≠ [] := by
      rw [List.takeWhile_cons_of_pos hident]
      exact List.cons_ne_nil _ _
    have hstop : ∀ d after', (c :: after).dropWhile isIdent = d :: after' → isIdent d = false := fun d after' h => by
      have hnot := List.dropWhile_get_zero_not isIdent (c :: after) (by rw [h]; exact Nat.succ_pos _)
      simpa [h] using hnot
    have hread := Reads.append_text hbefore (.word hne hword hstop hread)
    rw [List.takeWhile_append_dropWhile] at hread
    refine ⟨_,hread,?_⟩
    rw [hvalue,List.flatMap_append,meaning_text,List.append_assoc,List.append_assoc]
    rfl
  | case6 out rest before c after hdollar hc hident ih =>
    obtain ⟨rfl,hbefore⟩ := splitOnceAt_singleton hdollar
    obtain ⟨ps,hread,hvalue⟩ := ih
    refine ⟨_,.append_text hbefore (.lone (fun d after' h => ?_) hread),?_⟩
    · obtain ⟨rfl,-⟩ := List.cons.inj h
      exact ⟨by simpa using hident,fun he => absurd he hc⟩
    · rw [hvalue,List.flatMap_append,meaning_text,List.append_assoc,List.append_assoc]
      rfl

end Reading

/-- The empty match in the empty path. -/
def Captures.empty : Captures [] := ⟨(0,0),[],[],⟨[],[],[],rfl,rfl⟩,fun _ h => absurd h List.not_mem_nil⟩

/-- A part of a path lies between what is sliced off around it. -/
theorem IsSpan.slices {span : ℕ × ℕ} (h : IsSpan path span) : ∃ pre matched post, path = pre ++ (matched ++ post) ∧
    span = (utf8Len pre,utf8Len (pre ++ matched)) ∧ slice span.1 span.2 path = some matched ∧
    (splitBytes span.1 path).map Prod.fst = some pre ∧ (splitBytes span.2 path).map Prod.snd = some post := by
  obtain ⟨pre,matched,post,rfl,rfl⟩ := h
  refine ⟨pre,matched,post,rfl,rfl,TextCursor.slice_append pre matched post,?_,?_⟩
  · rw [splitBytes_append]
    rfl
  · rw [← List.append_assoc,splitBytes_append]
    rfl

theorem row_of_compile {regexNew : String → Except String Regex} {routes : List Route} {table : RewriteTable}
    (htable : RewriteTable.compile regexNew routes = .ok table) {idx : ℕ} {route : Route} (hroute : routes[idx]? = some route) :
    RewriteTable.row regexNew route = .ok (table.rewriteRegex idx,table.rewriteSubstitution idx) := by
  obtain ⟨rows,hrows,htable⟩ := bind_eq_ok.mp htable
  obtain rfl := Except.ok.inj htable
  have hall := forall₂_of_mapM hrows
  obtain ⟨hidx,rfl⟩ := List.getElem?_eq_some_iff.mp hroute
  have hlt : idx < rows.length := hall.length_eq ▸ hidx
  have hrow := (List.forall₂_iff_get.mp hall).2 idx hidx hlt
  simp only [List.get_eq_getElem] at hrow
  rw [hrow]
  simp [RewriteTable.rewriteRegex,RewriteTable.rewriteSubstitution,List.getElem?_eq_getElem hlt]

private theorem users_whole : IsSpan "/v1/users".toList (0,9) := ⟨[],"/v1/users".toList,[],by decide,by decide⟩

private theorem users_groups : ∀ span, some span ∈ [some (4,9)] → IsSpan "/v1/users".toList span := by
  intro span hspan
  obtain rfl := Option.some.inj (List.mem_singleton.mp hspan)
  exact ⟨"/v1/".toList,"users".toList,[],by decide,by decide⟩

private def usersCaptures : Captures "/v1/users".toList := ⟨(0,9),[some (4,9)],[],users_whole,users_groups⟩

/-- `^/v1/(.*)$`, as the engine answers it. -/
private def usersRegex (_ : String) : Except String Regex :=
  .ok fun path => if h : path = "/v1/users".toList then some (h ▸ usersCaptures) else none

private def usersRoute : Route where
  name := "users"
  routeMatch := ⟨⟨.prefixed,"/v1"⟩,none,[],[],[],[],none⟩
  service := "users"
  policies := []
  authorization := none
  transforms := none
  action := .proxy (some (.regex "^/v1/(.*)$" "/api/$1"))

end Dwara.Dataplane.PathRewrite
