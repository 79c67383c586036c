import Dwara.Lib.GraphqlText

/-! The fields a GraphQL text selects and how deep its braces nest, read off its lexemes. -/

namespace Dwara.Lib.Graphql

/-- White space and comments. -/
def Lexeme.isSilent : Lexeme → Bool
  | ignored _ => true
  | comment _ => true
  | _ => false

/-- How many braces and parentheses are open. -/
structure Scope where
  braces : ℕ := 0
  parens : ℕ := 0

namespace Scope

def step (o : Scope) : Lexeme → Scope
  | .punctuator '\x7b' => { o with braces := o.braces + 1 }
  | .punctuator '\x7d' => { o with braces := o.braces - 1 }
  | .punctuator '(' => { o with parens := o.parens + 1 }
  | .punctuator ')' => { o with parens := o.parens - 1 }
  | _ => o

def total (o : Scope) : ℕ := o.braces + o.parens

/-- A closing brace finds an open one, and a closing parenthesis too, when anything is open. -/
def closes (o : Scope) : Lexeme → Bool
  | .punctuator '\x7d' => 0 < o.braces || o.parens == 0
  | .punctuator ')' => 0 < o.parens || o.braces == 0
  | _ => true

end Scope

/-- The most that is ever open. -/
def peak (f : Scope → ℕ) : Scope → List Lexeme → ℕ
  | o, [] => f o
  | o, a :: ls => max (f o) (peak f (o.step a) ls)

def braceNesting (ls : List Lexeme) : ℕ := peak Scope.braces {} ls

def nesting (ls : List Lexeme) : ℕ := peak Scope.total {} ls

/-- No bracket is closed by one of the other kind. -/
def closed : Scope → List Lexeme → Bool
  | _, [] => true
  | o, a :: ls => o.closes a && closed (o.step a) ls

/-- What a name would be that stands here. -/
inductive Role where
  | free | fragment | condition | directive
  deriving DecidableEq, Repr

def Role.step : Role → Lexeme → Role
  | role, .ignored _ => role
  | role, .comment _ => role
  | _, .spread => fragment
  | fragment, .name ['o','n'] => condition
  | _, .punctuator '@' => directive
  | _, _ => free

/-- A name with a colon behind it is an alias. -/
def colonNext (ls : List Lexeme) : Bool := ls.find? (! ·.isSilent) == some (.punctuator ':')

/-- The field a lexeme selects: a name in a selection set that is neither an alias nor part of a
spread or a directive. -/
def selected (o : Scope) (role : Role) (ls : List Lexeme) : Lexeme → List (List Char)
  | .name t => if 0 < o.braces ∧ o.parens = 0 ∧ role = .free ∧ ¬ colonNext ls then [t] else []
  | _ => []

def fieldNamesFrom : Scope → Role → List Lexeme → List (List Char)
  | _, _, [] => []
  | o, role, a :: ls => selected o role ls a ++ fieldNamesFrom (o.step a) (role.step a) ls

/-- The names of all fields, one behind the other. -/
def fieldNames (ls : List Lexeme) : List (List Char) := fieldNamesFrom {} .free ls

/-- The lexemes behind a comment that are in its line, when a line feed alone ends a line. -/
def restOfLine (ls : List Lexeme) : List Lexeme := ls.takeWhile (· ≠ .ignored '\n')

/-- No comment has a lexeme behind it in its line. -/
def commentsLast : List Lexeme → Bool
  | [] => true
  | .comment _ :: ls => (restOfLine ls).all (·.isSilent) && commentsLast ls
  | _ :: ls => commentsLast ls

/-- No block string has an escape. -/
def blocksPlain (ls : List Lexeme) : Prop := ∀ raw, .blockString raw ∈ ls → ¬ ['\\','"','"','"'] <:+: raw

section Silent
variable {a : Lexeme} {o : Scope} {role : Role}

@[simp] theorem Scope.step_silent (h : a.isSilent = true) : o.step a = o := by
  cases a <;> first | rfl | exact nomatch h

@[simp] theorem Role.step_silent (h : a.isSilent = true) : role.step a = role := by
  cases a with
  | ignored c => cases role <;> rfl
  | comment t => cases role <;> rfl
  | _ => exact nomatch h

theorem selected_silent (h : a.isSilent = true) (ls : List Lexeme) : selected o role ls a = [] := by
  cases a <;> first | rfl | exact nomatch h

theorem selected_directive (ls : List Lexeme) (a : Lexeme) : selected o .directive ls a = [] := by
  cases a with
  | name t => exact if_neg fun h => nomatch h.2.2.1
  | _ => rfl

end Silent

theorem le_peak (f : Scope → ℕ) (o : Scope) (ls : List Lexeme) : f o ≤ peak f o ls := by
  cases ls with
  | nil => exact le_rfl
  | cons a ls => exact le_max_left _ _

theorem peak_step_le (f : Scope → ℕ) (o : Scope) (a : Lexeme) (ls : List Lexeme) : peak f (o.step a) ls ≤ peak f o (a :: ls) :=
  le_max_right _ _

/-- Without a crossing, one bracket less is open behind a closing one. -/
theorem Scope.total_step {o : Scope} {a : Lexeme} (h : o.closes a = true) :
    (o.step a).total = if a = .punctuator '\x7b' ∨ a = .punctuator '(' then o.total + 1
      else if a = .punctuator '\x7d' ∨ a = .punctuator ')' then o.total - 1 else o.total := by
  unfold Scope.closes at h
  unfold Scope.step
  split <;> simp_all [Scope.total] <;> omega

end Dwara.Lib.Graphql

/-! GraphQL documents, the tokens they are written with, and what their operations select at the
root. -/

namespace Dwara.Lib.Graphql

abbrev Name := List Char

inductive Value where
  | variable (name : Name)
  | number (text : List Char)
  | string (raw : List Char)
  | blockString (raw : List Char)
  | word (name : Name)
  | list (items : List Value)
  | object (fields : List (Name × Value))

inductive TypeRef where
  | named (name : Name) (required : Bool)
  | list (item : TypeRef) (required : Bool)

structure Directive where
  name : Name
  arguments : List (Name × Value) := []

structure VariableDefinition where
  name : Name
  type : TypeRef
  default : Option Value := none
  directives : List Directive := []

/-- A fragment cannot be called `on`. -/
structure FragmentName where
  name : Name
  ne_on : name ≠ ['o','n']

/-- A field without a selection set has no selections. -/
inductive Selection where
  | field (responseName : Option Name) (name : Name) (arguments : List (Name × Value)) (directives : List Directive) (selections : List Selection)
  | spread (fragment : FragmentName) (directives : List Directive)
  | inline (condition : Option Name) (directives : List Directive) (selections : List Selection)

inductive OperationType where
  | query | mutation | subscription
  deriving DecidableEq, Repr

/-- What stands before the selection set of an operation, unless it is written in short. -/
structure OperationHead where
  type : OperationType
  name : Option Name := none
  variableDefinitions : List VariableDefinition := []
  directives : List Directive := []

structure Operation where
  head : Option OperationHead := none
  selections : List Selection

structure Fragment where
  name : FragmentName
  condition : Name
  directives : List Directive := []
  selections : List Selection

inductive Definition where
  | operation (operation : Operation)
  | fragment (fragment : Fragment)

abbrev Document := List Definition

section Tokens

def bracketed (o c : Char) (ls : List Lexeme) : List Lexeme := .punctuator o :: (ls ++ [.punctuator c])

mutual

def Value.tokens : Value → List Lexeme
  | .variable name => [.punctuator '$',.name name]
  | .number text => [.number text]
  | .string raw => [.string raw]
  | .blockString raw => [.blockString raw]
  | .word name => [.name name]
  | .list items => bracketed '[' ']' (itemsTokens items)
  | .object fields => bracketed '\x7b' '\x7d' (fieldsTokens fields)

def itemsTokens : List Value → List Lexeme
  | [] => []
  | v :: items => v.tokens ++ itemsTokens items

def fieldsTokens : List (Name × Value) → List Lexeme
  | [] => []
  | (name,v) :: fields => .name name :: .punctuator ':' :: v.tokens ++ fieldsTokens fields

end

/-- Without arguments there are no parentheses. -/
def argumentsTokens (arguments : List (Name × Value)) : List Lexeme :=
  if arguments.isEmpty then [] else bracketed '(' ')' (fieldsTokens arguments)

def requiredTokens (required : Bool) : List Lexeme := if required then [.punctuator '!'] else []

def TypeRef.tokens : TypeRef → List Lexeme
  | .named name required => .name name :: requiredTokens required
  | .list item required => bracketed '[' ']' item.tokens ++ requiredTokens required

def Directive.tokens (d : Directive) : List Lexeme := .punctuator '@' :: .name d.name :: argumentsTokens d.arguments

def directivesTokens (ds : List Directive) : List Lexeme := ds.flatMap Directive.tokens

def VariableDefinition.tokens (v : VariableDefinition) : List Lexeme :=
  .punctuator '$' :: .name v.name :: .punctuator ':' :: v.type.tokens ++
    v.default.elim [] (fun value => .punctuator '=' :: value.tokens) ++ directivesTokens v.directives

def conditionTokens (type : Name) : List Lexeme := [.name ['o','n'],.name type]

mutual

def Selection.tokens : Selection → List Lexeme
  | .field responseName name arguments directives selections =>
    responseName.elim [] (fun other => [.name other,.punctuator ':']) ++ [.name name] ++ argumentsTokens arguments ++ directivesTokens directives ++
      (if selections.isEmpty then [] else bracketed '\x7b' '\x7d' (selectionsTokens selections))
  | .spread fragment directives => .spread :: .name fragment.name :: directivesTokens directives
  | .inline condition directives selections =>
    .spread :: condition.elim [] conditionTokens ++ directivesTokens directives ++ bracketed '\x7b' '\x7d' (selectionsTokens selections)

def selectionsTokens : List Selection → List Lexeme
  | [] => []
  | s :: selections => s.tokens ++ selectionsTokens selections

end

def OperationType.keyword : OperationType → Name
  | query => "query".toList
  | mutation => "mutation".toList
  | subscription => "subscription".toList

def OperationHead.tokens (h : OperationHead) : List Lexeme :=
  .name h.type.keyword :: h.name.elim [] (fun name => [.name name]) ++
    (if h.variableDefinitions.isEmpty then [] else bracketed '(' ')' (h.variableDefinitions.flatMap VariableDefinition.tokens)) ++ directivesTokens h.directives

def Definition.tokens : Definition → List Lexeme
  | operation op => op.head.elim [] OperationHead.tokens ++ bracketed '\x7b' '\x7d' (selectionsTokens op.selections)
  | fragment f =>
    .name "fragment".toList :: .name f.name.name :: conditionTokens f.condition ++ directivesTokens f.directives ++
      bracketed '\x7b' '\x7d' (selectionsTokens f.selections)

/-- What counts of a lexeme. -/
def Lexeme.significant : Lexeme → List Lexeme
  | ignored _ => []
  | comment _ => []
  | reference t => [punctuator '$',name t]
  | a => [a]

/-- A text reads as a document when its lexemes are the document's tokens, with whatever is ignored
between them. -/
def Reads (text : List Char) (doc : Document) : Prop :=
  ∃ ls, lex text = some ls ∧ ls.flatMap Lexeme.significant = doc.flatMap Definition.tokens

end Tokens

namespace Document

/-- What is selected at the level of a selection set, fragments included. -/
inductive Selects (doc : Document) : List Selection → Name → Prop
  | field {selections responseName name arguments directives inner} :
      .field responseName name arguments directives inner ∈ selections → Selects doc selections name
  | spread {selections directives name} {f : Fragment} :
      .spread f.name directives ∈ selections → .fragment f ∈ doc → Selects doc f.selections name → Selects doc selections name
  | inline {selections condition directives inner name} :
      .inline condition directives inner ∈ selections → Selects doc inner name → Selects doc selections name

/-- The root fields of a document: those its operations select. -/
def rootFields (doc : Document) : Set Name := {name | ∃ op, .operation op ∈ doc ∧ Selects doc op.selections name}

end Document

section Words

/-- Behind a lexeme that ends in a character of names, another such character would join it. -/
theorem joins_of_isNameChar {a : Lexeme} (ha : a.Valid) {x : List Char} {c d : Char} (htext : a.text = x ++ [c]) (hc : isNameChar c = true)
    (hd : isNameChar d = true) : a.joins d = true := by
  have hnot : ∀ y e, a.text = y ++ [e] → isNameChar e = true := by
    intro y e hy
    have hlast := congrArg List.getLast? (htext.symm.trans hy)
    rw [List.getLast?_concat,List.getLast?_concat] at hlast
    exact Option.some.inj hlast ▸ hc
  cases a with
  | ignored e => exact absurd (hnot [] e rfl) (by simp [isNameChar_of_isIgnored ha])
  | comment t =>
    have hline : isLineEnd d = false := by
      cases hend : isLineEnd d with
      | false => rfl
      | true => exact absurd (isNameChar_of_isIgnored (c := d) (by simp [isIgnored,hend])) (by simp [hd])
    simp [Lexeme.joins,hline]
  | punctuator p => exact absurd (hnot [] p rfl) (by simp [isNameChar_of_isPunctuator ha])
  | spread => exact absurd (hnot ['.','.'] '.' rfl) (by decide)
  | name t => exact hd
  | reference t => exact hd
  | number t => exact isNumberFollow_of_isNameChar hd
  | string raw => exact absurd (hnot ('"' :: raw) '"' rfl) (by decide)
  | blockString raw => exact absurd (hnot ('"' :: '"' :: '"' :: (raw ++ ['"','"'])) '"' (by simp [Lexeme.text])) (by decide)

/-- A word of characters of names that occurs in a text occurs in one of its lexemes. -/
theorem infix_render {w : List Char} (hw : ∀ c ∈ w, isNameChar c = true) (hne : w ≠ []) {ls : List Lexeme} (h : WellSpaced ls) :
    w <:+: render ls ↔ ∃ a ∈ ls, w <:+: a.text := by
  constructor
  · intro hwithin
    induction ls with
    | nil => exact absurd (List.eq_nil_of_infix_nil hwithin) hne
    | cons a ls ih =>
      obtain ⟨ha,hhead,hls⟩ := wellSpaced_cons.mp h
      obtain ⟨x,y,hxy⟩ := hwithin
      rw [render_cons,List.append_assoc] at hxy
      obtain hhere | hthere : w <:+: a.text ∨ w <:+: render ls := by
        obtain ⟨u,htext,hrest⟩ | ⟨u,-,hrender⟩ := List.append_eq_append_iff.mp hxy
        · obtain ⟨v,rfl,-⟩ | ⟨v,rfl,hrender⟩ := List.append_eq_append_iff.mp hrest
          · exact .inl ⟨x,v,by rw [htext,List.append_assoc]⟩
          -- the word is cut where the first lexeme ends
          · obtain rfl | ⟨u,c,rfl⟩ := u.eq_nil_or_concat'
            · exact .inr ⟨[],y,hrender.symm⟩
            · cases v with
              | nil => exact .inl ⟨x,[],by simp [htext]⟩
              | cons d v =>
                have hjoins : a.joins d = true := by
                  refine joins_of_isNameChar ha (x := x ++ u) (c := c) (by simp [htext]) (hw c (by simp)) (hw d (by simp))
                rw [hrender] at hhead
                exact absurd hjoins (by simpa using hhead)
        · exact .inr ⟨u,y,by rw [hrender,List.append_assoc]⟩
      · exact ⟨a,List.mem_cons_self,hhere⟩
      · obtain ⟨b,hb,hwithin⟩ := ih hls hthere
        exact ⟨b,List.mem_cons_of_mem a hb,hwithin⟩
  · rintro ⟨a,ha,hwithin⟩
    obtain ⟨pre,post,rfl⟩ := List.append_of_mem ha
    rw [render_append,render_cons]
    exact hwithin.trans (List.infix_append' _ _ _)

end Words

end Dwara.Lib.Graphql
