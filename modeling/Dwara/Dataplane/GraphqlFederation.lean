import Dwara.Dataplane.GraphqlLimits
import Dwara.Lib.GraphqlFields

/-! What passes the check of a GraphQL request above its limits. -/

namespace Dwara.Dataplane.GraphqlCheck
open Dwara.Lib Dwara.Lib.Graphql

/-- The root fields that a composition of schemas asks for. -/
def introspectionFields : List (List Char) := ["_service".toList,"__schema".toList,"__type".toList]

/-- One of their names occurs in the lexeme. -/
def MentionsIntrospection (a : Lexeme) : Prop := ∃ word ∈ introspectionFields, word <:+: a.text

instance (a : Lexeme) : Decidable (MentionsIntrospection a) := inferInstanceAs (Decidable (∃ word ∈ introspectionFields, word <:+: a.text))

section Exempt
variable {lib : GraphqlLib} {checker : GraphQLChecker} {query : String} {ls : List Lexeme} {doc : Document}

/-- Above one of the limits of a checker. -/
def AboveLimits (checker : GraphQLChecker) (scanned : ℕ × UInt64) : Prop :=
  checker.depthLimit < scanned.1 ∨ checker.complexityLimit < scanned.2

/-- Above the limits a query passes only if all its root fields ask for introspection. -/
def ExemptsIntrospectionOnly (lib : GraphqlLib) (checker : GraphQLChecker) (query : String) : Prop :=
  ∀ doc, Reads query.toList doc → (checkQuery lib checker query).1 = .allow → AboveLimits checker (checkQuery lib checker query).2 →
    ∀ name ∈ doc.rootFields, name ∈ introspectionFields

/-- The search of the text finds what its lexemes mention. -/
theorem isFederationIntrospection_iff (hlex : lex query.toList = some ls) :
    isFederationIntrospection query = true ↔ ∃ a ∈ ls, MentionsIntrospection a := by
  obtain ⟨htext,hspaced⟩ := lex_eq_some.mp hlex
  have hword : ∀ word ∈ introspectionFields, (word <:+: query.toList ↔ ∃ a ∈ ls, word <:+: a.text) := by
    intro word hword
    have hchars : ∀ word ∈ introspectionFields, word.all Graphql.isNameChar = true := by decide
    have hne : ∀ word ∈ introspectionFields, word ≠ [] := by decide
    rw [htext]
    exact infix_render (List.all_eq_true.mp (hchars word hword)) (hne word hword) hspaced
  have hsearch : isFederationIntrospection query = true ↔ ∃ word ∈ introspectionFields, word <:+: query.toList := by
    simp only [isFederationIntrospection,Bool.or_eq_true,Text.contains_iff,introspectionFields,List.mem_cons,List.not_mem_nil,or_false,
      exists_eq_or_imp,exists_eq_left,or_assoc]
  rw [hsearch]
  constructor
  · rintro ⟨word,hmem,hwithin⟩
    obtain ⟨a,ha,hwithin⟩ := (hword word hmem).mp hwithin
    exact ⟨a,ha,word,hmem,hwithin⟩
  · rintro ⟨a,ha,word,hmem,hwithin⟩
    exact ⟨word,hmem,(hword word hmem).mpr ⟨a,ha,hwithin⟩⟩

@[simp] theorem checkQuery_scanned : (checkQuery lib checker query).2 =
    scanDepthComplexity checker.costPerField checker.complexityCoefficient query := by
  simp only [checkQuery]
  split_ifs <;> rfl

/-- Above the limits a query passes by its text alone. -/
theorem allow_above_iff (hpass : checker.federationPassthrough = true) (habove : AboveLimits checker (checkQuery lib checker query).2) :
    (checkQuery lib checker query).1 = .allow ↔
      isFederationIntrospection query = true ∧ persistedDenied lib checker query = false := by
  rw [checkQuery_scanned] at habove
  cases hsearch : isFederationIntrospection query with
  | true =>
    cases hdenied : persistedDenied lib checker query <;> simp [checkQuery,hpass,hsearch,hdenied]
  | false =>
    obtain hdepth | hcomplexity := habove
    · simp [checkQuery,hsearch,hdepth]
    · by_cases hdepth : checker.depthLimit < (scanDepthComplexity checker.costPerField checker.complexityCoefficient query).1
      · simp [checkQuery,hsearch,hdepth]
      · simp [checkQuery,hsearch,hdepth,hcomplexity]

end Exempt

/-- A query with another root field is held to the limits just when no lexeme mentions a name of
introspection, or it is within them anyway, or refused for not being a known one. -/
theorem exempts_introspection_only_iff (lib : GraphqlLib) (checker : GraphQLChecker) (hpass : checker.federationPassthrough = true)
    (query : String) :
    ExemptsIntrospectionOnly lib checker query ↔
      ∀ ls doc, lex query.toList = some ls → Reads query.toList doc → (∃ name ∈ doc.rootFields, name ∉ introspectionFields) →
        (∀ a ∈ ls, ¬ MentionsIntrospection a) ∨
          ¬ AboveLimits checker (scanDepthComplexity checker.costPerField checker.complexityCoefficient query) ∨
          persistedDenied lib checker query = true := by
  constructor
  · intro h ls doc hlex hreads ⟨name,hroot,hother⟩
    by_contra hnot
    simp only [not_or,not_forall,not_not,Bool.not_eq_true] at hnot
    obtain ⟨⟨a,ha,hmentions⟩,habove,hknown⟩ := hnot
    have hchecked : AboveLimits checker (checkQuery lib checker query).2 := by rwa [checkQuery_scanned]
    have hallow := (allow_above_iff hpass hchecked).mpr ⟨(isFederationIntrospection_iff hlex).mpr ⟨a,ha,hmentions⟩,hknown⟩
    exact hother (h doc hreads hallow hchecked name hroot)
  · intro h doc hreads hallow habove name hroot
    obtain ⟨ls,hlex,-⟩ := id hreads
    obtain ⟨hsearch,hknown⟩ := (allow_above_iff hpass habove).mp hallow
    obtain ⟨a,ha,hmentions⟩ := (isFederationIntrospection_iff hlex).mp hsearch
    rw [checkQuery_scanned] at habove
    by_contra hother
    obtain hnone | hwithin | hdenied := h ls doc hlex hreads ⟨name,hroot,hother⟩
    · exact hnone a ha hmentions
    · exact hwithin habove
    · exact absurd hdenied (by simp [hknown])

section Mentioning

/-- At most one field, unless the query asks for introspection. -/
def oneField : GraphQLChecker where
  depthLimit := 8
  complexityLimit := 1
  complexityCoefficient := 1
  costPerField := []
  persistedEnabled := false
  persistedStore := []
  maxBodyBytes := defaultGraphqlMaxBodyBytes
  federationPassthrough := true

/-- `{a b}` with more between the two. -/
def pairWith (ls : List Lexeme) : List Lexeme := .punctuator '\x7b' :: .name ['a'] :: ls ++ [.name ['b'],.punctuator '\x7d']

/-- The selections of such a query, and how `b` is called. -/
def pairSelections (selections : List Selection) (responseName : Option Name) : List Selection :=
  selections ++ [.field responseName ['b'] [] [] []]

/-- `{a __typename b}`, `{a __type:b}`, `{a(__type:1)b}`, `{a(c:"__schema")b}` and `{a b}` with a
comment. -/
def mentioning : List (List Lexeme × List Selection × Option Name) :=
  [([.ignored ' ',.name "__typename".toList,.ignored ' '],[.field none ['a'] [] [] [],.field none "__typename".toList [] [] []],none),
    ([.ignored ' ',.name "__type".toList,.punctuator ':'],[.field none ['a'] [] [] []],some "__type".toList),
    ([.punctuator '(',.name "__type".toList,.punctuator ':',.number ['1'],.punctuator ')'],
      [.field none ['a'] [("__type".toList,.number ['1'])] [] []],none),
    ([.punctuator '(',.name ['c'],.punctuator ':',.string "__schema".toList,.punctuator ')'],
      [.field none ['a'] [(['c'],.string "__schema".toList)] [] []],none),
    ([.comment "_service".toList,.ignored '\n'],[.field none ['a'] [] [] []],none)]

variable {ls : List Lexeme} {selections : List Selection} {responseName : Option Name}

private theorem reads_of (hspaced : WellSpaced ls)
    (htokens : ls.flatMap Lexeme.significant = bracketed '\x7b' '\x7d' (selectionsTokens selections)) :
    Reads (String.ofList (render ls)).toList [.operation { selections }] := by
  refine ⟨ls,lex_eq_some.mpr ⟨String.toList_ofList,hspaced⟩,?_⟩
  rw [htokens]
  simp [Definition.tokens]

/-- What mentions introspection passes whatever it asks for. -/
private theorem passes_of (lib : GraphqlLib) (hspaced : WellSpaced ls)
    (htokens : ls.flatMap Lexeme.significant = bracketed '\x7b' '\x7d' (selectionsTokens (pairSelections selections responseName)))
    (hmentions : ∃ a ∈ ls, MentionsIntrospection a) (hcost : 1 < (scanText [] 1 {} (render ls)).2) :
    ¬ ExemptsIntrospectionOnly lib oneField (String.ofList (render ls)) := by
  have hlex : lex (String.ofList (render ls)).toList = some ls := lex_eq_some.mpr ⟨String.toList_ofList,hspaced⟩
  intro h
  have habove : AboveLimits oneField (checkQuery lib oneField (String.ofList (render ls))).2 := by
    rw [checkQuery_scanned,scanDepthComplexity_eq,String.toList_ofList]
    exact .inr hcost
  have hallow := (allow_above_iff rfl habove).mpr ⟨(isFederationIntrospection_iff hlex).mpr hmentions,rfl⟩
  have hroot : ['b'] ∈ Document.rootFields [.operation { selections := pairSelections selections responseName }] :=
    ⟨_,List.mem_singleton_self _,.field (List.mem_append_right _ (List.mem_singleton_self _))⟩
  exact absurd (h _ (reads_of hspaced htokens) hallow habove ['b'] hroot) (by decide)

private theorem valid_pairWith {mid : List Lexeme} (h : ∀ a ∈ mid, a.Valid) : ∀ a ∈ pairWith mid, a.Valid := by
  intro a ha
  simp only [pairWith,List.cons_append,List.mem_cons,List.mem_append,List.not_mem_nil,or_false] at ha
  obtain rfl | rfl | ha | rfl | rfl := ha
  · rfl
  · rfl
  · exact h a ha
  · rfl
  · rfl

private theorem valid_mentioning : ∀ q ∈ mentioning, ∀ a ∈ pairWith q.1, a.Valid := by
  intro q hq
  apply valid_pairWith
  simp only [mentioning,List.mem_cons,List.not_mem_nil,or_false] at hq
  obtain rfl | rfl | rfl | rfl | rfl := hq
  all_goals
    intro a ha
    simp only [List.mem_cons,List.not_mem_nil,or_false] at ha
  · obtain rfl | rfl | rfl := ha <;> rfl
  · obtain rfl | rfl | rfl := ha <;> rfl
  · obtain rfl | rfl | rfl | rfl | rfl := ha <;> rfl
  · obtain rfl | rfl | rfl | rfl | rfl := ha
    case inr.inr.inr.inl => exact fun r => rfl
    all_goals rfl
  · obtain rfl | rfl := ha
    · have hline : "_service".toList.all (! isLineEnd ·) = true := by decide
      exact fun c hc => by simpa using List.all_eq_true.mp hline c hc
    · rfl

/-- A field, an alias, an argument, a string and a comment each let a query of two fields pass. -/
theorem mentioning_pass : ¬ ∃ q ∈ mentioning, ∃ lib, ExemptsIntrospectionOnly lib oneField (String.ofList (render (pairWith q.1))) := by
  have hapart : ∀ q ∈ mentioning, (pairWith q.1).IsChain Lib.Graphql.Apart := by decide
  have htokens : ∀ q ∈ mentioning, (pairWith q.1).flatMap Lexeme.significant =
      bracketed '\x7b' '\x7d' (selectionsTokens (pairSelections q.2.1 q.2.2)) := by decide
  have hmentions : ∀ q ∈ mentioning, ∃ a ∈ pairWith q.1, MentionsIntrospection a := by decide
  have hcost : ∀ q ∈ mentioning, 1 < (scanText [] 1 {} (render (pairWith q.1))).2 := by decide
  rintro ⟨q,hq,lib,hexempts⟩
  exact passes_of lib ⟨valid_mentioning q hq,hapart q hq⟩ (htokens q hq) (hmentions q hq) (hcost q hq) hexempts

/-- Where no queries are persisted, neither the hash nor the body is asked for. -/
def unasked : GraphqlLib := ⟨fun _ => "",fun _ => none⟩

/-- The same query without the like is held to the limit. -/
theorem exempts_introspection_only_pair :
    ExemptsIntrospectionOnly unasked oneField (String.ofList (render (pairWith [.ignored ' ']))) := by
  have hspaced : WellSpaced (pairWith [.ignored ' ']) := ⟨valid_pairWith fun a ha => by
    obtain rfl := List.mem_singleton.mp ha
    rfl,by decide⟩
  refine (exempts_introspection_only_iff unasked oneField rfl _).mpr fun ls doc hlex _ _ => .inl ?_
  obtain rfl := Option.some.inj (hlex.symm.trans (lex_eq_some.mpr ⟨String.toList_ofList,hspaced⟩))
  decide

end Mentioning

end Dwara.Dataplane.GraphqlCheck
