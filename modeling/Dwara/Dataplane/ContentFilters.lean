import Dwara.Dataplane.GraphqlCheck
import Dwara.Dataplane.Waf

/-! The content filters a request passes before it is routed on. -/

namespace Dwara.Dataplane.ContentFilters
open Dwara.Lib Dwara.Lib.BodyStream Dwara.Dataplane.Waf Dwara.Dataplane.GraphqlCheck

/-- The filters of a route. -/
structure RouteFilters where
  waf : Option RouteWaf := none
  graphql : Option RouteGraphql := none

/-- A request, with the length its body declares. -/
structure FilterRequest (ε : Type) where
  head : RequestHead
  declared : Option ℕ := none
  body : Body ε

/-- Libraries the filters rest on. -/
structure FilterLib where
  regexes : Regexes
  graphql : GraphqlLib

inductive Filtered (ε : Type) where
  | rejected (status : ℕ) (code message : String)
  | routed (body : Body ε)

def wafBlocked {ε : Type} : Filtered ε := .rejected 403 "waf_blocked" "request blocked by security filter"

/-- The rejection of a denied query. -/
def graphqlRejected {ε : Type} : GraphQLCheckResult → Option (Filtered ε)
  | .allow => none
  | .denyDepth => some (.rejected 400 "graphql_depth_exceeded" "GraphQL query depth exceeds the configured limit")
  | .denyComplexity => some (.rejected 400 "graphql_complexity_exceeded" "GraphQL query complexity exceeds the configured limit")
  | .denyPersistedQuery =>
    some (.rejected 400 "graphql_persisted_query_required" "GraphQL query hash not found in the persisted-query store")

section Handle
variable {ε : Type} (lib : FilterLib) (route : RouteFilters) (req : FilterRequest ε)

/-- The GraphQL check, and what it sends on. -/
def handleGraphql : Filtered ε :=
  match route.graphql.bind GraphqlCheck.fromConfig with
  | none => .routed req.body
  | some checker =>
    let checked := checkBody lib.graphql checker req.declared req.body
    (graphqlRejected checked.1.1).getD (.routed (Body.full checked.2))

/-- A filter of the line and the headers, then either of the body or of its query: a body
the first filter has inspected is routed on from there. -/
def handleInner : Filtered ε :=
  match route.waf.bind (Waf.fromConfig lib.regexes) with
  | none => handleGraphql lib route req
  | some gen =>
    if (inspectHead lib.regexes gen req.head).isSome && !gen.dryRun then wafBlocked
    else if 0 < gen.maxBodyInspectBytes && shouldInspectBody req.head then
      let inspected := inspectBody lib.regexes gen req.body
      if inspected.1.isSome && !gen.dryRun then wafBlocked else .routed inspected.2
    else handleGraphql lib route req

/-- The filter of the body applies. -/
def inspectsBody (gen : WafGeneration) : Bool := 0 < gen.maxBodyInspectBytes && shouldInspectBody req.head

/-- The filter blocks the request: by its head, or by its body where that is inspected. -/
def wafBlocks (gen : WafGeneration) : Bool :=
  !gen.dryRun && ((inspectHead lib.regexes gen req.head).isSome ||
    (inspectsBody req gen && (inspectBody lib.regexes gen req.body).1.isSome))

/-- The check denies the query of the request's own body. -/
def graphqlDenies (checker : GraphQLChecker) : Bool := (checkBody lib.graphql checker req.declared req.body).1.1.isDenied

def Filtered.isRouted : Filtered ε → Bool
  | .routed _ => true
  | .rejected .. => false

/-- What is routed has passed every filter of the route, and would be by each of them
alone. -/
def NoneSkipped : Prop :=
  (handleInner lib route req).isRouted = true →
    (∀ gen, route.waf.bind (Waf.fromConfig lib.regexes) = some gen → wafBlocks lib req gen = false) ∧
    (∀ checker, route.graphql.bind GraphqlCheck.fromConfig = some checker → graphqlDenies lib req checker = false) ∧
    (handleInner lib { route with graphql := none } req).isRouted = true ∧
    (handleInner lib { route with waf := none } req).isRouted = true

/-- The body is inspected and let through, and its query is one the check denies. -/
def Shadowed : Prop :=
  ∃ gen checker, route.waf.bind (Waf.fromConfig lib.regexes) = some gen ∧
    route.graphql.bind GraphqlCheck.fromConfig = some checker ∧ inspectsBody req gen = true ∧ wafBlocks lib req gen = false ∧
    graphqlDenies lib req checker = true

end Handle

section Skipped
variable {ε : Type} {lib : FilterLib} {route : RouteFilters} {req : FilterRequest ε}

/-- The check routes exactly what it does not deny. -/
theorem isRouted_handleGraphql : (handleGraphql lib route req).isRouted = true ↔
    ∀ checker, route.graphql.bind GraphqlCheck.fromConfig = some checker → graphqlDenies lib req checker = false := by
  rw [handleGraphql]
  cases route.graphql.bind GraphqlCheck.fromConfig with
  | none => simp [Filtered.isRouted]
  | some checker =>
    simp only [graphqlDenies,Option.some.injEq,forall_eq']
    cases (checkBody lib.graphql checker req.declared req.body).1.1 <;>
      simp [graphqlRejected,Filtered.isRouted,GraphQLCheckResult.isDenied]

/-- The filter routes what it does not block, once it has inspected the body; otherwise
the check has the last word. -/
theorem isRouted_handleInner {gen : WafGeneration} (hgen : route.waf.bind (Waf.fromConfig lib.regexes) = some gen) :
    (handleInner lib route req).isRouted = true ↔
      wafBlocks lib req gen = false ∧ (inspectsBody req gen = true ∨ (handleGraphql lib route req).isRouted = true) := by
  have happlies : (0 < gen.maxBodyInspectBytes && shouldInspectBody req.head) = inspectsBody req gen := rfl
  simp only [handleInner,hgen,happlies,wafBlocks]
  cases gen.dryRun <;> cases (inspectHead lib.regexes gen req.head).isSome <;> cases inspectsBody req gen <;>
    cases (inspectBody lib.regexes gen req.body).1.isSome <;> simp [wafBlocked,Filtered.isRouted]

/-- No filter is skipped, in exactly the requests other than those whose body the first
filter inspects and lets through with a query the check denies. -/
theorem noneSkipped_iff_not_shadowed (lib : FilterLib) (route : RouteFilters) (req : FilterRequest ε) :
    NoneSkipped lib route req ↔ ¬ Shadowed lib route req := by
  constructor
  · rintro hnone ⟨gen,checker,hgen,hchecker,hbody,hwaf,hdenies⟩
    have hrouted := (isRouted_handleInner hgen).mpr ⟨hwaf,.inl hbody⟩
    have hallowed := (hnone hrouted).2.1 checker hchecker
    rw [hdenies] at hallowed
    cases hallowed
  · intro hshadow hrouted
    have hquery : ∀ checker, route.graphql.bind GraphqlCheck.fromConfig = some checker → graphqlDenies lib req checker = false := by
      intro checker hchecker
      cases hgen : route.waf.bind (Waf.fromConfig lib.regexes) with
      | none =>
        rw [handleInner,hgen] at hrouted
        exact isRouted_handleGraphql.mp hrouted checker hchecker
      | some gen =>
        obtain ⟨hwaf,hbody | hgraphql⟩ := (isRouted_handleInner hgen).mp hrouted
        · by_contra hdenies
          exact hshadow ⟨gen,checker,hgen,hchecker,hbody,hwaf,Bool.not_eq_false _ ▸ hdenies⟩
        · exact isRouted_handleGraphql.mp hgraphql checker hchecker
    have hwaf : ∀ gen, route.waf.bind (Waf.fromConfig lib.regexes) = some gen → wafBlocks lib req gen = false :=
      fun gen hgen => ((isRouted_handleInner hgen).mp hrouted).1
    refine ⟨hwaf,hquery,?_,?_⟩
    · have hopen : (handleGraphql lib { route with graphql := none } req).isRouted = true := rfl
      cases hgen : route.waf.bind (Waf.fromConfig lib.regexes) with
      | none =>
        rw [handleInner,hgen]
        exact hopen
      | some gen => exact (isRouted_handleInner (by exact hgen)).mpr ⟨hwaf gen hgen,.inr hopen⟩
    · exact isRouted_handleGraphql.mpr hquery

end Skipped

section Bypass

private def query : String := "\x7b user \x7b posts \x7b title \x7d \x7d \x7d"

private def body : Bytes := Snapshot.bytes ("\x7b\"query\":\"" ++ query ++ "\"\x7d")

/-- No pattern matches anything of the request below, whose body is a query. -/
private def lib : FilterLib where
  regexes := ⟨fun _ => true,fun _ _ => false⟩
  graphql := ⟨fun _ => "",fun bytes => if bytes = body then some (.object [("query",.string query)]) else none⟩

private def request : FilterRequest Empty :=
  { head := ⟨"POST","/graphql",none,[("content-type","application/json")]⟩, body := Body.full body }

private def shallow : RouteGraphql := { enabled := true, depthLimit := 2, complexityLimit := 100 }

/-- A query nested too deep is rejected, until a filter that inspects the body is set beside
the check. -/
theorem graphql_skipped_behind_waf :
    (handleInner lib { graphql := some shallow } request).isRouted = false ∧
      (handleInner lib { waf := some { enabled := true }, graphql := some shallow } request).isRouted = true := by
  decide +kernel

end Bypass

end Dwara.Dataplane.ContentFilters
