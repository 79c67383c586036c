import Dwara.K8sGateway.Names

/-! What a translation keeps of the HTTPRoutes it attaches. -/

namespace Dwara.K8sGateway
open Dwara.Config Dwara.Lib

/-- A parent reference names the Gateway; its namespace defaults to that of the route. -/
def NamedBy (gateway : Gateway) (route : HttpRoute) : Prop :=
  ∃ p ∈ route.parentRefs, p.kind = "Gateway" ∧ p.name = gateway.metadata.name ∧
    (p.ns.or route.metadata.ns).getD "default" = gateway.metadata.ns.getD "default"

/-- A reference without a namespace is of a route in the default one. -/
def DefaultsAgree (route : HttpRoute) : Prop := ∀ p ∈ route.parentRefs, p.ns = none → route.metadata.ns.getD "default" = "default"

theorem mem_attached_iff {gateway : Gateway} {routes : List HttpRoute} {route : HttpRoute} (hroute : route ∈ routes) (h : DefaultsAgree route) :
    route ∈ attached gateway routes ↔ route.parentRefs = [] ∨ NamedBy gateway route := by
  have hns : ∀ p ∈ route.parentRefs, (p.ns.or route.metadata.ns).getD "default" = p.ns.getD "default" := by
    intro p hp
    cases hp' : p.ns with
    | some ns => rfl
    | none => exact h p hp hp'
  rw [attached,List.mem_filter,routeAttachesTo,decide_eq_true_iff]
  simp only [hroute,true_and,List.any_eq_true,decide_eq_true_iff]
  apply or_congr_right
  constructor
  · rintro ⟨p,hp,hname,hkind,hnamespace⟩
    exact ⟨p,hp,hkind,hname,(hns p hp).trans hnamespace⟩
  · rintro ⟨p,hp,hkind,hname,hnamespace⟩
    exact ⟨p,hp,hname,hkind,(hns p hp).symm.trans hnamespace⟩

section Fidelity
variable {Endpoint : Type} (endpoints : String → Option (List Endpoint)) (gateway : Gateway) (routes : List HttpRoute)

/-- The configuration keeps a part of an HTTPRoute, or a warning names it. -/
def KeptIn (res : TranslationResult Endpoint) (route : HttpRoute) (g : Route) (part : Part) : Prop :=
  Represented endpoints res.services res.upstreams route g part ∨ ∃ warning ∈ res.warnings, Names route warning part

theorem mem_generated {route : HttpRoute} (hroute : route ∈ attached gateway routes) {ruleIdx : ℕ} {rule : HttpRouteRule}
    (hrule : route.rules[ruleIdx]? = some rule) {matchIdx : ℕ} (hmatch : matchIdx < matchCount rule) :
    translateRuleMatch endpoints route ruleIdx rule matchIdx ∈ generated endpoints gateway routes := by
  refine List.mem_flatMap.mpr ⟨route,hroute,List.mem_flatMap.mpr ⟨(rule,ruleIdx),List.mem_zipIdx_iff_getElem?.mpr hrule,?_⟩⟩
  exact List.mem_map.mpr ⟨matchIdx,List.mem_range.mpr hmatch,rfl⟩

theorem keptIn_of_kept {route : HttpRoute} {g : Generated Endpoint} (hg : g ∈ generated endpoints gateway routes) {part : Part}
    (h : Kept endpoints (translate endpoints gateway routes).services (translate endpoints gateway routes).upstreams route g part) :
    KeptIn endpoints (translate endpoints gateway routes) route g.route part := by
  rcases h with h | ⟨warning,hwarning,hnames⟩
  · exact .inl h
  · exact .inr ⟨warning,List.mem_append_right _ (List.mem_flatMap.mpr ⟨g,hg,hwarning⟩),hnames⟩

end Fidelity

section Samples

def sampleGateway : Gateway := ⟨⟨"gw",some "infra"⟩,[]⟩

def webBackend : HttpBackendRef := ⟨"Service","web",none,some 80,1⟩
def canaryBackend : HttpBackendRef := ⟨"Service","canary",none,some 80,1⟩

def sampleEndpoints (key : String) : Option (List String) :=
  if key = "infra/web:80" then some ["10.0.0.1"] else if key = "infra/canary:80" then some ["10.0.0.2"] else none

def sampleRule (backendRefs : List HttpBackendRef) : HttpRouteRule :=
  ⟨[⟨some ⟨"PathPrefix","/shop"⟩,[⟨"Exact","x-tenant","a"⟩,⟨"RegularExpression","x-user",".*"⟩],[]⟩],[],backendRefs⟩

def sampleRoute (parentRefs : List ParentReference) (backendRefs : List HttpBackendRef) : HttpRoute :=
  ⟨⟨"shop",some "infra"⟩,parentRefs,["shop.test"],[sampleRule backendRefs]⟩

end Samples

private theorem namesApart_singleton (route : HttpRoute) : NamesApart [route] := by
  refine ⟨List.nodup_singleton _,?_⟩
  intro r hr s hs i _ hpre
  rw [List.mem_singleton.mp hr,List.mem_singleton.mp hs,segments_rule] at hpre
  have hlen := hpre.length_le
  simp at hlen

end Dwara.K8sGateway
