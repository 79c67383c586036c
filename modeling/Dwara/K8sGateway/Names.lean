import Dwara.K8sGateway.Meaning
import Mathlib.Data.List.Nodup
import Mathlib.Data.List.Perm.Basic
import Mathlib.Data.Nat.Notation

/-! Names joined with dashes, and when those of a translation are distinct. -/

namespace Dwara.K8sGateway
open Dwara.Lib

/-- The pieces of a name between dashes. -/
def segments (name : String) : List String := Text.split '-' name

section Segments

theorem segments_dash (a b : String) : segments (a ++ "-" ++ b) = segments a ++ segments b := Text.split_append_sep '-' a b

theorem segments_toString (n : ℕ) : segments (toString n) = [toString n] := by
  apply Text.split_eq_singleton
  intro h
  exact absurd (Text.isDigit_of_mem_toString_nat h) (by decide)

private theorem segments_between (a middle b : String) : segments (a ++ ("-" ++ middle ++ "-") ++ b) = segments a ++ (segments middle ++ segments b) := by
  have hdash : a ++ ("-" ++ middle ++ "-") ++ b = a ++ "-" ++ (middle ++ "-" ++ b) := by
    rw [String.append_assoc,String.append_assoc,String.append_assoc,String.append_assoc,String.append_assoc]
  rw [hdash,segments_dash,segments_dash]

theorem segments_rule (name : String) (i : ℕ) : segments (name ++ "-rule-" ++ toString i) = segments name ++ ["rule",toString i] := by
  have h := segments_between name "rule" (toString i)
  rw [segments_toString] at h
  exact h

theorem segments_match (name : String) (m : ℕ) : segments (name ++ "-match-" ++ toString m) = segments name ++ ["match",toString m] := by
  have h := segments_between name "match" (toString m)
  rw [segments_toString] at h
  exact h

theorem segments_upstreamName (name : String) (b : HttpBackendRef) :
    segments (upstreamName name b) = segments name ++ segments b.name ++ [toString (b.port.getD 80)] := by
  rw [upstreamName,segments_dash,segments_dash,segments_toString]

theorem segments_serviceName (name : String) (b : HttpBackendRef) :
    segments (serviceName name b) = segments name ++ ("svc" :: (segments b.name ++ [toString (b.port.getD 80)])) := by
  have hname : ∀ sep : String, name ++ sep ++ b.name ++ "-" ++ toString (b.port.getD 80) =
      name ++ sep ++ (b.name ++ "-" ++ toString (b.port.getD 80)) := by
    intro sep
    rw [← String.append_assoc,← String.append_assoc]
  have h := segments_between name "svc" (b.name ++ "-" ++ toString (b.port.getD 80))
  rw [segments_dash,segments_toString] at h
  rw [serviceName,hname "-svc-"]
  exact h

end Segments

section RouteNames

/-- What stands behind the name of the HTTPRoute. -/
def routeTail (ruleIdx : ℕ) (rule : HttpRouteRule) (matchIdx : ℕ) : List String :=
  "rule" :: toString ruleIdx :: if matchCount rule = 1 then [] else ["match",toString matchIdx]

theorem segments_routeName (route : HttpRoute) (ruleIdx : ℕ) (rule : HttpRouteRule) (matchIdx : ℕ) :
    segments (routeName route ruleIdx rule matchIdx) = segments route.metadata.name ++ routeTail ruleIdx rule matchIdx := by
  rw [routeName,routeTail]
  split
  · rw [segments_rule]
  · rw [segments_match,segments_rule,List.append_assoc]
    rfl

private theorem toString_ne_word {n : ℕ} {word : String} (h : ∃ c ∈ word.toList, c.isDigit = false) : toString n ≠ word := by
  rintro rfl
  obtain ⟨c,hc,hdigit⟩ := h
  rw [Text.isDigit_of_mem_toString_nat hc] at hdigit
  cases hdigit

/-- Two names generated for one HTTPRoute do not begin each other. -/
theorem routeTail_start {i j : ℕ} {rule rule' : HttpRouteRule} {m k : ℕ} (hrule : i = j → rule = rule') (hm : m < matchCount rule)
    (hk : k < matchCount rule') (h : routeTail i rule m <+: routeTail j rule' k) : i = j ∧ m = k := by
  rw [routeTail,routeTail,List.cons_prefix_cons,List.cons_prefix_cons] at h
  obtain ⟨-,hidx,htail⟩ := h
  have hij : i = j := Text.toString_nat_injective hidx
  obtain rfl := hrule hij
  refine ⟨hij,?_⟩
  by_cases hone : matchCount rule = 1
  · omega
  · rw [if_neg hone,if_neg hone,List.cons_prefix_cons,List.cons_prefix_cons] at htail
    exact Text.toString_nat_injective htail.2.1

/-- Nor do those of two HTTPRoutes, unless one's name goes on from the other's. -/
theorem routeTail_no_start {ns ns' : List String} {i j : ℕ} {rule rule' : HttpRouteRule} {m k : ℕ} (hne : ns ≠ ns')
    (hfree : ¬ ns ++ ["rule",toString i] <+: ns') : ¬ ns ++ routeTail i rule m <+: ns' ++ routeTail j rule' k := by
  intro h
  have hstart : ns ++ ["rule",toString i] <+: ns' ++ routeTail j rule' k := by
    refine List.IsPrefix.trans ?_ h
    rw [routeTail,List.prefix_append_right_inj]
    exact ⟨_,rfl⟩
  rcases List.prefix_or_prefix_of_prefix hstart (List.prefix_append ns' _) with hle | hle
  · exact hfree hle
  · -- what the first name has beyond the second is a start of the second's tail
    obtain ⟨more,hmore⟩ := hle
    have htail : more <+: routeTail j rule' k := by
      rw [← hmore,List.prefix_append_right_inj] at hstart
      exact hstart
    have hlast : ∀ before word, more = before ++ [word] → word = toString i := by
      rintro before word rfl
      have heq : (ns' ++ before) ++ [word] = (ns ++ ["rule"]) ++ [toString i] := by simpa using hmore
      exact List.singleton_inj.mp (List.append_inj' heq rfl).2
    have htwo : ∀ before first second, more = before ++ [first,second] → ns' ++ before = ns ∧ first = "rule" := by
      rintro before first second rfl
      have heq : (ns' ++ before) ++ [first,second] = ns ++ ["rule",toString i] := by simpa using hmore
      obtain ⟨hbefore,hwords⟩ := List.append_inj' heq rfl
      exact ⟨hbefore,(List.cons.inj hwords).1⟩
    have hword : ∀ word, (∃ c ∈ word.toList, c.isDigit = false) → word ≠ toString i := fun word h he => toString_ne_word h he.symm
    have htail' : more <+: ["rule",toString j,"match",toString k] := by
      refine htail.trans ?_
      rw [routeTail]
      split
      · exact ⟨["match",toString k],rfl⟩
      · exact List.prefix_rfl
    match more, htail' with
    | [], _ =>
      rw [List.append_nil] at hmore
      exact hfree (hmore ▸ List.prefix_rfl)
    | [a], htail' =>
      obtain rfl : a = "rule" := (List.cons_prefix_cons.mp htail').1
      exact hword "rule" ⟨'r',by decide,by decide⟩ (hlast [] _ rfl)
    | [a,b], htail' =>
      exact hne (by simpa using (htwo [] a b rfl).1.symm)
    | [a,b,c], htail' =>
      have hc : c = "match" := by
        simp only [List.cons_prefix_cons] at htail'
        exact htail'.2.2.1
      exact hword "match" ⟨'m',by decide,by decide⟩ (hc ▸ hlast [a,b] c rfl)
    | [a,b,c,d], htail' =>
      have hc : c = "match" := by
        simp only [List.cons_prefix_cons] at htail'
        exact htail'.2.2.1
      have hrule : c = "rule" := (htwo [a,b] c d rfl).2
      exact absurd (hc.symm.trans hrule) (by decide)
    | a :: b :: c :: d :: e :: more, htail' =>
      have hlen := htail'.length_le
      simp only [List.length_cons,List.length_nil] at hlen
      omega

end RouteNames

/-- Neither name goes on from the other. -/
def Apart (a b : String) : Prop := ¬ segments a <+: segments b ∧ ¬ segments b <+: segments a

/-- The HTTPRoutes have different names, and none of these goes on from a rule of another. -/
structure NamesApart (attached : List HttpRoute) : Prop where
  nodup : (attached.map fun r => r.metadata.name).Nodup
  free : ∀ r ∈ attached, ∀ s ∈ attached, ∀ i < r.rules.length,
    ¬ segments (r.metadata.name ++ "-rule-" ++ toString i) <+: segments s.metadata.name

section Generated
variable {Endpoint : Type} (endpoints : String → Option (List Endpoint))

theorem segments_injective : Function.Injective segments := by
  intro a b h
  have hchars : a.toList.splitOn '-' = b.toList.splitOn '-' := by
    apply List.map_injective_iff.mpr _ h
    intro x y hxy
    exact String.ofList_injective hxy
  apply String.toList_injective
  have hjoined : List.intercalate ['-'] (a.toList.splitOn '-') = a.toList := List.intercalate_splitOn '-'
  rw [← hjoined,hchars,List.intercalate_splitOn]

theorem translateRule_apart (route : HttpRoute) (ruleIdx : ℕ) (rule : HttpRouteRule) :
    (translateRule endpoints route ruleIdx rule).Pairwise fun g h => Apart g.route.name h.route.name := by
  rw [translateRule,List.pairwise_map]
  refine List.Pairwise.imp_of_mem ?_ List.nodup_range
  intro m k hm hk hne
  rw [List.mem_range] at hm hk
  have hapart : ∀ m k, m < matchCount rule → k < matchCount rule → m ≠ k →
      ¬ segments (routeName route ruleIdx rule m) <+: segments (routeName route ruleIdx rule k) := by
    intro m k hm hk hne hpre
    rw [segments_routeName,segments_routeName,List.prefix_append_right_inj] at hpre
    exact hne (routeTail_start (fun _ => rfl) hm hk hpre).2
  exact ⟨hapart m k hm hk hne,hapart k m hk hm hne.symm⟩

/-- What is generated for an HTTPRoute comes from a match of one of its rules. -/
theorem mem_translateRoute {route : HttpRoute} {g : Generated Endpoint} (hg : g ∈ translateRoute endpoints route) :
    ∃ ruleIdx rule matchIdx, route.rules[ruleIdx]? = some rule ∧ matchIdx < matchCount rule ∧
      g = translateRuleMatch endpoints route ruleIdx rule matchIdx := by
  obtain ⟨⟨rule,ruleIdx⟩,hrule,hg⟩ := List.mem_flatMap.mp hg
  obtain ⟨matchIdx,hmatch,rfl⟩ := List.mem_map.mp hg
  exact ⟨ruleIdx,rule,matchIdx,List.mem_zipIdx_iff_getElem?.mp hrule,List.mem_range.mp hmatch,rfl⟩

theorem translateRoute_apart (route : HttpRoute) :
    (translateRoute endpoints route).Pairwise fun g h => Apart g.route.name h.route.name := by
  have hidx : route.rules.zipIdx.Pairwise fun a b => a.2 ≠ b.2 := by
    have hnodup : (route.rules.zipIdx.map Prod.snd).Nodup := by
      rw [List.zipIdx_map_snd]
      exact List.nodup_range'
    exact List.pairwise_map.mp hnodup
  rw [translateRoute,List.pairwise_flatMap]
  refine ⟨fun a _ => translateRule_apart endpoints route a.2 a.1,hidx.imp ?_⟩
  rintro ⟨rule,i⟩ ⟨rule',j⟩ hne g hg h hh
  obtain ⟨m,hm,rfl⟩ := List.mem_map.mp hg
  obtain ⟨k,hk,rfl⟩ := List.mem_map.mp hh
  rw [List.mem_range] at hm hk
  constructor
  · intro hpre
    rw [name_translateRuleMatch,name_translateRuleMatch,segments_routeName,segments_routeName,List.prefix_append_right_inj] at hpre
    exact hne (routeTail_start (fun he => absurd he hne) hm hk hpre).1
  · intro hpre
    rw [name_translateRuleMatch,name_translateRuleMatch,segments_routeName,segments_routeName,List.prefix_append_right_inj] at hpre
    exact hne.symm (routeTail_start (fun he => absurd he.symm hne) hk hm hpre).1

variable {gateway : Gateway} {routes : List HttpRoute}

theorem generated_apart (h : NamesApart (attached gateway routes)) :
    (generated endpoints gateway routes).Pairwise fun g h => Apart g.route.name h.route.name := by
  have hstarts : ∀ r ∈ attached gateway routes, ∀ s ∈ attached gateway routes, r.metadata.name ≠ s.metadata.name →
      ∀ g ∈ translateRoute endpoints r, ∀ g' ∈ translateRoute endpoints s, ¬ segments g.route.name <+: segments g'.route.name := by
    intro r hr s hs hne g hg g' hg'
    obtain ⟨i,rule,m,hi,-,rfl⟩ := mem_translateRoute endpoints hg
    obtain ⟨j,rule',k,-,-,rfl⟩ := mem_translateRoute endpoints hg'
    rw [name_translateRuleMatch,name_translateRuleMatch,segments_routeName,segments_routeName]
    apply routeTail_no_start (fun he => hne (segments_injective he))
    rw [← segments_rule]
    exact h.free r hr s hs i (List.getElem?_eq_some_iff.mp hi).1
  rw [generated,List.pairwise_flatMap]
  refine ⟨fun r _ => translateRoute_apart endpoints r,List.Pairwise.imp_of_mem ?_ (List.pairwise_map.mp h.nodup)⟩
  intro r s hr hs hne g hg g' hg'
  exact ⟨hstarts r hr s hs hne g hg g' hg',hstarts s hs r hr (Ne.symm hne) g' hg' g hg⟩

/-- The names one match of a rule generates. -/
def Generated.names (g : Generated Endpoint) : List String :=
  [g.route.name] ++ (g.service.toList.map Service.name ++ g.upstream.toList.map Upstream.name)

theorem translateBackends_names (route : HttpRoute) (name : String) (filters : FilterState) (backendRefs : List HttpBackendRef) :
    let r := translateBackends endpoints route name filters backendRefs
    r.2.1 = none ∧ r.2.2.1 = none ∨
      ∃ b, r.2.1.map Service.name = some (serviceName name b) ∧ r.2.2.1.map Upstream.name = some (upstreamName name b) := by
  simp only [translateBackends]
  cases filters.action with
  | some action => exact .inl ⟨rfl,rfl⟩
  | none =>
    cases backendRefs with
    | nil => exact .inl ⟨rfl,rfl⟩
    | cons b bs => exact .inr ⟨b,rfl,rfl⟩

theorem names_translateRuleMatch (route : HttpRoute) (ruleIdx : ℕ) (rule : HttpRouteRule) (matchIdx : ℕ) :
    let name := routeName route ruleIdx rule matchIdx
    (translateRuleMatch endpoints route ruleIdx rule matchIdx).names = [name] ∨
      ∃ b, (translateRuleMatch endpoints route ruleIdx rule matchIdx).names = [name,serviceName name b,upstreamName name b] := by
  rcases translateBackends_names endpoints route (routeName route ruleIdx rule matchIdx) (filterState rule.filters) rule.backendRefs with
    ⟨hservice,hupstream⟩ | ⟨b,hservice,hupstream⟩
  · left
    simp only [Generated.names,translateRuleMatch,hservice,hupstream,Option.toList_none,List.map_nil,List.append_nil]
  · right
    obtain ⟨service,hservice,hsname⟩ := Option.map_eq_some_iff.mp hservice
    obtain ⟨upstream,hupstream,huname⟩ := Option.map_eq_some_iff.mp hupstream
    refine ⟨b,?_⟩
    simp only [Generated.names,translateRuleMatch,hservice,hupstream,Option.toList_some,List.map_cons,List.map_nil,hsname,huname,
      List.cons_append,List.nil_append]

theorem segments_prefix_of_mem_names {g : Generated Endpoint} (hg : g ∈ generated endpoints gateway routes) {x : String} (hx : x ∈ g.names) :
    segments g.route.name <+: segments x := by
  obtain ⟨route,-,hg⟩ := List.mem_flatMap.mp hg
  obtain ⟨i,rule,m,-,-,rfl⟩ := mem_translateRoute endpoints hg
  rw [name_translateRuleMatch]
  rcases names_translateRuleMatch endpoints route i rule m with h | ⟨b,h⟩
  · rw [h,List.mem_singleton] at hx
    exact hx ▸ List.prefix_rfl
  · rw [h,List.mem_cons,List.mem_cons,List.mem_singleton] at hx
    rcases hx with rfl | rfl | rfl
    · exact List.prefix_rfl
    · rw [segments_serviceName]
      exact List.prefix_append _ _
    · rw [segments_upstreamName,List.append_assoc]
      exact List.prefix_append _ _

theorem names_nodup {g : Generated Endpoint} (hg : g ∈ generated endpoints gateway routes) : g.names.Nodup := by
  obtain ⟨route,-,hg⟩ := List.mem_flatMap.mp hg
  obtain ⟨i,rule,m,-,-,rfl⟩ := mem_translateRoute endpoints hg
  rcases names_translateRuleMatch endpoints route i rule m with h | ⟨b,h⟩
  · rw [h]
    exact List.nodup_singleton _
  · have hlen : ∀ x y : String, x = y → (segments x).length = (segments y).length := fun x y he => by rw [he]
    have hroute : routeName route i rule m ≠ serviceName (routeName route i rule m) b := by
      intro he
      have hbad := hlen _ _ he
      rw [segments_serviceName] at hbad
      simp at hbad
    have hroute' : routeName route i rule m ≠ upstreamName (routeName route i rule m) b := by
      intro he
      have hbad := hlen _ _ he
      rw [segments_upstreamName] at hbad
      simp at hbad
    have hservice : serviceName (routeName route i rule m) b ≠ upstreamName (routeName route i rule m) b := by
      intro he
      have hbad := hlen _ _ he
      rw [segments_serviceName,segments_upstreamName] at hbad
      simp at hbad
    rw [h]
    simp [hroute,hroute',hservice]

/-- The generated names are distinct, of all kinds together. -/
theorem translate_names_nodup (h : NamesApart (attached gateway routes)) :
    ((translate endpoints gateway routes).routes.map Route.name ++ ((translate endpoints gateway routes).services.map Service.name ++
      (translate endpoints gateway routes).upstreams.map Upstream.name)).Nodup := by
  have hall : ((generated endpoints gateway routes).flatMap Generated.names).Nodup := by
    rw [List.nodup_flatMap]
    refine ⟨fun g hg => names_nodup endpoints hg,List.Pairwise.imp_of_mem ?_ (generated_apart endpoints h)⟩
    intro g g' hg hg' ⟨hapart,hapart'⟩
    show List.Disjoint (Generated.names g) (Generated.names g')
    rw [List.disjoint_left]
    intro x hx hx'
    rcases List.prefix_or_prefix_of_prefix (segments_prefix_of_mem_names endpoints hg hx) (segments_prefix_of_mem_names endpoints hg' hx') with hle | hle
    · exact hapart hle
    · exact hapart' hle
  have hroutes : (translate endpoints gateway routes).routes.map Route.name =
      (generated endpoints gateway routes).flatMap fun g => [g.route.name] := by
    rw [translate,List.map_map,List.map_eq_flatMap]
    rfl
  have hservices : (translate endpoints gateway routes).services.map Service.name =
      (generated endpoints gateway routes).flatMap fun g => g.service.toList.map Service.name := by
    change ((generated endpoints gateway routes).filterMap Generated.service).map Service.name = _
    rw [List.filterMap_eq_flatMap_toList,List.map_flatMap]
  have hupstreams : (translate endpoints gateway routes).upstreams.map Upstream.name =
      (generated endpoints gateway routes).flatMap fun g => g.upstream.toList.map Upstream.name := by
    change ((generated endpoints gateway routes).filterMap Generated.upstream).map Upstream.name = _
    rw [List.filterMap_eq_flatMap_toList,List.map_flatMap]
  rw [hroutes,hservices,hupstreams]
  refine (List.Perm.nodup_iff ?_).mpr hall
  refine (List.Perm.append_left _ (List.flatMap_append_perm _ _ _)).trans ?_
  exact List.flatMap_append_perm _ _ _

end Generated
end Dwara.K8sGateway
