import Dwara.K8sGateway.Representation

/-! Which parts of an HTTPRoute the translation does not do justice to; every other part is
represented or warned of. -/

namespace Dwara.K8sGateway
open Dwara.Config Dwara.Lib

section LeftOut

def IsWildcard (hostname : String) : Prop := hostname.toList.head? = some '*'

/-- The path a rule matches. -/
def matchedPath (rule : HttpRouteRule) (matchIdx : ℕ) : PathMatch := translatePath (rule.routeMatches[matchIdx]?.bind HttpRouteMatch.path)

/-- The rewrites of a path that start with its first slash. -/
def RewriteKept (matched : PathMatch) : UrlRewritePath → Prop
  | .replaceFullPath _ => matched = ⟨.exact,"/"⟩
  | .replacePrefixMatch replacement => matched = ⟨.prefixed,"/"⟩ ∧ replacement = Snapshot.trimEndSlashes replacement ++ "/"

/-- Parts that may get lost: hostnames after the first and wildcards, paths of an unknown
type, what is said twice, backends after the first or that are no service with a port,
the port of a redirect, a hostname to rewrite next to a path, and most paths to rewrite. -/
def LeftOut (route : HttpRoute) (rule : HttpRouteRule) (matchIdx : ℕ) : Part → Prop
  | .hostname h => route.hostnames.head? ≠ some h ∨ IsWildcard h
  | .path p => p.matchType ∉ ["Exact","PathPrefix","","RegularExpression"]
  | .header h => IsExact h.matchType ∧ ∃ m ∈ rule.routeMatches[matchIdx]?, ∃ h' ∈ m.headers,
      IsExact h'.matchType ∧ Text.eqIgnoreAsciiCase h'.name h.name ∧ h'.value ≠ h.value
  | .queryParam q => IsExact q.matchType ∧ ∃ m ∈ rule.routeMatches[matchIdx]?, ∃ q' ∈ m.queryParams,
      IsExact q'.matchType ∧ q'.name = q.name ∧ q'.value ≠ q.value
  | .backend b => redirects rule.filters = [] ∧ (rule.backendRefs.head? ≠ some b ∨ b.kind ≠ "Service" ∨ b.port = none)
  | .redirect scheme hostname path statusCode => ∃ action ∈ redirects rule.filters, action ≠ .redirect scheme hostname path statusCode
  | .redirectPort _ => True
  | .setHeader dir h => ∃ h' ∈ setHeaders dir rule.filters, h'.name = h.name ∧ h'.value ≠ h.value
  | .addHeader dir h => ∃ h' ∈ addHeaders dir rule.filters, h'.name = h.name ∧ h'.value ≠ h.value
  | .removeHeader _ _ => False
  | .rewriteHostname _ path => path ≠ none
  | .rewritePath p => redirects rule.filters = [] ∧ rule.backendRefs ≠ [] ∧
      ((∃ p' ∈ rewritePaths rule.filters, p' ≠ p) ∨ ¬ RewriteKept (matchedPath rule matchIdx) p)
  | .extension _ _ => False

end LeftOut

section OneMatch
variable {Endpoint : Type} (endpoints : String → Option (List Endpoint)) (route : HttpRoute) (ruleIdx : ℕ) (rule : HttpRouteRule) (matchIdx : ℕ)

theorem name_translateRuleMatch :
    (translateRuleMatch endpoints route ruleIdx rule matchIdx).route.name = routeName route ruleIdx rule matchIdx := rfl

theorem routeMatch_translateRuleMatch :
    (translateRuleMatch endpoints route ruleIdx rule matchIdx).route.routeMatch =
      (translateMatch rule.routeMatches[matchIdx]? route.hostnames.head?).1 := rfl

theorem transforms_translateRuleMatch :
    (translateRuleMatch endpoints route ruleIdx rule matchIdx).route.transforms = (filterState rule.filters).transforms := rfl

theorem warnings_translateRuleMatch {warning : String}
    (h : warning ∈ (translateMatch rule.routeMatches[matchIdx]? route.hostnames.head?).2 ∨ warning ∈ (filterState rule.filters).warnings) :
    warning ∈ (translateRuleMatch endpoints route ruleIdx rule matchIdx).warnings :=
  List.mem_append_left _ (List.mem_append.mpr h)

variable {rule}

theorem action_translateRuleMatch {action : RouteAction} (h : (filterState rule.filters).action = some action) :
    (translateRuleMatch endpoints route ruleIdx rule matchIdx).route.action = action := by
  rw [translateRuleMatch]
  simp only [translateBackends,h]

theorem translateRuleMatch_backend {b : HttpBackendRef} (h : (filterState rule.filters).action = none) (hb : rule.backendRefs.head? = some b) :
    let name := routeName route ruleIdx rule matchIdx
    let g := translateRuleMatch endpoints route ruleIdx rule matchIdx
    g.route.action = .proxy (filterState rule.filters).rewrite ∧ g.route.service = serviceName name b ∧
      g.service = some ⟨serviceName name b,some (upstreamName name b)⟩ ∧
      ((∃ eps, endpoints (backendKey route b) = some eps ∧ g.upstream = some ⟨upstreamName name b,eps⟩) ∨
        ("no endpoints found for backend " ++ backendKey route b ++ " (route " ++ name ++ ")") ∈ g.warnings) := by
  obtain ⟨bs,hbs⟩ := List.head?_eq_some_iff.mp hb
  simp only [translateRuleMatch,translateBackends,h,hbs,backendEndpoints]
  cases endpoints (backendKey route b) with
  | some eps => exact ⟨trivial,rfl,trivial,.inl ⟨eps,rfl,rfl⟩⟩
  | none => exact ⟨trivial,rfl,trivial,.inr (List.mem_append_right _ (List.mem_singleton.mpr rfl))⟩

theorem translateRuleMatch_rewrite {p : UrlRewritePath} (h : (filterState rule.filters).action = none) (hb : rule.backendRefs ≠ [])
    (hp : p ∈ rewritePaths rule.filters) (hsame : ∀ p' ∈ rewritePaths rule.filters, p' = p) :
    (translateRuleMatch endpoints route ruleIdx rule matchIdx).route.action = .proxy (some (rewriteOf p)) := by
  obtain ⟨b,bs,hbs⟩ := List.exists_cons_of_ne_nil hb
  have hlast : (rewritePaths rule.filters).getLast? = some p := by
    obtain ⟨last,hlast⟩ := Option.isSome_iff_exists.mp (List.getLast?_isSome.mpr (List.ne_nil_of_mem hp))
    rw [hlast,hsame last (List.mem_of_getLast? hlast)]
  have hrewrite := rewrite_filterState h
  rw [hlast,Option.map_some] at hrewrite
  simp only [translateRuleMatch,translateBackends,h,hbs,hrewrite]

theorem headerOps_transforms (s : FilterState) (g : Route) (hg : g.transforms = s.transforms) (dir : Direction) :
    headerOps g dir = (s.headers dir).getD ⟨[],[],[],[]⟩ := by
  rw [headerOps,hg,FilterState.transforms]
  cases hreq : s.reqHeaders with
  | some req =>
    cases hresp : s.respHeaders with
    | some resp => cases dir with
      | request => simp [FilterState.headers,hreq]
      | response => simp [FilterState.headers,hresp]
    | none => cases dir with
      | request => simp [FilterState.headers,hreq]
      | response => simp [FilterState.headers,hresp]
  | none =>
    cases hresp : s.respHeaders with
    | some resp => cases dir with
      | request => simp [FilterState.headers,hreq]
      | response => simp [FilterState.headers,hresp]
    | none => cases dir with
      | request => simp [FilterState.headers,hreq]
      | response => simp [FilterState.headers,hresp]

theorem headerOps_translateRuleMatch (dir : Direction) :
    headerOps (translateRuleMatch endpoints route ruleIdx rule matchIdx).route dir =
      ⟨putAll HttpHeaderFilter.name HttpHeaderFilter.value (setHeaders dir rule.filters) [],
        putAll HttpHeaderFilter.name HttpHeaderFilter.value (addHeaders dir rule.filters) [],removeHeaders dir rule.filters,[]⟩ := by
  rw [headerOps_transforms _ _ (transforms_translateRuleMatch endpoints route ruleIdx rule matchIdx) dir,headers_filterState]

end OneMatch

section Kept
variable {Endpoint : Type} {endpoints : String → Option (List Endpoint)} {services : List Service} {upstreams : List (Upstream Endpoint)}
  {route : HttpRoute} {ruleIdx : ℕ} {rule : HttpRouteRule} {matchIdx : ℕ}

/-- A part is represented, or a warning names it. -/
def Kept (endpoints : String → Option (List Endpoint)) (services : List Service) (upstreams : List (Upstream Endpoint)) (route : HttpRoute)
    (g : Generated Endpoint) (part : Part) : Prop :=
  Represented endpoints services upstreams route g.route part ∨ ∃ warning ∈ g.warnings, Names route warning part

theorem hostname_kept {h : String} (hleft : ¬ LeftOut route rule matchIdx (.hostname h)) :
    Kept endpoints services upstreams route (translateRuleMatch endpoints route ruleIdx rule matchIdx) (.hostname h) := by
  rw [LeftOut,not_or,not_not] at hleft
  left
  rw [Represented,routeMatch_translateRuleMatch]
  cases rule.routeMatches[matchIdx]? with
  | none => exact hleft.1
  | some m => exact hleft.1

section InMatch
variable {m : HttpRouteMatch} (hm : rule.routeMatches[matchIdx]? = some m)
include hm

theorem path_kept {p : HttpPathMatch} (hp : m.path = some p) (hleft : ¬ LeftOut route rule matchIdx (.path p)) :
    Kept endpoints services upstreams route (translateRuleMatch endpoints route ruleIdx rule matchIdx) (.path p) := by
  rw [LeftOut,not_not] at hleft
  left
  rw [Represented,routeMatch_translateRuleMatch,hm,translateMatch]
  simp only [hp,translatePath,and_true]
  simp only [List.mem_cons,List.not_mem_nil,or_false] at hleft
  rw [Kind,pathMatchKind]
  rcases hleft with h | h | h | h
  · simp [h]
  · simp [h]
  · simp [h]
  · simp [h]

theorem header_kept {h : HttpHeaderMatch} (hh : h ∈ m.headers) (hleft : ¬ LeftOut route rule matchIdx (.header h)) :
    Kept endpoints services upstreams route (translateRuleMatch endpoints route ruleIdx rule matchIdx) (.header h) := by
  by_cases hexact : IsExact h.matchType
  · left
    rw [Represented,routeMatch_translateRuleMatch,hm,translateMatch]
    refine ⟨hexact,lookup_headerMap hh hexact fun h' hh' hexact' hname => ?_⟩
    by_contra hvalue
    have hcase : Text.eqIgnoreAsciiCase h'.name h.name = true := by simp [Text.eqIgnoreAsciiCase,hname]
    exact hleft ⟨hexact,m,hm,h',hh',hexact',hcase,hvalue⟩
  · right
    obtain ⟨warning,hwarning,hnames⟩ := headerWarning_names hexact
    refine ⟨warning,warnings_translateRuleMatch _ _ _ _ _ (.inl ?_),hnames⟩
    rw [hm,translateMatch]
    exact List.mem_append_left _ (List.mem_filterMap.mpr ⟨h,hh,hwarning⟩)

theorem queryParam_kept {q : HttpQueryParamMatch} (hq : q ∈ m.queryParams) :
    Kept endpoints services upstreams route (translateRuleMatch endpoints route ruleIdx rule matchIdx) (.queryParam q) := by
  by_cases hexact : IsExact q.matchType
  · left
    rw [Represented,routeMatch_translateRuleMatch,hm,translateMatch]
    exact ⟨hexact,mem_queryMatches hq hexact⟩
  · right
    obtain ⟨warning,hwarning,hnames⟩ := queryWarning_names hexact
    refine ⟨warning,warnings_translateRuleMatch _ _ _ _ _ (.inl ?_),hnames⟩
    rw [hm,translateMatch]
    exact List.mem_append_right _ (List.mem_filterMap.mpr ⟨q,hq,hwarning⟩)

end InMatch

theorem redirect_kept {scheme hostname path : Option String} {port : Option ℕ} {statusCode : ℕ}
    (h : .requestRedirect scheme hostname path port statusCode ∈ rule.filters)
    (hleft : ¬ LeftOut route rule matchIdx (.redirect scheme hostname path statusCode)) :
    Kept endpoints services upstreams route (translateRuleMatch endpoints route ruleIdx rule matchIdx)
      (.redirect scheme hostname path statusCode) := by
  have hmem : .redirect scheme hostname path statusCode ∈ redirects rule.filters := List.mem_filterMap.mpr ⟨_,h,rfl⟩
  obtain ⟨last,hlast⟩ := Option.isSome_iff_exists.mp (List.getLast?_isSome.mpr (List.ne_nil_of_mem hmem))
  have hsame : last = .redirect scheme hostname path statusCode := by
    by_contra hne
    exact hleft ⟨last,List.mem_of_getLast? hlast,hne⟩
  left
  rw [Represented,action_translateRuleMatch _ _ _ _ (by rw [action_filterState,hlast,hsame])]

/-- The action is a redirect, or there is none. -/
theorem redirects_or_none (endpoints : String → Option (List Endpoint)) (route : HttpRoute) (ruleIdx : ℕ) (rule : HttpRouteRule) (matchIdx : ℕ) :
    Redirects (translateRuleMatch endpoints route ruleIdx rule matchIdx).route ∨
      (filterState rule.filters).action = none ∧ redirects rule.filters = [] := by
  cases hlast : (redirects rule.filters).getLast? with
  | none => exact .inr ⟨by rw [action_filterState,hlast],List.getLast?_eq_none_iff.mp hlast⟩
  | some last =>
    obtain ⟨f,-,hf⟩ := List.mem_filterMap.mp (List.mem_of_getLast? hlast)
    left
    rw [Redirects,action_translateRuleMatch _ _ _ _ (by rw [action_filterState,hlast])]
    cases f with
    | requestRedirect scheme hostname path port statusCode => exact ⟨_,_,_,_,(Option.some.inj hf).symm⟩
    | requestHeaderModifier => cases hf
    | responseHeaderModifier => cases hf
    | urlRewrite => cases hf
    | extensionRef => cases hf

theorem Redirects.not_proxies {g : Route} (h : Redirects g) : ¬ Proxies g := by
  rintro ⟨rewrite,hproxy⟩
  obtain ⟨scheme,host,path,status,hredirect⟩ := h
  rw [hredirect] at hproxy
  cases hproxy

theorem backend_kept {b : HttpBackendRef} (hleft : ¬ LeftOut route rule matchIdx (.backend b))
    (hservices : ∀ s ∈ (translateRuleMatch endpoints route ruleIdx rule matchIdx).service, s ∈ services)
    (hupstreams : ∀ u ∈ (translateRuleMatch endpoints route ruleIdx rule matchIdx).upstream, u ∈ upstreams) :
    Kept endpoints services upstreams route (translateRuleMatch endpoints route ruleIdx rule matchIdx) (.backend b) := by
  rcases redirects_or_none endpoints route ruleIdx rule matchIdx with hredirects | ⟨hnone,hnil⟩
  · exact .inl (.inl hredirects)
  · have hhead : rule.backendRefs.head? = some b := by
      by_contra hne
      exact hleft ⟨hnil,.inl hne⟩
    obtain ⟨haction,hservice,hsome,hupstream⟩ := translateRuleMatch_backend endpoints route ruleIdx matchIdx hnone hhead
    rcases hupstream with ⟨eps,heps,hup⟩ | hwarned
    · refine .inl (.inr ⟨eps,heps,⟨_,haction⟩,_,hservices _ hsome,hservice.symm,_,hupstreams _ hup,rfl,rfl⟩)
    · exact .inr ⟨_,hwarned,"no endpoints found for backend "," (route " ++ routeName route ruleIdx rule matchIdx ++ ")",by
        simp [String.append_assoc]⟩

theorem setHeader_kept {dir : Direction} {h : HttpHeaderFilter} (hh : h ∈ setHeaders dir rule.filters)
    (hleft : ¬ LeftOut route rule matchIdx (.setHeader dir h)) :
    Kept endpoints services upstreams route (translateRuleMatch endpoints route ruleIdx rule matchIdx) (.setHeader dir h) := by
  left
  rw [Represented,headerOps_translateRuleMatch]
  apply lookup_putAll HttpHeaderFilter.name HttpHeaderFilter.value hh
  intro h' hh' hname
  by_contra hvalue
  exact hleft ⟨h',hh',hname,hvalue⟩

theorem addHeader_kept {dir : Direction} {h : HttpHeaderFilter} (hh : h ∈ addHeaders dir rule.filters)
    (hleft : ¬ LeftOut route rule matchIdx (.addHeader dir h)) :
    Kept endpoints services upstreams route (translateRuleMatch endpoints route ruleIdx rule matchIdx) (.addHeader dir h) := by
  left
  rw [Represented,headerOps_translateRuleMatch]
  apply lookup_putAll HttpHeaderFilter.name HttpHeaderFilter.value hh
  intro h' hh' hname
  by_contra hvalue
  exact hleft ⟨h',hh',hname,hvalue⟩

theorem removeHeader_kept {dir : Direction} {name : String} (h : name ∈ removeHeaders dir rule.filters) :
    Kept endpoints services upstreams route (translateRuleMatch endpoints route ruleIdx rule matchIdx) (.removeHeader dir name) := by
  left
  rw [Represented,headerOps_translateRuleMatch]
  exact h

theorem rewriteHostname_kept {hostname : String} (h : .urlRewrite (some hostname) none ∈ rule.filters) :
    Kept endpoints services upstreams route (translateRuleMatch endpoints route ruleIdx rule matchIdx) (.rewriteHostname hostname none) := by
  rcases hostname_warned h with hwarned | haction
  · exact .inr ⟨_,warnings_translateRuleMatch _ _ _ _ _ (.inr hwarned),"",
      " filter is not natively supported on the upstream path; hostname rewrite dropped",by decide⟩
  · rcases redirects_or_none endpoints route ruleIdx rule matchIdx with hredirects | ⟨hnone,-⟩
    · exact .inl hredirects.not_proxies
    · exact absurd hnone haction

theorem extension_kept {group kind : String} {name : Option String} (h : .extensionRef group kind name ∈ rule.filters) :
    Kept endpoints services upstreams route (translateRuleMatch endpoints route ruleIdx rule matchIdx) (.extension group kind) := by
  refine .inr ⟨_,warnings_translateRuleMatch _ _ _ _ _ (.inr (extension_warned h)),"extension filter "," is not supported; filter dropped",?_⟩
  simp [String.append_assoc]

private theorem afterStart_slash {path : String} (h : path.toList.head? = some '/') :
    ∃ rest, path = "/" ++ rest ∧ Text.afterStart "/" path = some rest := by
  obtain ⟨cs,hcs⟩ := List.head?_eq_some_iff.mp h
  refine ⟨String.ofList cs,?_,?_⟩
  · apply String.toList_injective
    have hrest : (String.ofList cs).toList = cs := String.toList_ofList
    rw [hcs,String.toList_append,hrest]
    rfl
  · have hlength : "/".length = 1 := rfl
    rw [Text.afterStart,hcs,hlength]
    simp [List.isPrefixOf]

/-- Replacing the first slash is what a kept rewrite asks for. -/
private theorem rewrites_of_kept {p : UrlRewritePath} {matched : PathMatch} (hkept : RewriteKept matched p) {action : RouteAction}
    (haction : action = .proxy (some (rewriteOf p))) {path : String} (hpath : path.toList.head? = some '/') (hmatches : PathMatches matched path) :
    ∃ path', applyPathRewrite action path = some path' ∧ Rewrites p matched path path' := by
  obtain ⟨rest,hrest,hafter⟩ := afterStart_slash hpath
  cases p with
  | replaceFullPath full =>
    obtain rfl : matched = ⟨.exact,"/"⟩ := hkept
    have hroot : path = "/" := hmatches
    have hempty : rest = "" := by
      have hlist := congrArg String.toList (hrest.symm.trans hroot)
      rw [String.toList_append] at hlist
      apply String.toList_injective
      simpa using hlist
    refine ⟨full,?_,rfl⟩
    rw [haction,rewriteOf,applyPathRewrite,hafter,hempty]
    simp
  | replacePrefixMatch replacement =>
    obtain ⟨rfl,hslash⟩ := hkept
    refine ⟨replacement ++ rest,?_,path,?_,?_⟩
    · rw [haction,rewriteOf,applyPathRewrite,hafter]
      rfl
    · have hroot : Snapshot.trimEndSlashes "/" = "" := by decide
      simp [hroot]
    · conv_lhs => rw [hslash]
      rw [hrest,String.append_assoc]

theorem rewritePath_kept {hostname : Option String} {p : UrlRewritePath} (h : .urlRewrite hostname (some p) ∈ rule.filters)
    (hleft : ¬ LeftOut route rule matchIdx (.rewritePath p)) :
    Kept endpoints services upstreams route (translateRuleMatch endpoints route ruleIdx rule matchIdx) (.rewritePath p) := by
  left
  intro hproxies path hpath hmatches
  rcases redirects_or_none endpoints route ruleIdx rule matchIdx with hredirects | ⟨hnone,hnil⟩
  · exact absurd hproxies hredirects.not_proxies
  · have hbackends : rule.backendRefs ≠ [] := by
      intro hempty
      obtain ⟨rewrite,hproxy⟩ := hproxies
      simp only [translateRuleMatch,translateBackends,hnone,hempty] at hproxy
      cases hproxy
    rw [LeftOut] at hleft
    obtain ⟨hsame,hkept⟩ := not_or.mp fun hbad => hleft ⟨hnil,hbackends,hbad⟩
    rw [not_not] at hkept
    have haction := translateRuleMatch_rewrite endpoints route ruleIdx matchIdx hnone hbackends (List.mem_filterMap.mpr ⟨_,h,rfl⟩)
      fun p' hp' => by_contra fun hne => hsame ⟨p',hp',hne⟩
    have hpathMatch : (translateRuleMatch endpoints route ruleIdx rule matchIdx).route.routeMatch.path = matchedPath rule matchIdx := by
      rw [routeMatch_translateRuleMatch,matchedPath]
      cases rule.routeMatches[matchIdx]? with
      | none => rfl
      | some m => rfl
    rw [hpathMatch] at hmatches ⊢
    exact rewrites_of_kept hkept haction hpath hmatches

theorem filterPart_kept {f : HttpRouteFilter} (hf : f ∈ rule.filters) {part : Part} (hpart : part ∈ filterParts f)
    (hleft : ¬ LeftOut route rule matchIdx part) :
    Kept endpoints services upstreams route (translateRuleMatch endpoints route ruleIdx rule matchIdx) part := by
  cases f with
  | requestRedirect scheme hostname path port statusCode =>
    rcases List.mem_cons.mp hpart with rfl | h
    · exact redirect_kept hf hleft
    · obtain ⟨port,-,rfl⟩ := List.mem_map.mp h
      exact absurd trivial hleft
  | requestHeaderModifier add set remove =>
    simp only [filterParts,List.mem_append,List.mem_map] at hpart
    rcases hpart with (⟨h,hh,rfl⟩ | ⟨h,hh,rfl⟩) | ⟨name,hh,rfl⟩
    · exact setHeader_kept (List.mem_flatMap.mpr ⟨_,hf,hh⟩) hleft
    · exact addHeader_kept (List.mem_flatMap.mpr ⟨_,hf,hh⟩) hleft
    · exact removeHeader_kept (List.mem_flatMap.mpr ⟨_,hf,hh⟩)
  | responseHeaderModifier add set remove =>
    simp only [filterParts,List.mem_append,List.mem_map] at hpart
    rcases hpart with (⟨h,hh,rfl⟩ | ⟨h,hh,rfl⟩) | ⟨name,hh,rfl⟩
    · exact setHeader_kept (List.mem_flatMap.mpr ⟨_,hf,hh⟩) hleft
    · exact addHeader_kept (List.mem_flatMap.mpr ⟨_,hf,hh⟩) hleft
    · exact removeHeader_kept (List.mem_flatMap.mpr ⟨_,hf,hh⟩)
  | urlRewrite hostname path =>
    simp only [filterParts,List.mem_append,List.mem_map,Option.mem_toList] at hpart
    rcases hpart with ⟨h,hh,rfl⟩ | ⟨p,hp,rfl⟩
    · obtain rfl : path = none := not_not.mp hleft
      obtain rfl : hostname = some h := hh
      exact rewriteHostname_kept hf
    · obtain rfl : path = some p := hp
      exact rewritePath_kept hf hleft
  | extensionRef group kind name =>
    obtain rfl := List.mem_singleton.mp hpart
    exact extension_kept hf

/-- Every part that is not left out is represented or warned of. -/
theorem part_kept {part : Part} (hpart : part ∈ parts route rule matchIdx) (hleft : ¬ LeftOut route rule matchIdx part)
    (hservices : ∀ s ∈ (translateRuleMatch endpoints route ruleIdx rule matchIdx).service, s ∈ services)
    (hupstreams : ∀ u ∈ (translateRuleMatch endpoints route ruleIdx rule matchIdx).upstream, u ∈ upstreams) :
    Kept endpoints services upstreams route (translateRuleMatch endpoints route ruleIdx rule matchIdx) part := by
  rw [parts,List.mem_append,List.mem_append,List.mem_append] at hpart
  rcases hpart with ((hpart | hpart) | hpart) | hpart
  · obtain ⟨h,-,rfl⟩ := List.mem_map.mp hpart
    exact hostname_kept hleft
  · obtain ⟨m,hm,hpart⟩ := List.mem_flatMap.mp hpart
    rw [Option.mem_toList] at hm
    rw [matchParts,List.mem_append,List.mem_append] at hpart
    rcases hpart with (hpart | hpart) | hpart
    · obtain ⟨p,hp,rfl⟩ := List.mem_map.mp hpart
      exact path_kept hm (Option.mem_toList.mp hp) hleft
    · obtain ⟨h,hh,rfl⟩ := List.mem_map.mp hpart
      exact header_kept hm hh hleft
    · obtain ⟨q,hq,rfl⟩ := List.mem_map.mp hpart
      exact queryParam_kept hm hq
  · obtain ⟨b,-,rfl⟩ := List.mem_map.mp hpart
    exact backend_kept hleft hservices hupstreams
  · obtain ⟨f,hf,hpart⟩ := List.mem_flatMap.mp hpart
    exact filterPart_kept hf hpart hleft

end Kept
end Dwara.K8sGateway
