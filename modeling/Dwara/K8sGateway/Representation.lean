import Dwara.K8sGateway.Translate
import Dwara.Snapshot.RouteTable
import Mathlib.Data.List.Induction

/-! The parts of an HTTPRoute, what it means for a configuration to represent one, and for
a warning to name one. -/

namespace Dwara.K8sGateway
open Dwara.Config Dwara.Lib

/-- The headers a filter modifies. -/
inductive Direction where
  | request
  | response
  deriving DecidableEq, Repr

inductive Part where
  | hostname (h : String)
  | path (p : HttpPathMatch)
  | header (h : HttpHeaderMatch)
  | queryParam (q : HttpQueryParamMatch)
  | backend (b : HttpBackendRef)
  | redirect (scheme hostname path : Option String) (statusCode : ℕ)
  | redirectPort (port : ℕ)
  | setHeader (dir : Direction) (h : HttpHeaderFilter)
  | addHeader (dir : Direction) (h : HttpHeaderFilter)
  | removeHeader (dir : Direction) (name : String)
  | rewriteHostname (hostname : String) (path : Option UrlRewritePath)
  | rewritePath (path : UrlRewritePath)
  | extension (group kind : String)

section Parts

def matchParts (m : HttpRouteMatch) : List Part := m.path.toList.map .path ++ m.headers.map .header ++ m.queryParams.map .queryParam

def filterParts : HttpRouteFilter → List Part
  | .requestRedirect scheme hostname path port statusCode =>
    .redirect scheme hostname path statusCode :: port.toList.map .redirectPort
  | .requestHeaderModifier add set remove =>
    set.map (.setHeader .request) ++ add.map (.addHeader .request) ++ remove.map (.removeHeader .request)
  | .responseHeaderModifier add set remove =>
    set.map (.setHeader .response) ++ add.map (.addHeader .response) ++ remove.map (.removeHeader .response)
  | .urlRewrite hostname path => hostname.toList.map (.rewriteHostname · path) ++ path.toList.map .rewritePath
  | .extensionRef group kind _ => [.extension group kind]

/-- What an HTTPRoute says about one match of one of its rules. -/
def parts (route : HttpRoute) (rule : HttpRouteRule) (matchIdx : ℕ) : List Part :=
  route.hostnames.map .hostname ++ rule.routeMatches[matchIdx]?.toList.flatMap matchParts ++ rule.backendRefs.map .backend ++
    rule.filters.flatMap filterParts

end Parts

section Meaning

/-- A match type and what it means. -/
def Kind (matchType : String) (kind : PathMatchKind) : Prop :=
  matchType = "Exact" ∧ kind = .exact ∨ (matchType = "PathPrefix" ∨ matchType = "") ∧ kind = .prefixed ∨
    matchType = "RegularExpression" ∧ kind = .regex

/-- The paths a rule without a regular expression matches. -/
def PathMatches (m : PathMatch) (path : String) : Prop :=
  match m.kind with
  | .exact => path = m.value
  | .prefixed => ∃ rest, path = Snapshot.trimEndSlashes m.value ++ rest ∧ (rest = "" ∨ rest.toList.head? = some '/')
  | .regex => True

/-- What a rewrite makes of a path the rule matched. -/
def Rewrites (p : UrlRewritePath) (matched : PathMatch) (path path' : String) : Prop :=
  match p with
  | .replaceFullPath full => path' = full
  | .replacePrefixMatch replacement =>
    ∃ rest, path = Snapshot.trimEndSlashes matched.value ++ rest ∧ path' = Snapshot.trimEndSlashes replacement ++ rest

/-- The path a proxy sends on, when it replaces a start of it. -/
def applyPathRewrite (action : RouteAction) (path : String) : Option String :=
  match action with
  | .proxy (some (.replacePrefix pfx replacement)) => (Text.afterStart pfx path).map (replacement ++ ·)
  | _ => none

def Redirects (g : Route) : Prop := ∃ scheme host path status, g.action = .redirect scheme host path status

def Proxies (g : Route) : Prop := ∃ rewrite, g.action = .proxy rewrite

def headerOps (g : Route) (dir : Direction) : HeaderOps :=
  (g.transforms.bind fun t =>
    match dir with
    | .request => t.request.bind RequestTransforms.headers
    | .response => t.response.bind ResponseTransforms.headers).getD ⟨[],[],[],[]⟩

variable {Endpoint : Type} (endpoints : String → Option (List Endpoint)) (services : List Service) (upstreams : List (Upstream Endpoint))

/-- The route sends to these endpoints. -/
def SendsTo (g : Route) (eps : List Endpoint) : Prop :=
  Proxies g ∧ ∃ service ∈ services, service.name = g.service ∧
    ∃ upstream ∈ upstreams, service.upstream = some upstream.name ∧ upstream.endpoints = eps

/-- A part of the HTTPRoute is in the route made from it. A redirect answers in place of
the backends, and what is not sent on has no path or hostname to rewrite. -/
def Represented (route : HttpRoute) (g : Route) : Part → Prop
  | .hostname h => g.routeMatch.host = some h
  | .path p => Kind p.matchType g.routeMatch.path.kind ∧ g.routeMatch.path.value = p.value
  | .header h => IsExact h.matchType ∧ g.routeMatch.headers.lookup h.name = some h.value
  | .queryParam q => IsExact q.matchType ∧ ⟨q.name,some q.value⟩ ∈ g.routeMatch.query
  | .backend b => Redirects g ∨ ∃ eps, endpoints (backendKey route b) = some eps ∧ SendsTo services upstreams g eps
  | .redirect scheme hostname path statusCode => g.action = .redirect scheme hostname path statusCode
  | .redirectPort _ => False
  | .setHeader dir h => (headerOps g dir).set.lookup h.name = some h.value
  | .addHeader dir h => (headerOps g dir).add.lookup h.name = some h.value
  | .removeHeader dir name => name ∈ (headerOps g dir).remove
  | .rewriteHostname _ _ => ¬ Proxies g
  | .rewritePath p => Proxies g → ∀ path, path.toList.head? = some '/' → PathMatches g.routeMatch.path path →
        ∃ path', applyPathRewrite g.action path = some path' ∧ Rewrites p g.routeMatch.path path path'
  | .extension _ _ => False

end Meaning

section Warnings

def Mentions (warning text : String) : Prop := ∃ before after, warning = before ++ text ++ after

/-- A warning names a part. -/
def Names (route : HttpRoute) (warning : String) : Part → Prop
  | .header h => Mentions warning h.name
  | .queryParam q => Mentions warning q.name
  | .backend b => Mentions warning (backendKey route b)
  | .rewriteHostname _ _ => Mentions warning "URLRewrite hostname"
  | .extension group kind => Mentions warning (group ++ "/" ++ kind)
  | _ => False

end Warnings

end Dwara.K8sGateway

/-! What the translation of one match of a rule represents, and what it warns of. -/

namespace Dwara.K8sGateway
open Dwara.Config Dwara.Lib

section Entries

theorem lookup_putEntry_self (entries : List (String × String)) (name value : String) :
    (putEntry entries name value).lookup name = some value := by
  have hnone : (entries.filter (fun e => e.1 ≠ name)).lookup name = none := by
    rw [List.lookup_eq_none_iff]
    intro e he
    have hne : e.1 ≠ name := by simpa using (List.mem_filter.mp he).2
    simpa using hne.symm
  rw [putEntry,List.lookup_append,hnone,Option.none_or,List.lookup_cons_self]

theorem lookup_putEntry_of_ne {name other : String} (h : other ≠ name) (entries : List (String × String)) (value : String) :
    (putEntry entries name value).lookup other = entries.lookup other := by
  have hlast : List.lookup other [(name,value)] = none := by
    have hne : (other == name) = false := by simpa using h
    rw [List.lookup_cons,hne]
    rfl
  have hfilter : (entries.filter (fun e => e.1 ≠ name)).lookup other = entries.lookup other := by
    induction entries with
    | nil => rfl
    | cons e entries ih =>
      obtain ⟨key,v⟩ := e
      by_cases hkey : key = name
      · rw [List.filter_cons_of_neg (by simpa using hkey),ih,List.lookup_cons]
        have hne : (other == key) = false := by
          rw [hkey]
          simpa using h
        rw [hne]
      · rw [List.filter_cons_of_pos (by simpa using hkey),List.lookup_cons,List.lookup_cons,ih]
  rw [putEntry,List.lookup_append,hlast,hfilter,Option.or_none]

variable {α : Type*} (name value : α → String)

/-- The entries of a list put in one after the other. -/
def putAll (l : List α) (entries : List (String × String)) : List (String × String) :=
  l.foldl (fun entries a => putEntry entries (name a) (value a)) entries

/-- What is put in is there, when nothing else is put in under its name. -/
theorem lookup_putAll {l : List α} {a : α} (ha : a ∈ l) (hsame : ∀ b ∈ l, name b = name a → value b = value a)
    (entries : List (String × String)) : (putAll name value l entries).lookup (name a) = some (value a) := by
  induction l using List.reverseRecOn with
  | nil => cases ha
  | append_singleton l b ih =>
    rw [putAll,List.foldl_append,List.foldl_cons,List.foldl_nil]
    by_cases hb : name b = name a
    · rw [← hb,lookup_putEntry_self,hsame b (by simp) hb]
    · rw [lookup_putEntry_of_ne (Ne.symm hb)]
      apply ih
      · rcases List.mem_append.mp ha with ha | ha
        · exact ha
        · obtain rfl := List.mem_singleton.mp ha
          exact absurd rfl hb
      · exact fun c hc => hsame c (List.mem_append_left _ hc)

theorem putAll_append (l l' : List α) (entries : List (String × String)) :
    putAll name value (l ++ l') entries = putAll name value l' (putAll name value l entries) := List.foldl_append

end Entries

section Matches

/-- An exact header is in the map, when no other of its name has another value. -/
theorem lookup_headerMap {headers : List HttpHeaderMatch} {h : HttpHeaderMatch} (hmem : h ∈ headers) (hexact : IsExact h.matchType)
    (hsame : ∀ h' ∈ headers, IsExact h'.matchType → h'.name = h.name → h'.value = h.value) :
    (headerMap headers).lookup h.name = some h.value := by
  have hmap : headerMap headers = putAll HttpHeaderMatch.name HttpHeaderMatch.value (headers.filter (fun h => IsExact h.matchType)) [] := by
    rw [headerMap,putAll,List.foldl_filter]
    simp
  rw [hmap]
  apply lookup_putAll HttpHeaderMatch.name HttpHeaderMatch.value
  · exact List.mem_filter.mpr ⟨hmem,by simpa using hexact⟩
  · intro h' hh' hname
    obtain ⟨hmem',hexact'⟩ := List.mem_filter.mp hh'
    exact hsame h' hmem' (by simpa using hexact') hname

theorem mem_queryMatches {params : List HttpQueryParamMatch} {q : HttpQueryParamMatch} (hmem : q ∈ params) (hexact : IsExact q.matchType) :
    ⟨q.name,some q.value⟩ ∈ queryMatches params := by
  rw [queryMatches,List.mem_filterMap]
  exact ⟨q,hmem,if_pos hexact⟩

theorem headerWarning_names {h : HttpHeaderMatch} (hexact : ¬ IsExact h.matchType) :
    ∃ warning, headerWarning h = some warning ∧ Mentions warning h.name := by
  rw [headerWarning,if_neg hexact]
  split
  · exact ⟨_,rfl,"RegularExpression header match on '","' is not natively supported; header match dropped",rfl⟩
  · exact ⟨_,rfl,_,"'; header match dropped",rfl⟩

theorem queryWarning_names {q : HttpQueryParamMatch} (hexact : ¬ IsExact q.matchType) :
    ∃ warning, queryWarning q = some warning ∧ Mentions warning q.name := by
  rw [queryWarning,if_neg hexact]
  split
  · exact ⟨_,rfl,"RegularExpression query param match on '","' is not natively supported; query match dropped",rfl⟩
  · exact ⟨_,rfl,_,"'; query match dropped",rfl⟩

end Matches

section Filters

def redirects (filters : List HttpRouteFilter) : List RouteAction :=
  filters.filterMap fun
    | .requestRedirect scheme hostname path _ statusCode => some (.redirect scheme hostname path statusCode)
    | _ => none

def rewritePaths (filters : List HttpRouteFilter) : List UrlRewritePath :=
  filters.filterMap fun
    | .urlRewrite _ path => path
    | _ => none

/-- The headers the filters of a direction set, add and remove. -/
def setHeaders (dir : Direction) (filters : List HttpRouteFilter) : List HttpHeaderFilter :=
  filters.flatMap fun
    | .requestHeaderModifier _ set _ => if dir = .request then set else []
    | .responseHeaderModifier _ set _ => if dir = .response then set else []
    | _ => []

def addHeaders (dir : Direction) (filters : List HttpRouteFilter) : List HttpHeaderFilter :=
  filters.flatMap fun
    | .requestHeaderModifier add _ _ => if dir = .request then add else []
    | .responseHeaderModifier add _ _ => if dir = .response then add else []
    | _ => []

def removeHeaders (dir : Direction) (filters : List HttpRouteFilter) : List String :=
  filters.flatMap fun
    | .requestHeaderModifier _ _ remove => if dir = .request then remove else []
    | .responseHeaderModifier _ _ remove => if dir = .response then remove else []
    | _ => []

def FilterState.headers (s : FilterState) : Direction → Option HeaderOps
  | .request => s.reqHeaders
  | .response => s.respHeaders

theorem filterState_concat (filters : List HttpRouteFilter) (f : HttpRouteFilter) :
    filterState (filters ++ [f]) = translateFilter (filterState filters) f := by
  rw [filterState,List.foldl_append]
  rfl

/-- The last redirect is the action. -/
theorem action_filterState (filters : List HttpRouteFilter) : (filterState filters).action = (redirects filters).getLast? := by
  induction filters using List.reverseRecOn with
  | nil => rfl
  | append_singleton filters f ih =>
    rw [filterState_concat,redirects,List.filterMap_append,← redirects]
    cases f with
    | requestRedirect scheme hostname path port statusCode => simp [translateFilter]
    | requestHeaderModifier add set remove => simpa [translateFilter] using ih
    | responseHeaderModifier add set remove => simpa [translateFilter] using ih
    | extensionRef group kind name => simpa [translateFilter] using ih
    | urlRewrite hostname path =>
      rw [translateFilter]
      split
      · simpa using ih
      · simpa using ih

/-- Without a redirect, the last path is the rewrite. -/
theorem rewrite_filterState {filters : List HttpRouteFilter} (h : (filterState filters).action = none) :
    (filterState filters).rewrite = (rewritePaths filters).getLast?.map rewriteOf := by
  induction filters using List.reverseRecOn with
  | nil => rfl
  | append_singleton filters f ih =>
    rw [filterState_concat] at h ⊢
    rw [rewritePaths,List.filterMap_append,← rewritePaths]
    cases f with
    | requestRedirect scheme hostname path port statusCode => cases h
    | requestHeaderModifier add set remove => simpa [translateFilter] using ih h
    | responseHeaderModifier add set remove => simpa [translateFilter] using ih h
    | extensionRef group kind name => simpa [translateFilter] using ih h
    | urlRewrite hostname path =>
      have hnone : (filterState filters).action = none := by
        rw [translateFilter] at h
        split at h
        · exact h
        · exact h
      rw [translateFilter,if_pos (by rw [hnone]; rfl)]
      cases path with
      | none => simpa using ih hnone
      | some path => simp

/-- The operations of a direction are what its filters add up to. -/
theorem headers_filterState (dir : Direction) (filters : List HttpRouteFilter) :
    ((filterState filters).headers dir).getD ⟨[],[],[],[]⟩ =
      ⟨putAll HttpHeaderFilter.name HttpHeaderFilter.value (setHeaders dir filters) [],
        putAll HttpHeaderFilter.name HttpHeaderFilter.value (addHeaders dir filters) [],removeHeaders dir filters,[]⟩ := by
  induction filters using List.reverseRecOn with
  | nil =>
    cases dir with
    | request => rfl
    | response => rfl
  | append_singleton filters f ih =>
    rw [filterState_concat,setHeaders,addHeaders,removeHeaders,List.flatMap_append,List.flatMap_append,List.flatMap_append,
      ← setHeaders,← addHeaders,← removeHeaders,putAll_append,putAll_append]
    cases f with
    | requestHeaderModifier add set remove =>
      cases dir with
      | request =>
        change modifyHeaders ((filterState filters).headers .request) add set remove = _
        rw [modifyHeaders,ih]
        simp [putAll]
      | response => simpa [translateFilter,FilterState.headers,putAll] using ih
    | responseHeaderModifier add set remove =>
      cases dir with
      | request => simpa [translateFilter,FilterState.headers,putAll] using ih
      | response =>
        change modifyHeaders ((filterState filters).headers .response) add set remove = _
        rw [modifyHeaders,ih]
        simp [putAll]
    | requestRedirect scheme hostname path port statusCode =>
      cases dir with
      | request => simpa [translateFilter,FilterState.headers,putAll] using ih
      | response => simpa [translateFilter,FilterState.headers,putAll] using ih
    | extensionRef group kind name =>
      cases dir with
      | request => simpa [translateFilter,FilterState.headers,putAll] using ih
      | response => simpa [translateFilter,FilterState.headers,putAll] using ih
    | urlRewrite hostname path =>
      rw [translateFilter]
      split
      · cases dir with
        | request => simpa [FilterState.headers,putAll] using ih
        | response => simpa [FilterState.headers,putAll] using ih
      · simpa [putAll] using ih

theorem warnings_translateFilter (s : FilterState) (f : HttpRouteFilter) : s.warnings ⊆ (translateFilter s f).warnings := by
  cases f with
  | requestRedirect => exact List.Subset.refl _
  | requestHeaderModifier => exact List.Subset.refl _
  | responseHeaderModifier => exact List.Subset.refl _
  | extensionRef => exact List.subset_append_left _ _
  | urlRewrite hostname path =>
    rw [translateFilter]
    split
    · exact List.subset_append_left _ _
    · exact List.Subset.refl _

theorem extension_warned {filters : List HttpRouteFilter} {group kind : String} {name : Option String}
    (h : .extensionRef group kind name ∈ filters) :
    ("extension filter " ++ group ++ "/" ++ kind ++ " is not supported; filter dropped") ∈ (filterState filters).warnings := by
  induction filters using List.reverseRecOn with
  | nil => cases h
  | append_singleton filters f ih =>
    rw [filterState_concat]
    rcases List.mem_append.mp h with h | h
    · exact warnings_translateFilter _ f (ih h)
    · obtain rfl := List.mem_singleton.mp h
      exact List.mem_append_right _ (List.mem_singleton.mpr rfl)

/-- A hostname without a path is warned of, unless there is a redirect. -/
theorem hostname_warned {filters : List HttpRouteFilter} {hostname : String} (h : .urlRewrite (some hostname) none ∈ filters) :
    hostnameDropped ∈ (filterState filters).warnings ∨ (filterState filters).action ≠ none := by
  induction filters using List.reverseRecOn with
  | nil => cases h
  | append_singleton filters f ih =>
    rcases List.mem_append.mp h with h | h
    · rcases ih h with hwarned | haction
      · rw [filterState_concat]
        exact .inl (warnings_translateFilter _ f hwarned)
      · right
        rw [action_filterState] at haction ⊢
        rw [redirects,List.filterMap_append,← redirects]
        intro hnil
        rw [List.getLast?_eq_none_iff,List.append_eq_nil_iff] at hnil
        rw [hnil.1] at haction
        exact haction rfl
    · obtain rfl := List.mem_singleton.mp h
      rw [filterState_concat,translateFilter]
      by_cases hnone : (filterState filters).action = none
      · rw [if_pos (by rw [hnone]; rfl)]
        exact .inl (List.mem_append_right _ (by simp))
      · rw [if_neg (by simpa [Option.isNone_iff_eq_none] using hnone)]
        exact .inr hnone

end Filters
end Dwara.K8sGateway
