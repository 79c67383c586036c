import Dwara.Config.Gateway
import Dwara.Lib.Text
import Dwara.Lib.Trie
import Mathlib.Data.List.Sort

/-! The compiled routes of a snapshot, and the routes a path leads to. -/

namespace Dwara.Snapshot
open Dwara.Config Dwara.Lib

abbrev Params := List (String × String)

/-- The matchit router over the exact templates, and whether a regex matches a path. -/
structure Matchers where
  exactAt : List (String × ℕ) → String → Option (ℕ × Params)
  isMatch : String → String → Bool

/-- A member of the regex set: its pattern, route index and specificity score. -/
structure RegexRoute where
  pattern : String
  index : ℕ
  score : ℕ
  deriving DecidableEq, Repr

abbrev PrefixTrie := Trie UInt8 ℕ

structure RouteTable where
  exact : List (String × ℕ)
  regexes : List RegexRoute
  prefixTrie : PrefixTrie
  acceptMediaTypes : List (Option String)

section Compile

def isMeta (c : Char) : Bool := "\\.*+?()[]\x7b\x7d|^$".toList.contains c

/-- The literal characters of a pattern. -/
def regexSpecificityScore (pattern : String) : ℕ := (pattern.toList.filter (fun c => !isMeta c)).length % 2 ^ 32

def trimEndSlashes (s : String) : String := String.ofList (s.toList.reverse.dropWhile (· = '/')).reverse

def bytes (s : String) : List UInt8 := s.toUTF8.data.toList

def isTchar (c : Char) : Bool := c.isAlphanum || "!#$%&\x27*+-.^_\x60|~".toList.contains c

/-- The normal form of a `type/subtype`; wildcards have none. -/
def normalizeMediaType (value : String) : Option String :=
  let lower := String.ofList ((Text.trimChars value.toList).map Char.toLower)
  (Text.splitOnce '/' lower).bind (fun (ty,subtype) =>
    if ty = "" ∨ subtype = "" ∨ ty = "*" ∨ subtype = "*" then none
    else if !(ty.toList ++ subtype.toList).all isTchar then none
    else some (ty ++ "/" ++ subtype))

/-- The values of the routes of one kind, with their indices. -/
def ofKind (kind : PathMatchKind) (routes : List Route) : List (String × ℕ) :=
  (routes.zipIdx.filter (fun r => r.1.routeMatch.path.kind = kind)).map (fun r => (r.1.routeMatch.path.value,r.2))

def compile (routes : List Route) : RouteTable where
  exact := ofKind .exact routes
  regexes := (ofKind .regex routes).map (fun r => ⟨r.1,r.2,regexSpecificityScore r.1⟩)
  prefixTrie := (ofKind .prefixed routes).foldl (fun t r => t.insert r.2 (bytes (trimEndSlashes r.1))) Trie.empty
  acceptMediaTypes := routes.map (fun r => r.routeMatch.accept.bind normalizeMediaType)

end Compile

namespace RouteTable
variable (matchers : Matchers) (table : RouteTable)

def acceptMediaType (idx : ℕ) : Option String := (table.acceptMediaTypes[idx]?).join

def regexMatches (path : String) : List RegexRoute := table.regexes.filter (fun r => matchers.isMatch r.pattern path)

/-- The first of two matches, unless the second is more specific. -/
def preferred (best r : RegexRoute) : RegexRoute := if best.score < r.score then r else best

def mostSpecific : Option RegexRoute → List RegexRoute → Option RegexRoute
  | best, [] => best
  | none, r :: rs => mostSpecific (some r) rs
  | some best, r :: rs => mostSpecific (some (preferred best r)) rs

/-- Most specific first; equals keep their order. -/
def bySpecificity (rs : List RegexRoute) : List RegexRoute := rs.insertionSort (fun a b => b.score ≤ a.score)

/-- The one route of a path: exact, then the most specific regex, then the longest prefix. -/
def findFull (path : String) : Option (ℕ × Params) :=
  match matchers.exactAt table.exact path with
  | some found => some found
  | none =>
    match mostSpecific none (table.regexMatches matchers path) with
    | some r => some (r.index,[])
    | none => (table.prefixTrie.longestMatch (bytes path)).map (·,[])

/-- Every route of a path in precedence order. -/
def findCandidates (path : String) : List (ℕ × Params) :=
  let found := table.regexMatches matchers path
  let ranked := if 1 < found.length then bySpecificity found else found
  (matchers.exactAt table.exact path).toList ++ ranked.map (fun r => (r.index,[])) ++
    ((table.prefixTrie.collectMatches (bytes path)).reverse.flatten.map (·,[]))

section Precedence
variable {matchers : Matchers} {table : RouteTable}

private theorem preferred_assoc (a b c : RegexRoute) : preferred (preferred a b) c = preferred a (preferred b c) := by
  simp only [preferred]
  split_ifs <;> first | rfl | omega

private theorem bySpecificity_cons_head? (r : RegexRoute) (rs : List RegexRoute) :
    (bySpecificity (r :: rs)).head? = some ((bySpecificity rs).head?.elim r (preferred r)) := by
  rw [bySpecificity,List.insertionSort_cons]
  change (List.orderedInsert _ r (bySpecificity rs)).head? = _
  cases bySpecificity rs with
  | nil => rfl
  | cons s ss =>
    rw [List.orderedInsert_cons,List.head?_cons,Option.elim_some,preferred]
    by_cases h : s.score ≤ r.score
    · rw [if_pos h,if_neg (Nat.not_lt.mpr h),List.head?_cons]
    · rw [if_neg h,if_pos (Nat.lt_of_not_le h),List.head?_cons]

private theorem mostSpecific_some (rs : List RegexRoute) (best : RegexRoute) :
    mostSpecific (some best) rs = some ((bySpecificity rs).head?.elim best (preferred best)) := by
  induction rs generalizing best with
  | nil => rfl
  | cons r rs ih =>
    rw [mostSpecific,ih,bySpecificity_cons_head?]
    cases (bySpecificity rs).head? with
    | none => rfl
    | some s => simp only [Option.elim_some,preferred_assoc]

/-- Keeping the best score while going through the matches finds the first of the sorted ones. -/
theorem mostSpecific_eq_head? (rs : List RegexRoute) : mostSpecific none rs = (bySpecificity rs).head? := by
  cases rs with
  | nil => rfl
  | cons r rs => rw [mostSpecific,mostSpecific_some,bySpecificity_cons_head?]

theorem ranked_eq (rs : List RegexRoute) : (if 1 < rs.length then bySpecificity rs else rs) = bySpecificity rs := by
  match rs with
  | [] => rfl
  | [_] => rfl
  | _ :: _ :: _ => exact if_pos (by simp)

/-- The route a path resolves to is the first of its candidates. -/
theorem findFull_eq_head? (path : String) :
    table.findFull matchers path = (table.findCandidates matchers path).head? := by
  rw [findFull,findCandidates]
  simp only [ranked_eq,mostSpecific_eq_head?,Trie.longestMatch_eq_head?,List.head?_append,List.head?_map]
  cases matchers.exactAt table.exact path with
  | some found => rfl
  | none =>
    cases (bySpecificity (table.regexMatches matchers path)).head? with
    | some r => rfl
    | none => rfl

end Precedence

end RouteTable
/-! The precedence of the routes of a path, stated over all routes at once, and the tables
that are compiled to find it. -/

/-- The regex routes with their scores. -/
def regexRoutes (routes : List Route) : List RegexRoute :=
  (ofKind .regex routes).map fun r => ⟨r.1,r.2,regexSpecificityScore r.1⟩

/-- The prefix routes with their prefixes. -/
def prefixRoutes (routes : List Route) : List (List UInt8 × ℕ) :=
  (ofKind .prefixed routes).map fun r => (bytes (trimEndSlashes r.1),r.2)

section Precedence
variable (matchers : Matchers) (routes : List Route) (path : String)

/-- The matching regex routes, the highest score first, in the order of declaration among equals. -/
def matchingRegexes : List RegexRoute :=
  ((regexRoutes routes).filter fun r => matchers.isMatch r.pattern path).insertionSort fun a b => b.score ≤ a.score

/-- The prefix routes whose prefix the path starts with, the longest first, in the order of
declaration among equals. -/
def matchingPrefixes : List (List UInt8 × ℕ) :=
  ((prefixRoutes routes).filter (·.1 <+: bytes path)).insertionSort fun a b => b.1.length ≤ a.1.length

/-- Every route of a path: the exact one, then the regexes, then the prefixes. -/
def precedence : List (ℕ × Params) :=
  (matchers.exactAt (ofKind .exact routes) path).toList ++ (matchingRegexes matchers routes path).map (·.index,[]) ++
    (matchingPrefixes routes path).map (·.2,[])

end Precedence

section Kinds
variable (routes : List Route)

/-- The routes of one kind stand in the order of declaration. -/
theorem pairwise_ofKind (kind : PathMatchKind) : (ofKind kind routes).Pairwise (·.2 < ·.2) := by
  rw [ofKind,List.pairwise_map]
  apply List.Pairwise.filter
  have hindex : (routes.zipIdx.map Prod.snd).Pairwise (· < ·) := by
    rw [List.zipIdx_map_snd]
    exact List.pairwise_lt_range'
  exact List.pairwise_map.mp hindex

/-- A route is of one kind only. -/
theorem kind_of_mem_ofKind {kind : PathMatchKind} {e : String × ℕ} (h : e ∈ ofKind kind routes) :
    (routes[e.2]?).map (·.routeMatch.path.kind) = some kind := by
  obtain ⟨⟨route,i⟩,hr,rfl⟩ := List.mem_map.mp h
  obtain ⟨hmem,hkind⟩ := List.mem_filter.mp hr
  rw [List.mem_zipIdx_iff_getElem?.mp hmem,Option.map_some,of_decide_eq_true hkind]

theorem pairwise_regexRoutes : (regexRoutes routes).Pairwise (·.index < ·.index) := by
  rw [regexRoutes,List.pairwise_map]
  exact pairwise_ofKind routes .regex

theorem pairwise_prefixRoutes : (prefixRoutes routes).Pairwise (·.2 < ·.2) := by
  rw [prefixRoutes,List.pairwise_map]
  exact pairwise_ofKind routes .prefixed

variable (matchers : Matchers) (path : String)

theorem kind_of_mem_matchingRegexes {r : RegexRoute} (h : r ∈ matchingRegexes matchers routes path) :
    (routes[r.index]?).map (·.routeMatch.path.kind) = some .regex := by
  have hr := (List.mem_filter.mp ((List.mem_insertionSort _).mp h)).1
  obtain ⟨e,he,rfl⟩ := List.mem_map.mp hr
  exact kind_of_mem_ofKind routes he

theorem kind_of_mem_matchingPrefixes {r : List UInt8 × ℕ} (h : r ∈ matchingPrefixes routes path) :
    (routes[r.2]?).map (·.routeMatch.path.kind) = some .prefixed := by
  have hr := (List.mem_filter.mp ((List.mem_insertionSort _).mp h)).1
  obtain ⟨e,he,rfl⟩ := List.mem_map.mp hr
  exact kind_of_mem_ofKind routes he

theorem nodup_matchingRegexes : ((matchingRegexes matchers routes path).map (·.index)).Nodup := by
  have hperm := ((List.perm_insertionSort (fun a b : RegexRoute => b.score ≤ a.score)
    ((regexRoutes routes).filter fun r => matchers.isMatch r.pattern path)).map (·.index)).nodup_iff
  rw [matchingRegexes,hperm]
  exact List.pairwise_map.mpr (((pairwise_regexRoutes routes).filter _).imp Nat.ne_of_lt)

theorem nodup_matchingPrefixes : ((matchingPrefixes routes path).map (·.2)).Nodup := by
  have hperm := ((List.perm_insertionSort (fun a b : List UInt8 × ℕ => b.1.length ≤ a.1.length)
    ((prefixRoutes routes).filter (·.1 <+: bytes path))).map (·.2)).nodup_iff
  rw [matchingPrefixes,hperm]
  exact List.pairwise_map.mpr (((pairwise_prefixRoutes routes).filter _).imp Nat.ne_of_lt)

/-- No route is a candidate twice, when the router answers with a template it was given. -/
theorem nodup_precedence (hexact : ∀ found ∈ matchers.exactAt (ofKind .exact routes) path, found.1 ∈ (ofKind .exact routes).map (·.2)) :
    ((precedence matchers routes path).map (·.1)).Nodup := by
  have hkind : ∀ found ∈ matchers.exactAt (ofKind .exact routes) path,
      (routes[found.1]?).map (·.routeMatch.path.kind) = some .exact := by
    intro found hfound
    obtain ⟨e,he,heq⟩ := List.mem_map.mp (hexact found hfound)
    rw [← heq]
    exact kind_of_mem_ofKind routes he
  rw [precedence,List.map_append,List.map_append,List.map_map,List.map_map,List.nodup_append,List.nodup_append]
  refine ⟨⟨?_,nodup_matchingRegexes routes matchers path,?_⟩,nodup_matchingPrefixes routes path,?_⟩
  · cases matchers.exactAt (ofKind .exact routes) path <;> simp
  · intro i hi j hj hij
    subst hij
    obtain ⟨found,hfound,rfl⟩ := List.mem_map.mp hi
    obtain ⟨r,hr,hindex⟩ := List.mem_map.mp hj
    have hexactKind := hkind found (Option.mem_toList.mp hfound)
    have hregexKind := kind_of_mem_matchingRegexes routes matchers path hr
    rw [show r.index = found.1 from hindex,hexactKind] at hregexKind
    cases hregexKind
  · intro i hi j hj hij
    subst hij
    obtain ⟨p,hp,hindex⟩ := List.mem_map.mp hj
    have hprefixKind := kind_of_mem_matchingPrefixes routes path hp
    rw [show p.2 = i from hindex] at hprefixKind
    rcases List.mem_append.mp hi with hi | hi
    · obtain ⟨found,hfound,rfl⟩ := List.mem_map.mp hi
      rw [hkind found (Option.mem_toList.mp hfound)] at hprefixKind
      cases hprefixKind
    · obtain ⟨r,hr,rfl⟩ := List.mem_map.mp hi
      rw [Function.comp_apply,kind_of_mem_matchingRegexes routes matchers path hr] at hprefixKind
      cases hprefixKind

end Kinds

namespace RouteTable

/-- The compiled tables find the routes of a path in the order of precedence, none of them
twice, and the one route of a path is the first of them. -/
theorem findCandidates_eq_precedence (matchers : Matchers) (routes : List Route) (path : String) :
    (compile routes).findCandidates matchers path = precedence matchers routes path ∧
    (compile routes).findFull matchers path = ((compile routes).findCandidates matchers path).head? ∧
    ((∀ found ∈ matchers.exactAt (ofKind .exact routes) path, found.1 ∈ (ofKind .exact routes).map (·.2)) →
      (((compile routes).findCandidates matchers path).map (·.1)).Nodup) := by
  have hprefixes : ((compile routes).prefixTrie.collectMatches (bytes path)).reverse.flatten = (matchingPrefixes routes path).map (·.2) := by
    have htrie : (compile routes).prefixTrie = (prefixRoutes routes).foldl (fun t e => t.insert e.2 e.1) Trie.empty := by
      rw [prefixRoutes,List.foldl_map]
      rfl
    rw [htrie,Trie.collectMatches_foldl]
    rfl
  have hcandidates : (compile routes).findCandidates matchers path = precedence matchers routes path := by
    rw [findCandidates]
    simp only [ranked_eq,hprefixes,List.map_map]
    rfl
  refine ⟨hcandidates,findFull_eq_head? path,fun hexact => ?_⟩
  rw [hcandidates]
  exact nodup_precedence routes matchers path hexact

section Overlapping

private def routeOf (kind : PathMatchKind) (value : String) : Route where
  name := value
  routeMatch := ⟨⟨kind,value⟩,none,[],[],[],[],none⟩
  service := "web"
  policies := []
  authorization := none
  transforms := none
  action := .proxy none

private def overlapping : List Route :=
  [routeOf .prefixed "/api/",routeOf .prefixed "/",routeOf .regex "^/api",routeOf .prefixed "/api",routeOf .exact "/api/x"]

/-- Templates without parameters, and the one regex. -/
private def literal : Matchers where
  exactAt templates path := (templates.lookup path).map (·,[])
  isMatch pattern path := pattern = "^/api" && Text.startsWith "/api" path

theorem findCandidates_overlapping :
    (precedence literal overlapping "/api/x").map (·.1) = [4,2,0,3,1] ∧
      (((compile overlapping).findCandidates literal "/api/x").map (·.1)).Nodup :=
  ⟨by decide +kernel,(findCandidates_eq_precedence literal overlapping "/api/x").2.2 (by decide +kernel)⟩

end Overlapping

end RouteTable
end Dwara.Snapshot
