import Dwara.Lib.BodyStream
import Dwara.Lib.Json
import Dwara.Lib.Word
import Dwara.Snapshot.RouteTable

/-! The check of a GraphQL request: the depth and the cost of its query, and whether the
query is a known one. -/

namespace Dwara.Dataplane.GraphqlCheck
open Dwara.Lib Dwara.Lib.BodyStream

structure GraphqlPersistedQueries where
  enabled : Bool
  store : List (String × String) := []

/-- The `graphql` block of a route. -/
structure RouteGraphql where
  enabled : Bool
  depthLimit : ℕ
  complexityLimit : UInt64
  complexityCoefficient : UInt64 := 1
  costPerField : List (String × UInt64) := []
  persistedQueries : Option GraphqlPersistedQueries := none
  federationPassthrough : Option Bool := none

/-- The largest body that is read. -/
def defaultGraphqlMaxBodyBytes : ℕ := 1048576

/-- The scanner gives up on a query nested deeper than this. -/
def parseDepthCap : ℕ := 512

inductive GraphQLCheckResult where
  | allow | denyDepth | denyComplexity | denyPersistedQuery
  deriving DecidableEq, Repr

def GraphQLCheckResult.isDenied (r : GraphQLCheckResult) : Bool := r ≠ .allow

structure GraphQLChecker where
  depthLimit : ℕ
  complexityLimit : UInt64
  complexityCoefficient : UInt64
  costPerField : List (String × UInt64)
  persistedEnabled : Bool
  persistedStore : List (String × String)
  maxBodyBytes : ℕ
  federationPassthrough : Bool

def fromConfig (cfg : RouteGraphql) : Option GraphQLChecker :=
  if !cfg.enabled then none
  else some
    { depthLimit := cfg.depthLimit
      complexityLimit := cfg.complexityLimit
      complexityCoefficient := cfg.complexityCoefficient
      costPerField := cfg.costPerField
      persistedEnabled := cfg.persistedQueries.any (·.enabled)
      persistedStore := cfg.persistedQueries.elim [] (·.store)
      maxBodyBytes := defaultGraphqlMaxBodyBytes
      federationPassthrough := cfg.federationPassthrough.any id }

section Scan

def isNameStart (b : UInt8) : Bool := (Char.ofNat b.toNat).isAlpha || b = '_'.toUInt8

def isNameChar (b : UInt8) : Bool := (Char.ofNat b.toNat).isAlphanum || b = '_'.toUInt8

def isKeyword (name : String) : Bool :=
  name ∈ ["query","mutation","subscription","fragment","on","schema","type","input","interface","union","enum","scalar",
    "extends","implements","directive","repeatable"]

/-- Behind the closing quote; an escape is stepped over with what it escapes. -/
def skipString : Bytes → Bytes
  | [] => []
  | [_] => []
  | b :: c :: rest =>
    if b = '\\'.toUInt8 then skipString rest else if b = '"'.toUInt8 then c :: rest else skipString (c :: rest)

/-- Behind three closing quotes; without them, the last two bytes are left. -/
def skipBlock : Bytes → Bytes
  | a :: b :: c :: rest =>
    if a = '"'.toUInt8 ∧ b = '"'.toUInt8 ∧ c = '"'.toUInt8 then rest else skipBlock (b :: c :: rest)
  | rest => rest

/-- Behind a literal whose first quote is read. -/
def skipQuoted : Bytes → Bytes
  | a :: b :: rest => if a = '"'.toUInt8 ∧ b = '"'.toUInt8 then skipBlock rest else skipString (a :: b :: rest)
  | rest => skipString rest

structure ScanState where
  depth : ℕ := 0
  maxDepth : ℕ := 0
  complexity : UInt64 := 0

variable (costPerField : List (String × UInt64)) (coefficient : UInt64)

/-- The state behind a name: within a selection it costs what a field costs. -/
def ScanState.name (s : ScanState) (name : String) : ScanState :=
  if isKeyword name ∨ s.depth = 0 then s
  else { s with complexity := U64.saturatingAdd s.complexity ((costPerField.lookup name).getD coefficient) }

/-- The scan of one token after the other. The fuel is no less than the bytes that are left. -/
def scanFrom : ℕ → ScanState → Bytes → ℕ × UInt64
  | _, s, [] => (s.maxDepth,s.complexity)
  | 0, s, _ => (s.maxDepth,s.complexity)
  | fuel + 1, s, b :: rest =>
    if b = '#'.toUInt8 then scanFrom fuel s (rest.dropWhile (· ≠ '\n'.toUInt8))
    else if b = '"'.toUInt8 then scanFrom fuel s (skipQuoted rest)
    else if b = '\x7b'.toUInt8 ∨ b = '('.toUInt8 then
      let depth := s.depth + 1
      if parseDepthCap < depth then (parseDepthCap + 1,s.complexity)
      else scanFrom fuel { s with depth, maxDepth := max s.maxDepth depth } rest
    else if b = '\x7d'.toUInt8 ∨ b = ')'.toUInt8 then scanFrom fuel { s with depth := s.depth - 1 } rest
    else if b = '.'.toUInt8 ∧ rest.take 2 = ['.'.toUInt8,'.'.toUInt8] then scanFrom fuel s (rest.drop 2)
    else if b = '@'.toUInt8 then scanFrom fuel s (rest.dropWhile isNameChar)
    else if isNameStart b then
      scanFrom fuel (s.name costPerField coefficient
        (String.ofList ((b :: rest.takeWhile isNameChar).map fun c => Char.ofNat c.toNat))) (rest.dropWhile isNameChar)
    else scanFrom fuel s rest

/-- The deepest nesting of a query and what its fields cost. -/
def scanDepthComplexity (query : String) : ℕ × UInt64 :=
  let bytes := Snapshot.bytes query
  scanFrom costPerField coefficient bytes.length {} bytes

end Scan

def isFederationIntrospection (query : String) : Bool :=
  Text.contains "_service" query || Text.contains "__schema" query || Text.contains "__type" query

/-- What stands outside: the hash in hex, and how a body parses as JSON. -/
structure GraphqlLib where
  sha256Hex : Bytes → String
  fromSlice : Bytes → Option Json

section Check
variable (lib : GraphqlLib) (checker : GraphQLChecker)

def persistedDenied (query : String) : Bool :=
  checker.persistedEnabled && ((checker.persistedStore.lookup (lib.sha256Hex (Snapshot.bytes query))).isNone)

def checkQuery (query : String) : GraphQLCheckResult × ℕ × UInt64 :=
  let scanned := scanDepthComplexity checker.costPerField checker.complexityCoefficient query
  if checker.federationPassthrough && isFederationIntrospection query then
    (if persistedDenied lib checker query then .denyPersistedQuery else .allow,scanned)
  else if checker.depthLimit < scanned.1 then (.denyDepth,scanned)
  else if checker.complexityLimit < scanned.2 then (.denyComplexity,scanned)
  else (if persistedDenied lib checker query then .denyPersistedQuery else .allow,scanned)

/-- The `query` of a body; none is an empty one. -/
def extractQuery (body : Bytes) : String := (((lib.fromSlice body).bind (·.get "query")).bind Json.asStr).getD ""

variable {ε : Type}

/-- The bytes of a body, unless it fails or has too many. -/
def collectFrom (maxBytes : ℕ) : Bytes → Body ε → Option Bytes
  | buf, .done => some buf
  | _, .stuck _ => none
  | _, .fault _ _ => none
  | buf, .frame (.trailers _) rest => collectFrom maxBytes buf rest
  | buf, .frame (.data data) rest => if maxBytes < buf.length + data.length then none else collectFrom maxBytes (buf ++ data) rest

/-- A declared length that is too large is refused unread. -/
def collectBody (maxBytes : ℕ) (declared : Option ℕ) (body : Body ε) : Option Bytes :=
  if declared.any (maxBytes < ·) then none else collectFrom maxBytes [] body

/-- The result with the bytes that go on. A body that cannot be collected is denied. -/
def checkBody (declared : Option ℕ) (body : Body ε) : (GraphQLCheckResult × ℕ × UInt64) × Bytes :=
  match collectBody checker.maxBodyBytes declared body with
  | none => ((.denyComplexity,0,0),[])
  | some collected => (checkQuery lib checker (extractQuery lib collected),collected)

end Check

section Fuel
variable {costPerField : List (String × UInt64)} {coefficient : UInt64}

theorem length_skipString_le (bytes : Bytes) : (skipString bytes).length ≤ bytes.length := by
  fun_induction skipString bytes with
  | case1 => exact le_rfl
  | case2 => exact Nat.zero_le _
  | case3 c rest ih => exact ih.trans (by simp; omega)
  | case4 c rest => simp
  | case5 b c rest _ _ ih => exact ih.trans (by simp)

theorem length_skipBlock_le (bytes : Bytes) : (skipBlock bytes).length ≤ bytes.length := by
  fun_induction skipBlock bytes with
  | case1 a b c rest _ => simp; omega
  | case2 a b c rest _ ih => exact ih.trans (by simp)
  | case3 rest => exact le_rfl

theorem length_skipQuoted_le (bytes : Bytes) : (skipQuoted bytes).length ≤ bytes.length := by
  unfold skipQuoted
  split
  · rename_i a b rest
    split_ifs
    · exact (length_skipBlock_le rest).trans (by simp; omega)
    · exact length_skipString_le _
  · exact length_skipString_le _

/-- No scan runs out of fuel that has as much as there are bytes. -/
theorem scanFrom_fuel {fuel fuel' : ℕ} {bytes : Bytes} (h : bytes.length ≤ fuel) (h' : bytes.length ≤ fuel') (s : ScanState) :
    scanFrom costPerField coefficient fuel s bytes = scanFrom costPerField coefficient fuel' s bytes := by
  induction fuel generalizing fuel' bytes s with
  | zero =>
    obtain rfl := List.length_eq_zero_iff.mp (Nat.le_zero.mp h)
    simp [scanFrom]
  | succ fuel ih =>
    cases bytes with
    | nil => simp [scanFrom]
    | cons b rest =>
      obtain ⟨fuel',rfl⟩ : ∃ n, fuel' = n + 1 := ⟨fuel' - 1,by simp at h'; omega⟩
      rw [List.length_cons] at h h'
      -- every token takes at least its first byte
      have hrest : ∀ (s : ScanState) (bytes : Bytes), bytes.length ≤ rest.length →
          scanFrom costPerField coefficient fuel s bytes = scanFrom costPerField coefficient fuel' s bytes :=
        fun s bytes hlen => ih (by omega) (by omega) s
      have hdrop : ∀ q : UInt8 → Bool, (rest.dropWhile q).length ≤ rest.length := fun q => (List.dropWhile_sublist q).length_le
      simp only [scanFrom]
      rw [hrest s _ (hdrop _),hrest s _ (length_skipQuoted_le rest),hrest _ rest le_rfl,hrest _ rest le_rfl,
        hrest s (rest.drop 2) (by simp),hrest s _ (hdrop _),hrest _ _ (hdrop _),hrest s rest le_rfl]

end Fuel

end Dwara.Dataplane.GraphqlCheck
