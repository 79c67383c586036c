import Dwara.Config.Masking
import Dwara.Lib.Pieces
import Dwara.Lib.Utf8Chunks
import Mathlib.Data.Prod.Lex

/-! The changes to the query of a forwarded request, beside the four passes they are declared as. -/

namespace Dwara.Dataplane.Transforms
open Dwara.Lib
open Dwara.Config.Transforms (ValidationIssue issue)

abbrev Str := List Char

section Config

/-- Entries in the order of their keys. -/
structure BTreeMap where
  entries : List (Str × Str)
  sorted : (entries.map Prod.fst).Pairwise (· < ·)

def BTreeMap.empty : BTreeMap := ⟨[],.nil⟩

def BTreeMap.get (m : BTreeMap) (key : Str) : Option Str := m.entries.lookup key

def BTreeMap.containsKey (m : BTreeMap) (key : Str) : Bool := (m.get key).isSome

structure QueryOps where
  set : BTreeMap := .empty
  add : BTreeMap := .empty
  remove : List Str := []
  rename : BTreeMap := .empty

variable (route field : String)

def badName (key : Str) : Bool :=
  key.isEmpty || key.any fun c => 128 ≤ c.toNat || c.toNat < 32 || c.toNat = 127 || ['&','=','#',' '].contains c

def badValue (value : Str) : Bool := value.any fun c => 128 ≤ c.toNat || c.toNat < 32 || c.toNat = 127 || ['&','#'].contains c

def check (kind : String) (key : Str) (value : Option Str) : List ValidationIssue :=
  (if badName key then
    [issue route field ("the " ++ kind ++ " name '" ++ String.ofList key ++
      "' is not a plain query name (non-empty ASCII, no '&', '=', '#', or spaces)")]
  else []) ++
  match value with
  | none => []
  | some v =>
    if badValue v then
      [issue route field ("the " ++ kind ++ " value '" ++ String.ofList v ++
        "' is not representable in a query string (ASCII without '&' or '#')")]
    else []

def validateQueryOps (ops : QueryOps) : List ValidationIssue :=
  (if ops.set.entries.isEmpty && ops.add.entries.isEmpty && ops.remove.isEmpty && ops.rename.entries.isEmpty then
    [issue route field "carries no set, add, remove, or rename entries and is always a mistake: omit it"]
  else []) ++
  ops.set.entries.flatMap (fun e => check route field "set" e.1 (some e.2)) ++
  ops.add.entries.flatMap (fun e => check route field "add" e.1 (some e.2)) ++
  ops.remove.flatMap (fun key => check route field "remove" key none) ++
  ops.rename.entries.flatMap fun e =>
    check route field "rename" e.1 none ++ check route field "rename (to)" e.2 none ++
      if e.1 = e.2 then
        [issue route field ("rename '" ++ String.ofList e.1 ++ "' -> '" ++ String.ofList e.2 ++ "' is a no-op: rename to a different key")]
      else []

end Config

section Apply

/-- The characters a query of a URI can have. -/
def isQueryChar (c : Char) : Bool :=
  c.toNat = 0x21 || (0x24 ≤ c.toNat && c.toNat ≤ 0x3b) || c.toNat = 0x3d || 0x3f ≤ c.toNat

/-- The path and the query of a request. -/
structure Uri where
  path : Str
  query : Option Str
  path_plain : '?' ∉ path ∧ '#' ∉ path
  query_plain : query.all (·.all isQueryChar) = true

/-- What stands outside: the text of a path and a query, put in place of those of a URI. -/
structure UriLib where
  withPathAndQuery : Uri → Str → Option Uri

/-- Such a text is taken for what it was made of. -/
structure UriLib.Lawful (lib : UriLib) : Prop where
  path : ∀ uri, (lib.withPathAndQuery uri uri.path).map Uri.query = some none
  query : ∀ uri q, q ≠ [] → q.all isQueryChar = true →
    (lib.withPathAndQuery uri (uri.path ++ '?' :: q)).map Uri.query = some (some q)

/-- The bytes that stand for themselves. -/
def safe (b : UInt8) : Bool :=
  let c := Char.ofNat b.toNat
  c.isAlphanum || ['-','.','_','~','!','$','\x27','(',')','*','+',',',';',':','@','/','?'].contains c

def upperHex (n : ℕ) : Char := (Nat.digitChar n).toUpper

def encodeByte (b : UInt8) : Str := if safe b then [Char.ofNat b.toNat] else ['%',upperHex (b.toNat / 16),upperHex (b.toNat % 16)]

def encodeQueryComponent (s : Str) : Str := if (Utf8.encode s).all safe then s else (Utf8.encode s).flatMap encodeByte

/-- What stands before the first `=`. -/
def keyOf (rawPair : Str) : Str := rawPair.takeWhile (· ≠ '=')

/-- A pair under another key, its value as it is. -/
def withKey (key rawPair : Str) : Str := key ++ rawPair.dropWhile (· ≠ '=')

def emit (e : Str × Str) : Str := encodeQueryComponent e.1 ++ '=' :: encodeQueryComponent e.2

def join (pieces : List Str) : Str := ['&'].intercalate pieces

variable (lib : UriLib) (uri : Uri) (ops : QueryOps)

def emitted : List Str := (ops.set.entries ++ ops.add.entries).map emit

def rebuild (query : Str) : Option Uri :=
  lib.withPathAndQuery uri (if query.isEmpty then uri.path else uri.path ++ '?' :: query)

/-- What is carried over of a pair, if anything is. -/
def carry (rawPair : Str) : Option Str :=
  if rawPair.isEmpty then none
  else
    let key := keyOf rawPair
    if ops.remove.contains key || ops.set.containsKey key then none
    else
      let keyOut := match ops.rename.get key with
        | some target => encodeQueryComponent target
        | none => key
      some (withKey keyOut rawPair)

/-- The URI with its query changed. Without a change there is none. -/
def applyQueryOps : Option Uri :=
  match uri.query with
  | none => if (emitted ops).isEmpty then none else rebuild lib uri (join (emitted ops))
  | some original =>
    let all := (original.splitOn '&').filterMap (carry ops) ++ emitted ops
    if all.isEmpty then rebuild lib uri []
    else if join all = original then none
    else rebuild lib uri (join all)

/-- The query the request is forwarded with. -/
def forwardedQuery : Option Str := ((applyQueryOps lib uri ops).getD uri).query

end Apply

section Passes
variable (ops : QueryOps)

/-- The pairs of a query as they are written. -/
def pairsOf (query : Option Str) : List Str := ((query.getD []).splitOn '&').filter (! ·.isEmpty)

def queryOf (pairs : List Str) : Option Str := if pairs.isEmpty then none else some (join pairs)

def setPass (pairs : List Str) : List Str := (pairs.filter fun p => ! ops.set.containsKey (keyOf p)) ++ ops.set.entries.map emit

def addPass (pairs : List Str) : List Str := pairs ++ ops.add.entries.map emit

/-- A pair under the key that a rename gives it. -/
def relabel (rawPair : Str) : Str :=
  match ops.rename.get (keyOf rawPair) with
  | some target => withKey (encodeQueryComponent target) rawPair
  | none => rawPair

def renamePass (pairs : List Str) : List Str := pairs.map (relabel ops)

def removed (rawPair : Str) : Bool := ops.remove.contains (keyOf rawPair)

def removePass (pairs : List Str) : List Str := pairs.filter (! removed ops ·)

/-- First what is set, then what is added, then the renames, and in the end what is removed. -/
def inOrder (pairs : List Str) : List Str := removePass ops (renamePass ops (addPass ops (setPass ops pairs)))

/-- The query is forwarded as the passes leave it, one after the other. -/
def FollowsOrder (lib : UriLib) (uri : Uri) : Prop := forwardedQuery lib uri ops = queryOf (inOrder ops (pairsOf uri.query))

/-- No rename and no removal is about a pair that is set or added. -/
def EmittedAlone : Prop := ∀ e ∈ emitted ops, removed ops e = false ∧ relabel ops e = e

/-- The pairs of a query that are not replaced. -/
def kept (uri : Uri) : List Str := (pairsOf uri.query).filter fun p => ! ops.set.containsKey (keyOf p)

/-- Renames lead from keys that are removed to such keys, and from others to others. -/
def RenamesAlike (uri : Uri) : Prop := ∀ p ∈ kept ops uri, removed ops (relabel ops p) = removed ops p

/-- A rename saves a pair from being removed. -/
def BroughtBack (uri : Uri) : Prop := ∃ p ∈ kept ops uri, removed ops p = true ∧ removed ops (relabel ops p) = false

end Passes

section Encoding

private theorem encodeByte_chars : ∀ n < 256, (encodeByte (UInt8.ofNat n)).all (fun c => isQueryChar c && c != '&' && c != '=') = true ∧
    encodeByte (UInt8.ofNat n) ≠ [] ∧ (safe (UInt8.ofNat n) = true → n < 128) := by decide +kernel

theorem encodeQueryComponent_eq (s : Str) : encodeQueryComponent s = (Utf8.encode s).flatMap encodeByte := by
  rw [encodeQueryComponent]
  split_ifs with hsafe
  · induction s with
    | nil => rfl
    | cons c s ih =>
      rw [Utf8.encode_cons,List.all_append,Bool.and_eq_true] at hsafe
      obtain ⟨hc,hs⟩ := hsafe
      have hlow : c.toNat < 128 := by
        by_contra hhigh
        obtain ⟨b,b',bs,henc,hbytes⟩ := Utf8.encodeChar_high (c := c) (by omega)
        rw [henc,List.all_cons,Bool.and_eq_true] at hc
        have hb := (encodeByte_chars b.toNat b.toNat_lt).2.2
        rw [UInt8.ofNat_toNat] at hb
        exact absurd (hb hc.1) (Nat.not_lt.mpr (hbytes b (by simp)))
      rw [Utf8.encodeChar_ascii hlow] at hc
      have hsafe : safe (UInt8.ofNat c.toNat) = true := by simpa using hc
      have hbyte : (UInt8.ofNat c.toNat).toNat = c.toNat := by simp [UInt8.toNat_ofNat']; omega
      rw [Utf8.encode_cons,Utf8.encodeChar_ascii hlow,List.singleton_append,List.flatMap_cons,← ih hs,encodeByte,if_pos hsafe,hbyte,
        Char.ofNat_toNat]
      rfl
  · rfl

theorem mem_encodeQueryComponent {s : Str} {c : Char} (h : c ∈ encodeQueryComponent s) : isQueryChar c = true ∧ c ≠ '&' ∧ c ≠ '=' := by
  rw [encodeQueryComponent_eq,List.mem_flatMap] at h
  obtain ⟨b,-,hc⟩ := h
  have hall := (encodeByte_chars b.toNat b.toNat_lt).1
  rw [UInt8.ofNat_toNat] at hall
  have hchar := List.all_eq_true.mp hall c hc
  simpa [and_assoc] using hchar

theorem encodeQueryComponent_ne_nil {s : Str} (h : s ≠ []) : encodeQueryComponent s ≠ [] := by
  obtain ⟨c,cs,rfl⟩ := List.exists_cons_of_ne_nil h
  obtain ⟨b,bs,henc⟩ := List.exists_cons_of_ne_nil (String.utf8EncodeChar_ne_nil (c := c))
  have hb := (encodeByte_chars b.toNat b.toNat_lt).2.1
  rw [UInt8.ofNat_toNat] at hb
  rw [encodeQueryComponent_eq,Utf8.encode_cons,henc,List.cons_append,List.flatMap_cons]
  exact List.append_ne_nil_of_left_ne_nil hb _

end Encoding

section Pairs
variable {ops : QueryOps} {uri : Uri} {p key : Str}

theorem withKey_keyOf (p : Str) : withKey (keyOf p) p = p := List.takeWhile_append_dropWhile

/-- A pair that can stand in a query. -/
structure Plain (p : Str) : Prop where
  ne_nil : p ≠ []
  chars : ∀ c ∈ p, isQueryChar c = true ∧ c ≠ '&'

theorem plain_emit (e : Str × Str) : Plain (emit e) where
  ne_nil := List.append_ne_nil_of_right_ne_nil _ (List.cons_ne_nil _ _)
  chars c hc := by
    rw [emit,List.mem_append,List.mem_cons] at hc
    obtain hc | rfl | hc := hc
    · exact ⟨(mem_encodeQueryComponent hc).1,(mem_encodeQueryComponent hc).2.1⟩
    · decide
    · exact ⟨(mem_encodeQueryComponent hc).1,(mem_encodeQueryComponent hc).2.1⟩

theorem plain_of_mem_pairsOf (h : p ∈ pairsOf uri.query) : Plain p := by
  obtain ⟨hmem,hne⟩ := List.mem_filter.mp h
  refine ⟨by simpa using hne,fun c hc => ?_⟩
  obtain ⟨htext,hsep⟩ := Joined.mem_of_mem_splitOn hmem hc
  refine ⟨?_,hsep⟩
  cases hquery : uri.query with
  | none =>
    rw [hquery] at htext
    exact absurd htext List.not_mem_nil
  | some q =>
    rw [hquery] at htext
    have hplain := uri.query_plain
    rw [hquery] at hplain
    exact List.all_eq_true.mp hplain c htext

/-- No key is renamed to nothing. -/
def TargetsNamed (ops : QueryOps) : Prop := ∀ e ∈ ops.rename.entries, e.2 ≠ []

theorem targetsNamed_of_valid {route field : String} (h : validateQueryOps route field ops = []) : TargetsNamed ops := by
  intro e he hnil
  simp only [validateQueryOps,List.append_eq_nil_iff,List.flatMap_eq_nil_iff] at h
  obtain ⟨⟨-,htarget⟩,-⟩ := h.2 e he
  have hbad : badName [] = true := rfl
  rw [check,hnil,if_pos hbad] at htarget
  exact absurd htarget (by simp)

theorem mem_of_get {m : BTreeMap} {value : Str} (h : m.get key = some value) : ∃ e ∈ m.entries, e.2 = value := by
  obtain ⟨before,after,hentries,-⟩ := List.lookup_eq_some_iff.mp h
  exact ⟨(key,value),by rw [hentries]; simp,rfl⟩

theorem plain_relabel (hnamed : TargetsNamed ops) (h : Plain p) : Plain (relabel ops p) := by
  rw [relabel]
  split
  · rename_i target hget
    obtain ⟨e,he,rfl⟩ := mem_of_get hget
    refine ⟨List.append_ne_nil_of_left_ne_nil (encodeQueryComponent_ne_nil (hnamed e he)) _,fun c hc => ?_⟩
    rw [withKey,List.mem_append] at hc
    obtain hc | hc := hc
    · exact ⟨(mem_encodeQueryComponent hc).1,(mem_encodeQueryComponent hc).2.1⟩
    · exact h.chars c ((List.dropWhile_sublist _).subset hc)
  · exact h

/-- What is carried over of a query: the pairs that are neither replaced nor removed, relabelled. -/
theorem filterMap_carry (pieces : List Str) :
    pieces.filterMap (carry ops) = ((((pieces.filter (! ·.isEmpty)).filter fun p => ! ops.set.containsKey (keyOf p)).filter
      (! removed ops ·)).map (relabel ops)) := by
  induction pieces with
  | nil => rfl
  | cons p pieces ih =>
    have hcarry : p ≠ [] → ops.set.containsKey (keyOf p) = false → removed ops p = false → carry ops p = some (relabel ops p) := by
      intro hne howned hremoved
      rw [carry,if_neg (by simpa using hne)]
      dsimp only
      rw [if_neg (by rw [howned,Bool.or_false]; simpa [removed] using hremoved),relabel]
      cases ops.rename.get (keyOf p) with
      | none => exact congrArg some (withKey_keyOf p)
      | some target => rfl
    by_cases hne : p = []
    · subst hne
      exact ih
    · cases howned : ops.set.containsKey (keyOf p) with
      | true =>
        have hnone : carry ops p = none := by simp [carry,hne,howned]
        rw [List.filterMap_cons_none hnone,ih,List.filter_cons_of_pos (by simpa using hne),List.filter_cons_of_neg (by simp [howned])]
      | false =>
        cases hremoved : removed ops p with
        | true =>
          have hnone : carry ops p = none := by
            rw [removed] at hremoved
            simp [carry,hne,show keyOf p ∈ ops.remove by simpa using hremoved]
          rw [List.filterMap_cons_none hnone,ih,List.filter_cons_of_pos (by simpa using hne),List.filter_cons_of_pos (by simp [howned]),
            List.filter_cons_of_neg (by simp [hremoved])]
        | false =>
          rw [List.filterMap_cons_some (hcarry hne howned hremoved),ih,List.filter_cons_of_pos (by simpa using hne),
            List.filter_cons_of_pos (by simp [howned]),List.filter_cons_of_pos (by simp [hremoved]),List.map_cons]

/-- The code carries over and emits. -/
def carriedAndEmitted (ops : QueryOps) (uri : Uri) : List Str := ((kept ops uri).filter (! removed ops ·)).map (relabel ops) ++ emitted ops

theorem inOrder_eq (uri : Uri) :
    inOrder ops (pairsOf uri.query) = ((kept ops uri).map (relabel ops)).filter (! removed ops ·) ++
      ((emitted ops).map (relabel ops)).filter (! removed ops ·) := by
  simp only [inOrder,removePass,renamePass,addPass,setPass,kept,emitted,List.map_append,List.filter_append,List.append_assoc]

end Pairs

section Queries
variable {lib : UriLib} {ops : QueryOps} {uri : Uri} {xs ys : List Str}

theorem join_ne_nil (hxs : ∀ p ∈ xs, Plain p) (hne : xs ≠ []) : join xs ≠ [] := by
  obtain ⟨p,rest,rfl⟩ := List.exists_cons_of_ne_nil hne
  have hp : p ≠ [] := (hxs p List.mem_cons_self).ne_nil
  cases rest with
  | nil => simpa [join] using hp
  | cons q rest =>
    rw [join,List.intercalate_cons_cons]
    exact List.append_ne_nil_of_left_ne_nil (List.append_ne_nil_of_left_ne_nil hp _) _

theorem queryOf_injective (hxs : ∀ p ∈ xs, Plain p) (hys : ∀ p ∈ ys, Plain p) : queryOf xs = queryOf ys ↔ xs = ys := by
  have hsplit : ∀ {zs : List Str}, (∀ p ∈ zs, Plain p) → zs ≠ [] → (join zs).splitOn '&' = zs :=
    fun hzs hne => Joined.splitOn_join (fun p hp hmem => ((hzs p hp).chars _ hmem).2 rfl) hne
  constructor
  · intro h
    rw [queryOf,queryOf] at h
    split_ifs at h with hx hy
    · rw [List.isEmpty_iff.mp hx,List.isEmpty_iff.mp hy]
    · rw [List.isEmpty_iff] at hx
      rename_i hy
      rw [List.isEmpty_iff] at hy
      rw [← hsplit hxs hx,← hsplit hys hy,Option.some.inj h]
  · rintro rfl
    rfl

/-- What the URI is rebuilt with is its query. -/
theorem rebuild_query (hlib : lib.Lawful) {q : Str} (hq : q.all isQueryChar = true) (uri : Uri) :
    (rebuild lib uri q).map Uri.query = some (if q.isEmpty then none else some q) := by
  rw [rebuild]
  cases q with
  | nil => exact hlib.path uri
  | cons c q => exact hlib.query uri (c :: q) (List.cons_ne_nil c q) hq

theorem plain_carriedAndEmitted (hnamed : TargetsNamed ops) : ∀ p ∈ carriedAndEmitted ops uri, Plain p := by
  intro p hp
  obtain hp | hp := List.mem_append.mp hp
  · obtain ⟨q,hq,rfl⟩ := List.mem_map.mp hp
    exact plain_relabel hnamed (plain_of_mem_pairsOf (List.mem_of_mem_filter (List.mem_of_mem_filter hq)))
  · obtain ⟨e,-,rfl⟩ := List.mem_map.mp hp
    exact plain_emit e

theorem all_join (hxs : ∀ p ∈ xs, Plain p) : (join xs).all isQueryChar = true := by
  refine List.all_eq_true.mpr fun c hc => ?_
  obtain rfl | ⟨p,hp,hc⟩ := Joined.mem_join hc
  · decide
  · exact ((hxs p hp).chars c hc).1

theorem forwardedQuery_eq (hlib : lib.Lawful) (hnamed : TargetsNamed ops) (uri : Uri) :
    forwardedQuery lib uri ops = queryOf (carriedAndEmitted ops uri) := by
  have hplain : ∀ p ∈ carriedAndEmitted ops uri, Plain p := plain_carriedAndEmitted hnamed
  have hrebuild : ∀ {q : Str}, q.all isQueryChar = true → ((rebuild lib uri q).getD uri).query = if q.isEmpty then none else some q := by
    intro q hq
    obtain ⟨uri',huri',hquery⟩ := Option.map_eq_some_iff.mp (rebuild_query hlib hq uri)
    rw [huri']
    exact hquery
  have hjoined : carriedAndEmitted ops uri ≠ [] →
      ((rebuild lib uri (join (carriedAndEmitted ops uri))).getD uri).query = queryOf (carriedAndEmitted ops uri) := by
    intro hne
    rw [hrebuild (all_join hplain),queryOf,if_neg (by simpa using join_ne_nil hplain hne),if_neg (by simpa using hne)]
  rw [forwardedQuery,applyQueryOps]
  cases hquery : uri.query with
  | none =>
    have hall : carriedAndEmitted ops uri = emitted ops := by simp [carriedAndEmitted,kept,pairsOf,hquery]
    rw [← hall]
    dsimp only
    split_ifs with hempty
    · rw [List.isEmpty_iff.mp hempty]
      exact hquery
    · exact hjoined (by simpa using hempty)
  | some original =>
    have hall : (original.splitOn '&').filterMap (carry ops) ++ emitted ops = carriedAndEmitted ops uri := by
      rw [filterMap_carry,carriedAndEmitted,kept,pairsOf,hquery]
      rfl
    dsimp only
    rw [hall]
    split_ifs with hempty hsame
    · rw [hrebuild rfl,List.isEmpty_iff.mp hempty]
      rfl
    · rw [queryOf,if_neg hempty,hsame]
      exact hquery
    · exact hjoined (by simpa using hempty)

end Queries

section Order
variable {lib : UriLib} {ops : QueryOps} {uri : Uri}

private theorem filter_of_imp {α : Type} {f g : α → Bool} {xs : List α} (h : ∀ x ∈ xs, f x = true → g x = true) :
    xs.filter f = (xs.filter g).filter f := by
  rw [List.filter_filter]
  refine List.filter_congr fun x hx => ?_
  cases hf : f x with
  | true =>
    rw [h x hx hf]
    rfl
  | false => simp

/-- Of two filters the narrower one leaves as much only if both leave the same. -/
private theorem of_length_filter_le {α : Type} {f g : α → Bool} {xs : List α} (h : ∀ x ∈ xs, f x = true → g x = true)
    (hlen : (xs.filter g).length ≤ (xs.filter f).length) : ∀ x ∈ xs, f x = g x := by
  rw [filter_of_imp h] at hlen
  have hall := List.length_filter_eq_length_iff.mp (le_antisymm (List.length_filter_le f _) hlen)
  intro x hx
  cases hg : g x with
  | true => exact hall x (List.mem_filter.mpr ⟨hx,hg⟩)
  | false =>
    cases hf : f x with
    | true => exact absurd (h x hx hf) (by simp [hg])
    | false => rfl

/-- The passes leave the pairs that are set and added just as they are when these are alone. -/
theorem emittedAlone_iff : EmittedAlone ops ↔ ((emitted ops).map (relabel ops)).filter (! removed ops ·) = emitted ops := by
  constructor
  · intro h
    have hmap : (emitted ops).map (relabel ops) = emitted ops :=
      (List.map_congr_left fun e he => (h e he).2).trans (List.map_id _)
    rw [hmap,List.filter_eq_self]
    exact fun e he => by simp [(h e he).1]
  · intro h
    have hall := List.length_filter_eq_length_iff.mp ((congrArg List.length h).trans (List.length_map _).symm)
    have hmap : (emitted ops).map (relabel ops) = emitted ops := (List.filter_eq_self.mpr hall).symm.trans h
    rw [hmap] at hall
    exact fun e he => ⟨by simpa using hall e he,List.map_inj_left.mp (hmap.trans (List.map_id _).symm) e he⟩

/-- The pairs that stay are the same either way when renames lead from what is removed to what is. -/
theorem kept_eq (h : RenamesAlike ops uri) :
    ((kept ops uri).map (relabel ops)).filter (! removed ops ·) = ((kept ops uri).filter (! removed ops ·)).map (relabel ops) := by
  rw [List.filter_map]
  refine congrArg (List.map _) (List.filter_congr fun p hp => ?_)
  exact congrArg (! ·) (h p hp)

/-- The length of what the passes leave of the pairs, and what is carried of them. -/
private theorem length_kept (f : Str → Bool) :
    (((kept ops uri).map (relabel ops)).filter f).length = ((kept ops uri).filter (f ∘ relabel ops)).length := by
  rw [List.filter_map,List.length_map]

/-- Unless a rename saves a pair while others are at work on what is emitted, the code agrees with the
passes just when neither rename nor removal is about what is emitted and no rename leads into or out
of what is removed. -/
theorem inOrder_iff (h : EmittedAlone ops ∨ ¬ BroughtBack ops uri) :
    carriedAndEmitted ops uri = inOrder ops (pairsOf uri.query) ↔ EmittedAlone ops ∧ RenamesAlike ops uri := by
  rw [inOrder_eq,carriedAndEmitted]
  constructor
  · intro heq
    have hlen := congrArg List.length heq
    rw [List.length_append,List.length_append,List.length_map,length_kept] at hlen
    obtain halone | hnone := h
    · -- what is carried is not removed, so the passes leave it too
      refine ⟨halone,fun p hp => ?_⟩
      rw [emittedAlone_iff.mp halone] at heq hlen
      have hcarried : ∀ p ∈ kept ops uri, (! removed ops p) = true → ((! removed ops ·) ∘ relabel ops) p = true := by
        intro p hp hremoved
        have hmem : relabel ops p ∈ ((kept ops uri).filter (! removed ops ·)).map (relabel ops) :=
          List.mem_map_of_mem (List.mem_filter.mpr ⟨hp,hremoved⟩)
        rw [List.append_cancel_right heq] at hmem
        exact (List.mem_filter.mp hmem).2
      have hsame := of_length_filter_le hcarried (by omega) p hp
      simpa using hsame.symm
    · have hback : ∀ p ∈ kept ops uri, ((! removed ops ·) ∘ relabel ops) p = true → (! removed ops p) = true := by
        intro p hp hkept
        cases hremoved : removed ops p with
        | false => rfl
        | true => exact absurd ⟨p,hp,hremoved,by simpa using hkept⟩ hnone
      have hemitted : (((emitted ops).map (relabel ops)).filter (! removed ops ·)).length ≤ (emitted ops).length :=
        (List.length_filter_le _ _).trans (List.length_map _).le
      have hfewer : ((kept ops uri).filter ((! removed ops ·) ∘ relabel ops)).length ≤ ((kept ops uri).filter (! removed ops ·)).length := by
        rw [filter_of_imp hback]
        exact List.length_filter_le _ _
      have halike : RenamesAlike ops uri := by
        intro p hp
        have hsame := of_length_filter_le hback (by omega) p hp
        simpa using hsame
      refine ⟨emittedAlone_iff.mpr ?_,halike⟩
      rw [kept_eq halike] at heq
      exact (List.append_cancel_left heq).symm
  · rintro ⟨halone,halike⟩
    rw [kept_eq halike,emittedAlone_iff.mp halone]

theorem plain_inOrder (hnamed : TargetsNamed ops) : ∀ p ∈ inOrder ops (pairsOf uri.query), Plain p := by
  intro p hp
  rw [inOrder_eq,← List.filter_append,← List.map_append] at hp
  obtain ⟨q,hq,rfl⟩ := List.mem_map.mp (List.mem_of_mem_filter hp)
  apply plain_relabel hnamed
  obtain hq | hq := List.mem_append.mp hq
  · exact plain_of_mem_pairsOf (List.mem_of_mem_filter hq)
  · obtain ⟨e,-,rfl⟩ := List.mem_map.mp hq
    exact plain_emit e

theorem followsOrder_iff (hlib : lib.Lawful) (hnamed : TargetsNamed ops) :
    FollowsOrder ops lib uri ↔ carriedAndEmitted ops uri = inOrder ops (pairsOf uri.query) := by
  rw [FollowsOrder,forwardedQuery_eq hlib hnamed]
  exact queryOf_injective (plain_carriedAndEmitted hnamed) (plain_inOrder hnamed)

end Order

theorem slash_plain : '?' ∉ ['/'] ∧ '#' ∉ ['/'] := by decide

/-- A request without a query. -/
def bare : Uri := ⟨['/'],none,slash_plain,rfl⟩

/-- The operations follow their order on every request just when neither a rename nor a removal is about
a pair that is set or added, and renames lead from keys that are removed to such keys and from others to
others. On one request the same is exact, unless a rename saves a pair of it from being removed while the
operations are at work on what they emit. -/
theorem query_follows_order_iff (lib : UriLib) (hlib : lib.Lawful) (route field : String) (ops : QueryOps)
    (hvalid : validateQueryOps route field ops = []) :
    ((∀ uri, FollowsOrder ops lib uri) ↔ ∀ uri, EmittedAlone ops ∧ RenamesAlike ops uri) ∧
      ∀ uri, EmittedAlone ops ∨ ¬ BroughtBack ops uri → (FollowsOrder ops lib uri ↔ EmittedAlone ops ∧ RenamesAlike ops uri) := by
  have hnamed := targetsNamed_of_valid hvalid
  have hone : ∀ uri, EmittedAlone ops ∨ ¬ BroughtBack ops uri → (FollowsOrder ops lib uri ↔ EmittedAlone ops ∧ RenamesAlike ops uri) :=
    fun uri h => (followsOrder_iff hlib hnamed).trans (inOrder_iff h)
  refine ⟨⟨fun h => ?_,fun h uri => (hone uri (.inl (h uri).1)).mpr (h uri)⟩,hone⟩
  -- a request without a query has no pair to save
  have halone : EmittedAlone ops := ((hone bare (.inr (by simp [BroughtBack,kept,pairsOf,bare]))).mp (h bare)).1
  exact fun uri => (hone uri (.inl halone)).mp (h uri)

section Splitting

def plainUri (path : Str) (query : Option Str) : Option Uri :=
  if h : ('?' ∉ path ∧ '#' ∉ path) ∧ query.all (·.all isQueryChar) = true then some ⟨path,query,h.1,h.2⟩ else none

/-- The path is what stands before the first question mark, the query what stands behind it. -/
def splitting : UriLib where
  withPathAndQuery _ pathAndQuery :=
    plainUri (pathAndQuery.takeWhile (· ≠ '?')) (match pathAndQuery.dropWhile (· ≠ '?') with
      | [] => none
      | _ :: query => some query)

theorem splitting_lawful : splitting.Lawful := by
  have hpath : ∀ uri : Uri, ∀ c ∈ uri.path, decide (c ≠ '?') = true := by
    intro uri c hc
    rw [decide_eq_true_eq]
    rintro rfl
    exact uri.path_plain.1 hc
  constructor
  · intro uri
    have htake : uri.path.takeWhile (· ≠ '?') = uri.path := List.takeWhile_eq_self_iff.mpr (hpath uri)
    have hdrop : uri.path.dropWhile (· ≠ '?') = [] := List.dropWhile_eq_nil_iff.mpr (hpath uri)
    change (plainUri _ _).map Uri.query = _
    rw [htake,hdrop,plainUri,dif_pos ⟨uri.path_plain,rfl⟩]
    rfl
  · intro uri q _ hq
    have htake : (uri.path ++ '?' :: q).takeWhile (· ≠ '?') = uri.path := by
      rw [List.takeWhile_append_of_pos (hpath uri),List.takeWhile_cons_of_neg (by decide),List.append_nil]
    have hdrop : (uri.path ++ '?' :: q).dropWhile (· ≠ '?') = '?' :: q := by
      rw [List.dropWhile_append_of_pos (hpath uri),List.dropWhile_cons_of_neg (by decide)]
    change (plainUri _ _).map Uri.query = _
    rw [htake,hdrop,plainUri,dif_pos ⟨uri.path_plain,hq⟩]
    rfl

theorem sorted_singleton (e : Str × Str) : ([e].map Prod.fst).Pairwise (· < ·) := List.pairwise_singleton _ _

def single (key value : String) : BTreeMap := ⟨[(key.toList,value.toList)],sorted_singleton _⟩

/-- `set: region`, `add: source`, `remove: drop`, `rename: uid`. -/
def regional : QueryOps := ⟨single "region" "us-east",single "source" "gw",["drop".toList],single "uid" "user_id"⟩

theorem regional_query_plain : (some "uid=7&keep=%2Fpath&z=1&drop=9".toList).all (·.all isQueryChar) = true := by decide

theorem query_follows_order_regional :
    FollowsOrder regional splitting ⟨['/'],some "uid=7&keep=%2Fpath&z=1&drop=9".toList,slash_plain,regional_query_plain⟩ :=
  ((query_follows_order_iff splitting splitting_lawful "r" "query" regional (by decide)).2 _ (.inl (by unfold EmittedAlone; decide))).mpr
    ⟨by unfold EmittedAlone; decide,by unfold RenamesAlike; decide⟩

/-- A pair is renamed to a key that is removed, and stays. -/
def renamedInto : QueryOps := { remove := ["b".toList], rename := single "a" "b" }

theorem query_a_plain : (some "a=1".toList).all (·.all isQueryChar) = true := by decide

theorem query_keeps_removed :
    validateQueryOps "r" "query" renamedInto = [] ∧ ¬ FollowsOrder renamedInto splitting ⟨['/'],some "a=1".toList,slash_plain,query_a_plain⟩ ∧
      forwardedQuery splitting ⟨['/'],some "a=1".toList,slash_plain,query_a_plain⟩ renamedInto = some "b=1".toList := by
  refine ⟨by decide,?_,by decide⟩
  unfold FollowsOrder
  decide

end Splitting

end Dwara.Dataplane.Transforms
