import Dwara.Dataplane.CacheEnvelope
import Dwara.Dataplane.CacheLifetimes
import Dwara.Lib.BodyStream

/-! The response that a miss delivers, and the one that the cache replays of it later. -/

namespace Dwara.Dataplane.CacheFidelity
open Dwara.Config Dwara.Lib Dwara.Lib.Text Dwara.Snapshot
open BodyStream (Body)
open CacheEnvelope (Bytes EntryEnvelope)
open CacheKeys (HeaderValue isValueByte isVisibleAscii)
open CacheLifetimes (compilePolicy storeVeto storedLifetimes)
open ResponseCache (CompiledRouteCache stripWeak)

section Headers

def asciiLower (b : UInt8) : UInt8 := if 65 ≤ b.toNat && b.toNat ≤ 90 then b + 32 else b

/-- The bytes that the name of a header may have. -/
def isNameByte (b : UInt8) : Bool :=
  (48 ≤ b.toNat && b.toNat ≤ 57) || (65 ≤ b.toNat && b.toNat ≤ 90) || (97 ≤ b.toNat && b.toNat ≤ 122) ||
    [33,35,36,37,38,39,42,43,45,46,94,95,96,124,126].contains b

def maxHeaderNameLen : ℕ := 65535

/-- A header name of some bytes, in lowercase. -/
def headerName (bs : Bytes) : Option String :=
  if bs ≠ [] ∧ bs.length ≤ maxHeaderNameLen ∧ bs.all isNameByte then
    some (String.ofList (bs.map fun b => Char.ofNat (asciiLower b).toNat))
  else none

/-- A name as the map of headers keeps it. -/
def IsHeaderName (s : String) : Prop := headerName (bytes s) = some s

def headerValue (bs : Bytes) : Option HeaderValue := if h : bs.all isValueByte = true then some ⟨bs,h⟩ else none

def headerText (s : String) : Option HeaderValue :=
  if (bytes s).all isVisibleAscii then headerValue (bytes s) else none

abbrev Headers := HeaderMap String HeaderValue

/-- A value in place of all of the header's, where it is one. -/
def insertText (headers : Headers) (name text : String) : Headers :=
  match headerText text with
  | some v => headers.insert name v
  | none => headers

def mergeVary (headers : Headers) (token : String) : Headers :=
  let lines := (headers.getAll "vary").filterMap HeaderValue.toStr
  if lines.any fun existing => (split ',' existing).any fun t => eqIgnoreAsciiCase (trim t) token then headers
  else
    let merged := lines.foldl (fun merged existing => (if merged = "" then merged else merged ++ ", ") ++ existing) ""
    insertText headers "vary" (if merged = "" then token else merged ++ ", " ++ token)

end Headers

structure Response where
  status : UInt16
  headers : Headers
  body : Bytes

def stamp (resp : Response) (outcome : String) : Response := { resp with headers := insertText resp.headers "x-cache" outcome }

def stampAge (resp : Response) (ageMs : UInt64) : Response :=
  { resp with headers := insertText resp.headers "age" (toString (ageMs / 1000)) }

section Store
variable {ε : Type}

inductive CollectError (ε : Type) where
  | overCap (read : Bytes) (rest : Body ε)
  | stream (e : ε)

/-- The bytes of a body up to the cap; trailing fields are dropped. -/
def collectCapped (cap : ℕ) : Bytes → Body ε → Except (CollectError ε) Bytes
  | buf, .done => .ok buf
  | _, .stuck e => .error (.stream e)
  | _, .fault e _ => .error (.stream e)
  | buf, .frame (.trailers _) rest => collectCapped cap buf rest
  | buf, .frame (.data data) rest =>
    if cap < buf.length + data.length then .error (.overCap (buf ++ data) rest) else collectCapped cap (buf ++ data) rest

def deniedStorageHeaders : List String :=
  ["content-length","transfer-encoding","connection","keep-alive","te","trailer","upgrade","proxy-connection","proxy-authenticate",
    "proxy-authorization","age","vary","cache-control","cache-tags","expires","set-cookie","x-cache","x-request-id",
    "x-ratelimit-limit","x-ratelimit-remaining","x-ratelimit-reset"]

def isDeniedStorageHeader (name : String) : Bool := deniedStorageHeaders.contains name

/-- The headers that are stored. -/
def sanitizeHeaders (headers : Headers) (preserveContentLength : Bool) : List (Bytes × Bytes) :=
  (headers.filter fun line => !isDeniedStorageHeader line.1 || preserveContentLength && eqIgnoreAsciiCase line.1 "content-length").map
    fun line => (bytes line.1,line.2.bytes)

/-- What the store stage needs of one request. -/
structure MissFlow where
  isHead : Bool
  epoch : UInt64
  policy : CompiledRouteCache

/-- A response at the store stage: the names are header names, and there are no more lines than a map can hold. -/
structure Fetched (ε : Type) where
  status : UInt16
  headers : Headers
  body : Body ε
  names : ∀ line ∈ headers, IsHeaderName line.1
  count_le : headers.length ≤ 32768
  values_lt : ∀ line ∈ headers, line.2.bytes.length < 2^32

def entryOf (flow : MissFlow) (resp : Fetched ε) (body : Bytes) (now : UInt64) : EntryEnvelope :=
  let lifetimes := (storedLifetimes resp.headers flow.policy).value
  { epoch := flow.epoch
    storedAtMs := now
    status := resp.status
    freshnessTtlMs := lifetimes.freshnessTtlMs
    staleIfErrorMs := lifetimes.staleIfErrorMs
    headers := sanitizeHeaders resp.headers flow.isHead
    body := body }

/-- The buffered response as the client of the miss gets it. -/
def liveResponse (resp : Fetched ε) (body : Bytes) : Response :=
  let headers := insertText resp.headers "content-length" (toString body.length)
  let headers := ((headers.remove "cache-tags").remove "cache-control").remove "expires"
  stamp ⟨resp.status,headers,body⟩ "miss"

/-- A fresh response that is stored: what the store keeps, and what the client gets. -/
def storeFresh (flow : MissFlow) (resp : Fetched ε) (now : UInt64) : Except (CollectError ε) (Bytes × Response) :=
  (collectCapped flow.policy.maxBodyBytes [] resp.body).map fun body => ((entryOf flow resp body now).encode,liveResponse resp body)

end Store

section Replay

def eqIgnoreCase (a b : Bytes) : Bool := a.map asciiLower = b.map asciiLower

def entryHeader (e : EntryEnvelope) (name : String) : Option Bytes :=
  (e.headers.find? fun line => eqIgnoreCase line.1 (bytes name)).map (·.2)

def headerLine (line : Bytes × Bytes) : Option (String × HeaderValue) := do
  let name ← headerName line.1
  let value ← headerValue line.2
  return (name,value)

/-- The headers with the length of the body, where none is stored. -/
def withContentLength (entry : EntryEnvelope) (headers : Headers) : Option Headers :=
  if entry.headers.any fun line => eqIgnoreCase line.1 (bytes "content-length") then some headers
  else (headerText (toString entry.body.length)).map fun v => HeaderMap.append headers "content-length" v

/-- The response of an entry. -/
def responseFromEntry (entry : EntryEnvelope) (policy : CompiledRouteCache) : Option Response := do
  if entry.status < 100 ∨ 1000 ≤ entry.status then none
  else
    let headers ← entry.headers.mapM headerLine
    let headers ← withContentLength entry headers
    return ⟨entry.status,policy.vary.foldl mergeVary headers,entry.body⟩

def inmMatches (inm : String) (etag : Option String) : Bool :=
  etag.any fun etag => (split ',' inm).any fun token => trim token = "*" || stripWeak (trim token) = stripWeak etag

def lossy (bs : Bytes) : String := String.ofList (Utf8.fromUtf8Lossy bs)

/-- The answer to a client that has the entry. -/
def notModified (policy : CompiledRouteCache) (entry : EntryEnvelope) (ageMs : UInt64) : Response :=
  let etag := ((entryHeader entry "etag").bind fun b => headerValue (bytes (lossy b))).map ("etag",·)
  let date := ((entryHeader entry "date").bind headerValue).map ("date",·)
  stamp (stampAge ⟨304,policy.vary.foldl mergeVary (etag.toList ++ date.toList),[]⟩ ageMs) "hit"

def serveFromEntry (policy : CompiledRouteCache) (entry : EntryEnvelope) (ageMs : UInt64) (clientInm : Option HeaderValue)
    (outcome : String) : Option Response :=
  if (clientInm.bind HeaderValue.toStr).any fun inm => inmMatches inm ((entryHeader entry "etag").map lossy) then
    some (notModified policy entry ageMs)
  else (responseFromEntry entry policy).map fun resp => stamp (stampAge resp ageMs) outcome

def serveHeadFromEntry (policy : CompiledRouteCache) (entry : EntryEnvelope) (ageMs : UInt64) (outcome : String) : Option Response :=
  (responseFromEntry entry policy).map fun resp =>
    stamp (stampAge { resp with headers := policy.vary.foldl mergeVary resp.headers, body := [] } ageMs) outcome

/-- The answer to a later request from what the store keeps. -/
def hit (isHead : Bool) (policy : CompiledRouteCache) (stored : Bytes) (ageMs : UInt64) (clientInm : Option HeaderValue) : Option Response :=
  (EntryEnvelope.decode stored).bind fun entry =>
    if isHead then serveHeadFromEntry policy entry ageMs "hit" else serveFromEntry policy entry ageMs clientInm "hit"

end Replay

/-- The headers between two hops, and those that the gateway owns. -/
def isGatewayOwned (name : String) : Bool :=
  ["connection","keep-alive","proxy-authenticate","proxy-authorization","proxy-connection","te","trailer","transfer-encoding","upgrade",
    "age","x-cache","vary","cache-control","expires","cache-tags","x-request-id","x-ratelimit-limit","x-ratelimit-remaining",
    "x-ratelimit-reset"].contains name

/-- Two responses have the same headers from end to end. -/
def SameHeaders (r r' : Response) : Prop := ∀ name, isGatewayOwned name = false → r.headers.getAll name = r'.headers.getAll name

structure SameReply (r r' : Response) : Prop where
  status : r.status = r'.status
  body : r.body = r'.body
  headers : SameHeaders r r'

section Names
variable {s : String}

theorem asciiLower_lt {b : UInt8} (h : isNameByte b = true) : (asciiLower b).toNat < 128 := by
  have hall : ∀ n : Fin 256, isNameByte (UInt8.ofNat n.val) = true → (asciiLower (UInt8.ofNat n.val)).toNat < 128 := by decide +kernel
  have hb := hall ⟨b.toNat,b.toNat_lt⟩
  rw [UInt8.ofNat_toNat] at hb
  exact hb h

theorem IsHeaderName.lower (h : IsHeaderName s) : (bytes s).map asciiLower = bytes s ∧ (bytes s).length ≤ maxHeaderNameLen := by
  rw [IsHeaderName,headerName] at h
  split at h
  · rename_i hname
    obtain ⟨-,hlength,hall⟩ := hname
    refine ⟨?_,hlength⟩
    have hs : bytes s = bytes (String.ofList ((bytes s).map fun b => Char.ofNat (asciiLower b).toNat)) :=
      congrArg bytes (Option.some.inj h).symm
    have hascii : bytes s = (bytes s).map asciiLower := by
      refine hs.trans ((CacheKeys.bytes_ofList _).trans ?_)
      have hencode := CacheKeys.encode_ascii (l := (bytes s).map asciiLower) fun b hb => by
        obtain ⟨c,hc,rfl⟩ := List.mem_map.mp hb
        exact asciiLower_lt (List.all_eq_true.mp hall c hc)
      rwa [List.map_map] at hencode
    exact hascii.symm
  · cases h

/-- Names in lowercase are the same where their bytes are, in whatever case. -/
theorem eqIgnoreCase_iff (h : IsHeaderName s) : eqIgnoreCase (bytes s) (bytes "content-length") = true ↔ s = "content-length" := by
  have hlength : (bytes "content-length").map asciiLower = bytes "content-length" := by decide
  rw [eqIgnoreCase,h.lower.1,hlength,decide_eq_true_iff]
  exact ⟨fun heq => CacheGenerations.bytes_injective heq,congrArg bytes⟩

theorem headerValue_bytes (v : HeaderValue) : headerValue v.bytes = some v := dif_pos v.valid

/-- Decimal digits are a header value. -/
theorem headerText_toString (n : ℕ) : ∃ v, headerText (toString n) = some v := by
  have hdigit : ∀ c ∈ Nat.toDigits 10 n, 48 ≤ c.toNat ∧ c.toNat ≤ 57 := fun c hc => by
    have hc := Nat.isDigit_of_mem_toDigits (by decide) (by decide) hc
    simp only [Char.isDigit,Bool.and_eq_true,decide_eq_true_eq] at hc
    exact ⟨UInt32.le_iff_toNat_le.mp hc.1,UInt32.le_iff_toNat_le.mp hc.2⟩
  have hback : ((Nat.toDigits 10 n).map fun c => UInt8.ofNat c.toNat).map (fun b => Char.ofNat b.toNat) = Nat.toDigits 10 n := by
    rw [List.map_map]
    refine (List.map_congr_left fun c hc => ?_).trans (List.map_id _)
    have := hdigit c hc
    rw [Function.comp_apply,UInt8.toNat_ofNat_of_lt' (by show c.toNat < 256; omega),Char.ofNat_toNat,id]
  have hbytes : bytes (toString n) = (Nat.toDigits 10 n).map fun c => UInt8.ofNat c.toNat := by
    rw [Nat.toString_eq_ofList_toDigits,CacheKeys.bytes_ofList]
    conv_lhs => rw [← hback]
    refine CacheKeys.encode_ascii fun b hb => ?_
    obtain ⟨c,hc,rfl⟩ := List.mem_map.mp hb
    have := hdigit c hc
    rw [UInt8.toNat_ofNat_of_lt' (by show c.toNat < 256; omega)]
    omega
  have hvisible : ∀ b ∈ bytes (toString n), 48 ≤ b.toNat ∧ b.toNat ≤ 57 := fun b hb => by
    rw [hbytes] at hb
    obtain ⟨c,hc,rfl⟩ := List.mem_map.mp hb
    have := hdigit c hc
    rwa [UInt8.toNat_ofNat_of_lt' (by show c.toNat < 256; omega)]
  have hall : (bytes (toString n)).all isVisibleAscii = true := List.all_eq_true.mpr fun b hb => by
    have := hvisible b hb
    exact CacheKeys.isVisibleAscii_iff.mpr (.inl (by omega))
  have hvalue : (bytes (toString n)).all isValueByte = true := List.all_eq_true.mpr fun b hb => by
    have := hvisible b hb
    simp only [isValueByte,Bool.or_eq_true,Bool.and_eq_true,decide_eq_true_eq,bne_iff_ne]
    omega
  exact ⟨⟨_,hvalue⟩,by rw [headerText,if_pos hall,headerValue,dif_pos hvalue]⟩

end Names

section Lines
variable {headers : Headers} {name key text : String}

theorem getAll_insertText_of_ne (h : name ≠ key) : (insertText headers key text).getAll name = headers.getAll name := by
  rw [insertText]
  split
  · exact HeaderMap.getAll_insert headers h
  · rfl

theorem getAll_insertText_self {v : HeaderValue} (h : headerText text = some v) : (insertText headers name text).getAll name = [v] := by
  rw [insertText,h]
  exact HeaderMap.getAll_insert_self headers

theorem getAll_mergeVary (h : name ≠ "vary") (token : String) : (mergeVary headers token).getAll name = headers.getAll name := by
  rw [mergeVary]
  split
  · rfl
  · exact getAll_insertText_of_ne h

theorem getAll_foldl_mergeVary (h : name ≠ "vary") (tokens : List String) (headers : Headers) :
    (tokens.foldl mergeVary headers).getAll name = headers.getAll name := by
  induction tokens generalizing headers with
  | nil => rfl
  | cons token tokens ih => exact (ih _).trans (getAll_mergeVary h token)

theorem collectCapped_ok {ε : Type} {cap : ℕ} {buf body' : Bytes} {body : Body ε} (hbuf : buf.length ≤ cap)
    (h : collectCapped cap buf body = .ok body') : body' = buf ++ body.bytes ∧ body'.length ≤ cap := by
  induction body generalizing buf with
  | done =>
    cases h
    exact ⟨(List.append_nil _).symm,hbuf⟩
  | stuck e => cases h
  | fault e rest ih => cases h
  | frame f rest ih =>
    cases f with
    | trailers fields => exact ih hbuf h
    | data data =>
      rw [collectCapped] at h
      split at h
      · cases h
      · rename_i hle
        obtain ⟨rfl,hlength⟩ := ih (by rw [List.length_append]; exact Nat.le_of_not_lt hle) h
        exact ⟨List.append_assoc _ _ _,hlength⟩

end Lines

section Entries
variable {ε : Type} {resp : Fetched ε} {flow : MissFlow} {body : Bytes} {now : UInt64} {policy : CompiledRouteCache} {name : String}

/-- The names that are stored. -/
def isStored (isHead : Bool) (name : String) : Bool := !isDeniedStorageHeader name || isHead && eqIgnoreAsciiCase name "content-length"

theorem sanitizeHeaders_eq (headers : Headers) (isHead : Bool) : sanitizeHeaders headers isHead =
    (HeaderMap.keep (isStored isHead) headers).map fun line => (bytes line.1,line.2.bytes) := rfl

/-- What is stored of the headers is read back. -/
theorem mapM_headerLine {headers : Headers} (h : ∀ line ∈ headers, IsHeaderName line.1) :
    (headers.map fun line => (bytes line.1,line.2.bytes)).mapM headerLine = some headers := by
  induction headers with
  | nil => rfl
  | cons line headers ih =>
    obtain ⟨hline,hrest⟩ := List.forall_mem_cons.mp h
    have hname : headerName (bytes line.1) = some line.1 := hline
    rw [List.map_cons,List.mapM_cons,ih hrest,headerLine,hname,headerValue_bytes]
    rfl

theorem fits_entryOf (hcap : flow.policy.maxBodyBytes < 2^32) (h : collectCapped flow.policy.maxBodyBytes [] resp.body = .ok body) :
    (entryOf flow resp body now).Fits := by
  have hcount : (entryOf flow resp body now).headers.length ≤ resp.headers.length := by
    show (sanitizeHeaders resp.headers flow.isHead).length ≤ _
    rw [sanitizeHeaders,List.length_map]
    exact List.length_filter_le _ _
  refine ⟨?_,fun line hline => ?_,?_⟩
  · have := resp.count_le
    omega
  · obtain ⟨l,hl,rfl⟩ := List.mem_map.mp hline
    have hmem := List.mem_of_mem_filter hl
    refine ⟨?_,resp.values_lt l hmem⟩
    have hlength : (bytes l.1).length ≤ 65535 := (resp.names l hmem).lower.2
    show (bytes l.1).length < 2^32
    omega
  · have := (collectCapped_ok (Nat.zero_le _) h).2
    show body.length < 2^32
    omega

/-- The lines of a response that are stored. -/
def kept (flow : MissFlow) (resp : Fetched ε) : Headers := HeaderMap.keep (isStored flow.isHead) resp.headers

theorem kept_names : ∀ line ∈ kept flow resp, IsHeaderName line.1 := fun line hline => resp.names line (List.mem_of_mem_filter hline)

theorem storesLength_iff : ((entryOf flow resp body now).headers.any fun line => eqIgnoreCase line.1 (bytes "content-length")) = true ↔
    (kept flow resp).getAll "content-length" ≠ [] := by
  show ((sanitizeHeaders resp.headers flow.isHead).any _) = true ↔ _
  rw [sanitizeHeaders_eq,List.any_map,List.any_eq_true,HeaderMap.getAll,Ne,List.map_eq_nil_iff,List.filter_eq_nil_iff]
  push Not
  constructor
  · rintro ⟨line,hline,heq⟩
    exact ⟨line,hline,decide_eq_true ((eqIgnoreCase_iff (kept_names line hline)).mp heq)⟩
  · rintro ⟨line,hline,heq⟩
    exact ⟨line,hline,(eqIgnoreCase_iff (kept_names line hline)).mpr (of_decide_eq_true heq)⟩

/-- The rebuilt response has the lines that were stored, and the length of the body where none was. -/
theorem responseFromEntry_entryOf (hstatus : resp.status = 200) {v : HeaderValue} (hv : headerText (toString body.length) = some v) :
    ∃ r, responseFromEntry (entryOf flow resp body now) policy = some r ∧ r.status = resp.status ∧ r.body = body ∧
      ∀ name, name ≠ "vary" → r.headers.getAll name =
        if name = "content-length" ∧ (kept flow resp).getAll name = [] then [v] else (kept flow resp).getAll name := by
  have hlines : (entryOf flow resp body now).headers.mapM headerLine = some (kept flow resp) := mapM_headerLine kept_names
  have hvalid : ¬ ((entryOf flow resp body now).status < 100 ∨ 1000 ≤ (entryOf flow resp body now).status) := by
    show ¬ (resp.status < 100 ∨ 1000 ≤ resp.status)
    rw [hstatus]
    decide
  have hbuild : ∀ headers, withContentLength (entryOf flow resp body now) (kept flow resp) = some headers →
      responseFromEntry (entryOf flow resp body now) policy = some ⟨resp.status,policy.vary.foldl mergeVary headers,body⟩ := by
    intro headers hheaders
    rw [responseFromEntry,if_neg hvalid,hlines,Option.bind_eq_bind,Option.bind_some,hheaders]
    rfl
  by_cases hlength : (kept flow resp).getAll "content-length" = []
  · have hheaders : withContentLength (entryOf flow resp body now) (kept flow resp) =
        some (HeaderMap.append (kept flow resp) "content-length" v) := by
      rw [withContentLength,if_neg fun h => storesLength_iff.mp h hlength]
      exact congrArg (Option.map _) hv
    refine ⟨_,hbuild _ hheaders,rfl,rfl,fun name hname => (getAll_foldl_mergeVary hname _ _).trans ?_⟩
    by_cases hcl : name = "content-length"
    · subst hcl
      rw [if_pos ⟨rfl,hlength⟩,HeaderMap.getAll_append_self,hlength]
      rfl
    · rw [if_neg fun h => hcl h.1]
      exact HeaderMap.getAll_append (kept flow resp) hcl
  · have hheaders : withContentLength (entryOf flow resp body now) (kept flow resp) = some (kept flow resp) :=
      if_pos (storesLength_iff.mpr hlength)
    refine ⟨_,hbuild _ hheaders,rfl,rfl,fun name hname => (getAll_foldl_mergeVary hname _ _).trans ?_⟩
    rw [if_neg]
    rintro ⟨rfl,hnone⟩
    exact hlength hnone

theorem denied_cases (hdenied : isDeniedStorageHeader name = true) (hname : isGatewayOwned name = false) :
    name = "content-length" ∨ name = "set-cookie" := by
  have hall : ∀ n ∈ deniedStorageHeaders, isGatewayOwned n = true ∨ n = "content-length" ∨ n = "set-cookie" := by decide
  rcases hall name (List.contains_iff_mem.mp hdenied) with howned | hcases
  · exact absurd (hname.symm.trans howned) Bool.false_ne_true
  · exact hcases

theorem setCookie_of_veto (h : storeVeto resp.headers policy = none) : resp.headers.getAll "set-cookie" = [] := by
  by_contra hcookie
  rw [storeVeto] at h
  simp only [ne_eq,hcookie,not_false_eq_true,if_true] at h
  cases h

/-- What is stored under a name that the gateway does not own. -/
theorem getAll_kept (hname : isGatewayOwned name = false) (hveto : storeVeto resp.headers flow.policy = none) :
    (kept flow resp).getAll name = if name = "content-length" ∧ flow.isHead = false then [] else resp.headers.getAll name := by
  cases hstored : isStored flow.isHead name with
  | true =>
    rw [kept,HeaderMap.getAll_keep resp.headers hstored,if_neg]
    rintro ⟨rfl,hget⟩
    rw [hget] at hstored
    exact absurd hstored (by decide)
  | false =>
    rw [kept,HeaderMap.getAll_keep_of_not resp.headers hstored]
    obtain ⟨hdenied,hhead⟩ : isDeniedStorageHeader name = true ∧ (flow.isHead && eqIgnoreAsciiCase name "content-length") = false := by
      simpa [isStored] using hstored
    rcases denied_cases hdenied hname with rfl | rfl
    · have hsame : eqIgnoreAsciiCase "content-length" "content-length" = true := by decide
      rw [hsame,Bool.and_true] at hhead
      rw [if_pos ⟨rfl,hhead⟩]
    · rw [if_neg fun h => absurd h.1 (by decide),setCookie_of_veto hveto]

theorem getAll_liveResponse (hname : isGatewayOwned name = false) {v : HeaderValue} (hv : headerText (toString body.length) = some v) :
    (liveResponse resp body).headers.getAll name = if name = "content-length" then [v] else resp.headers.getAll name := by
  have hne : ∀ key, isGatewayOwned key = true → name ≠ key := fun key hkey heq =>
    Bool.false_ne_true (hname.symm.trans (heq ▸ hkey))
  show (insertText _ "x-cache" "miss").getAll name = _
  refine (getAll_insertText_of_ne (hne "x-cache" (by decide))).trans ?_
  rw [HeaderMap.getAll_remove _ (hne "expires" (by decide)),HeaderMap.getAll_remove _ (hne "cache-control" (by decide)),
    HeaderMap.getAll_remove _ (hne "cache-tags" (by decide))]
  split
  · rename_i hlength
    rw [hlength]
    exact getAll_insertText_self hv
  · rename_i hother
    exact getAll_insertText_of_ne hother

end Entries

/-- A response of a route with an admitted policy that is stored. -/
structure Storable {ε : Type} (flow : MissFlow) (resp : Fetched ε) : Prop where
  policy : ∃ name cache accept cors, validateRouteCache name cache = [] ∧ flow.policy = compilePolicy cache accept cors
  status : resp.status = 200
  veto : storeVeto resp.headers flow.policy = none

theorem zero_valid : [48].all isValueByte = true := by decide

def zero : HeaderValue := ⟨[48],zero_valid⟩

theorem headerText_zero : headerText (toString 0) = some zero := rfl

section Replays
variable {ε : Type} {flow : MissFlow} {resp : Fetched ε} {now ageMs : UInt64} {stored : Bytes} {live : Response}
  {policy : CompiledRouteCache}

theorem SameHeaders.trans {r r' r'' : Response} (h : SameHeaders r r') (h' : SameHeaders r' r'') : SameHeaders r r'' :=
  fun name hname => (h name hname).trans (h' name hname)

theorem SameHeaders.symm {r r' : Response} (h : SameHeaders r r') : SameHeaders r' r := fun name hname => (h name hname).symm

theorem SameHeaders.congr_right {r r' r'' : Response} (h : SameHeaders r' r'') : SameHeaders r r' ↔ SameHeaders r r'' :=
  ⟨fun hr => hr.trans h,fun hr => hr.trans h.symm⟩

theorem sameHeaders_stamped (r : Response) (ageMs : UInt64) (outcome : String) : SameHeaders (stamp (stampAge r ageMs) outcome) r := by
  intro name hname
  have hne : ∀ key, isGatewayOwned key = true → name ≠ key := fun key hkey heq =>
    Bool.false_ne_true (hname.symm.trans (heq ▸ hkey))
  exact (getAll_insertText_of_ne (hne "x-cache" (by decide))).trans (getAll_insertText_of_ne (hne "age" (by decide)))

theorem storeFresh_ok (h : storeFresh flow resp now = .ok (stored,live)) :
    collectCapped flow.policy.maxBodyBytes [] resp.body = .ok resp.body.bytes ∧
      stored = (entryOf flow resp resp.body.bytes now).encode ∧ live = liveResponse resp resp.body.bytes := by
  rw [storeFresh] at h
  cases hbody : collectCapped flow.policy.maxBodyBytes [] resp.body with
  | error e =>
    rw [hbody] at h
    cases h
  | ok body =>
    obtain ⟨rfl,-⟩ := collectCapped_ok (Nat.zero_le _) hbody
    rw [hbody] at h
    cases h
    exact ⟨rfl,rfl,rfl⟩

theorem maxBodyBytes_lt (hs : Storable flow resp) : flow.policy.maxBodyBytes < 2^32 := by
  obtain ⟨name,cache,accept,cors,hcache,hpolicy⟩ := hs.policy
  rw [hpolicy]
  show cache.maxBodyBytes.toNat < 2^32
  rw [validateRouteCache] at hcache
  simp only [List.append_eq_nil_iff] at hcache
  obtain ⟨⟨⟨⟨-,hmax⟩,-⟩,-⟩,-⟩ := hcache
  by_cases hzero : cache.maxBodyBytes = 0
  · rw [hzero]
    decide
  · rw [if_neg hzero] at hmax
    by_cases hover : maxCacheMaxBodyBytes < cache.maxBodyBytes
    · rw [if_pos hover] at hmax
      cases hmax
    · have hle : cache.maxBodyBytes.toNat ≤ maxCacheMaxBodyBytes.toNat :=
        Nat.le_of_not_lt fun hlt => hover (UInt64.lt_iff_toNat_lt.mpr hlt)
      exact Nat.lt_of_le_of_lt hle (by decide)

/-- No length is stored but that of the body. -/
def StoresOwnLength (flow : MissFlow) (resp : Fetched ε) : Prop :=
  flow.isHead = true → resp.headers.getAll "content-length" = [] ∨
    ∃ v, headerText (toString resp.body.bytes.length) = some v ∧ resp.headers.getAll "content-length" = [v]

/-- What every hit is made of. -/
theorem rebuilt_of_stored (hs : Storable flow resp) (h : storeFresh flow resp now = .ok (stored,live)) (policy : CompiledRouteCache) :
    ∃ entry r, EntryEnvelope.decode stored = some entry ∧ responseFromEntry entry policy = some r ∧ r.status = live.status ∧
      r.body = live.body ∧ (SameHeaders live r ↔ StoresOwnLength flow resp) := by
  obtain ⟨hbody,rfl,rfl⟩ := storeFresh_ok h
  obtain ⟨v,hv⟩ := headerText_toString resp.body.bytes.length
  obtain ⟨r,hr,hstatus,hrbody,hheaders⟩ := @responseFromEntry_entryOf ε resp flow resp.body.bytes now policy hs.status v hv
  have hvary : ∀ {name}, isGatewayOwned name = false → name ≠ "vary" := fun hname heq => by
    rw [heq] at hname
    exact absurd hname (by decide)
  have hother : ∀ {name}, isGatewayOwned name = false → name ≠ "content-length" →
      (liveResponse resp resp.body.bytes).headers.getAll name = r.headers.getAll name := fun {name} hname hne => by
    rw [getAll_liveResponse hname hv,if_neg hne,hheaders name (hvary hname),if_neg fun h => hne h.1,getAll_kept hname hs.veto,
      if_neg fun h => hne h.1]
  have hlength : isGatewayOwned "content-length" = false := by decide
  have hlive : (liveResponse resp resp.body.bytes).headers.getAll "content-length" = [v] :=
    (getAll_liveResponse hlength hv).trans (if_pos rfl)
  have hreplay := hheaders "content-length" (hvary hlength)
  rw [getAll_kept hlength hs.veto] at hreplay
  refine ⟨_,r,CacheEnvelope.decode_encode (fits_entryOf (maxBodyBytes_lt hs) hbody),hr,hstatus,hrbody,?_⟩
  constructor
  · intro hsame hhead
    by_cases hnone : resp.headers.getAll "content-length" = []
    · exact .inl hnone
    · refine .inr ⟨v,hv,?_⟩
      simp only [hhead,Bool.true_eq_false,and_false,if_false,hnone] at hreplay
      exact hreplay.symm.trans ((hsame "content-length" hlength).symm.trans hlive)
  · intro hcases name hname
    by_cases hne : name = "content-length"
    · subst hne
      rw [hlive,hreplay]
      cases hhead : flow.isHead with
      | true =>
        rcases hcases hhead with hnone | ⟨w,hw,hone⟩
        · simp [hnone]
        · obtain rfl := Option.some.inj (hv.symm.trans hw)
          simp [hone]
      | false => simp
    · exact hother hname hne

theorem hit_head (hs : Storable flow resp) (h : storeFresh flow resp now = .ok (stored,live)) (policy : CompiledRouteCache)
    (ageMs : UInt64) (inm : Option HeaderValue) : ∃ r, hit true policy stored ageMs inm = some r ∧ r.status = live.status ∧
      r.body = [] ∧ (SameHeaders live r ↔ StoresOwnLength flow resp) := by
  obtain ⟨entry,r,hentry,hr,hstatus,-,hheaders⟩ := rebuilt_of_stored hs h policy
  have hhit : hit true policy stored ageMs inm =
      some (stamp (stampAge { r with headers := policy.vary.foldl mergeVary r.headers, body := [] } ageMs) "hit") := by
    rw [hit,hentry,Option.bind_some,if_pos rfl,serveHeadFromEntry,hr]
    rfl
  refine ⟨_,hhit,hstatus,rfl,Iff.trans (SameHeaders.congr_right ?_) hheaders⟩
  refine (sameHeaders_stamped _ _ _).trans fun name hname => getAll_foldl_mergeVary (fun heq => ?_) _ _
  rw [heq] at hname
  exact absurd hname (by decide)

theorem hit_get (hs : Storable flow resp) (h : storeFresh flow resp now = .ok (stored,live)) (policy : CompiledRouteCache)
    (ageMs : UInt64) (inm : Option HeaderValue) : ∃ r, hit false policy stored ageMs inm = some r ∧
      (inm.isSome ∧ r.status = 304 ∨
        r.status = live.status ∧ r.body = live.body ∧ (SameHeaders live r ↔ StoresOwnLength flow resp)) := by
  obtain ⟨entry,r,hentry,hr,hstatus,hbody,hheaders⟩ := rebuilt_of_stored hs h policy
  rw [hit,hentry,Option.bind_some,if_neg Bool.false_ne_true,serveFromEntry]
  split
  · rename_i hmatches
    refine ⟨_,rfl,.inl ⟨?_,rfl⟩⟩
    cases inm with
    | none => cases hmatches
    | some v => rfl
  · rw [hr]
    exact ⟨_,rfl,.inr ⟨hstatus,hbody,(SameHeaders.congr_right (sameHeaders_stamped _ _ _)).trans hheaders⟩⟩

end Replays

/-- What a hit replays is what the miss delivered, unless the client asked for a 304, just when a stored answer to HEAD
has no body and no length of one; and a HEAD that is answered from a GET has its headers. -/
theorem replay_faithful_iff {ε : Type} {flow : MissFlow} {resp : Fetched ε} {now : UInt64} {stored : Bytes} {live : Response}
    (hs : Storable flow resp) (h : storeFresh flow resp now = .ok (stored,live)) :
    ((∀ policy ageMs inm, ∃ r, hit flow.isHead policy stored ageMs inm = some r ∧ (inm.isSome ∧ r.status = 304 ∨ SameReply live r)) ↔
      (flow.isHead = true → resp.body.bytes = [] ∧
        (resp.headers.getAll "content-length" = [] ∨ resp.headers.getAll "content-length" = [zero]))) ∧
    (flow.isHead = false → ∀ policy ageMs inm, ∃ r, hit true policy stored ageMs inm = some r ∧ r.status = live.status ∧
      r.body = [] ∧ SameHeaders live r) := by
  have hlive : live.body = resp.body.bytes ∧ live.status = 200 := by
    obtain ⟨-,-,rfl⟩ := storeFresh_ok h
    exact ⟨rfl,hs.status⟩
  refine ⟨?_,fun hget policy ageMs inm => ?_⟩
  · cases hhead : flow.isHead with
    | true =>
      constructor
      · intro hall _
        obtain ⟨r,hr,hsame⟩ := hall flow.policy 0 none
        obtain ⟨r',hr',-,hbody,hheaders⟩ := hit_head hs h flow.policy 0 none
        obtain rfl := Option.some.inj (hr.symm.trans hr')
        have hsame : SameReply live r := hsame.resolve_left fun h => Bool.false_ne_true h.1
        have hnone : resp.body.bytes = [] := hlive.1.symm.trans (hsame.body.trans hbody)
        refine ⟨hnone,(hheaders.mp hsame.headers hhead).imp id ?_⟩
        rintro ⟨v,hv,hone⟩
        rw [hnone] at hv
        rw [hone,Option.some.inj (hv.symm.trans headerText_zero)]
      · intro hlength policy ageMs inm
        obtain ⟨hnone,hcases⟩ := hlength rfl
        obtain ⟨r,hr,hstatus,hbody,hheaders⟩ := hit_head hs h policy ageMs inm
        refine ⟨r,hr,.inr ⟨hstatus.symm,hlive.1.trans (hnone.trans hbody.symm),hheaders.mpr fun _ => hcases.imp id fun hone => ?_⟩⟩
        exact ⟨zero,by rw [hnone]; exact headerText_zero,hone⟩
    | false =>
      refine iff_of_true (fun policy ageMs inm => ?_) (fun h => absurd h Bool.false_ne_true)
      obtain ⟨r,hr,hcases⟩ := hit_get hs h policy ageMs inm
      refine ⟨r,hr,hcases.imp id ?_⟩
      rintro ⟨hstatus,hbody,hheaders⟩
      exact ⟨hstatus.symm,hbody.symm,hheaders.mpr fun h => absurd (hhead.symm.trans h) Bool.false_ne_true⟩
  · obtain ⟨r,hr,hstatus,hbody,hheaders⟩ := hit_head hs h policy ageMs inm
    exact ⟨r,hr,hstatus,hbody,hheaders.mpr fun hhead => absurd (hget.symm.trans hhead) Bool.false_ne_true⟩

section Example

theorem etag_name : IsHeaderName "etag" := by
  show headerName (bytes "etag") = some "etag"
  decide

theorem length_name : IsHeaderName "content-length" := by
  show headerName (bytes "content-length") = some "content-length"
  decide

theorem one_valid : [34,49,34].all isValueByte = true := by decide

theorem five_valid : [53].all isValueByte = true := by decide

def five : HeaderValue := ⟨[53],five_valid⟩

/-- A page of five bytes. -/
def page : Fetched Empty where
  status := 200
  headers := [("etag",⟨[34,49,34],one_valid⟩),("content-length",five)]
  body := .frame (.data [104,101,108,108,111]) .done
  names := List.forall_mem_cons.mpr ⟨etag_name,List.forall_mem_singleton.mpr length_name⟩
  count_le := by simp
  values_lt := by simp [five]

/-- The answer to HEAD for it. -/
def pageHead : Fetched Empty where
  status := 200
  headers := [("content-length",five)]
  body := .done
  names := List.forall_mem_singleton.mpr length_name
  count_le := by simp
  values_lt := by simp [five]

def flowFor (isHead : Bool) : MissFlow := ⟨isHead,1,compilePolicy CacheLifetimes.minute false false⟩

theorem storable_page : Storable (flowFor false) page :=
  ⟨⟨"home",CacheLifetimes.minute,false,false,by decide,rfl⟩,rfl,by decide⟩

theorem storable_pageHead : Storable (flowFor true) pageHead :=
  ⟨⟨"home",CacheLifetimes.minute,false,false,by decide,rfl⟩,rfl,by decide⟩

theorem replay_faithful_page : ∃ stored live r, storeFresh (flowFor false) page 0 = .ok (stored,live) ∧
    hit false (flowFor false).policy stored 1000 none = some r ∧ SameReply live r := by
  have hstored : storeFresh (flowFor false) page 0 = .ok
      ((entryOf (flowFor false) page page.body.bytes 0).encode,liveResponse page page.body.bytes) := rfl
  obtain ⟨r,hr,hsame⟩ := (replay_faithful_iff storable_page hstored).1.mpr (fun h => absurd h Bool.false_ne_true)
    (flowFor false).policy 1000 none
  exact ⟨_,_,r,hstored,hr,hsame.resolve_left fun h => Bool.false_ne_true h.1⟩

/-- The answer to HEAD is delivered with a length of 0, and replayed with that of the page. -/
theorem replay_of_head_differs : ∃ stored live r, storeFresh (flowFor true) pageHead 0 = .ok (stored,live) ∧
    hit true (flowFor true).policy stored 1000 none = some r ∧ live.headers.getAll "content-length" = [zero] ∧
      ¬ SameReply live r := by
  have hstored : storeFresh (flowFor true) pageHead 0 = .ok ((entryOf (flowFor true) pageHead [] 0).encode,liveResponse pageHead []) := rfl
  obtain ⟨r,hr,-,-,hheaders⟩ := hit_head storable_pageHead hstored (flowFor true).policy 1000 none
  have hlength : (liveResponse pageHead []).headers.getAll "content-length" = [zero] :=
    (@getAll_liveResponse Empty pageHead [] "content-length" (by decide +kernel) zero headerText_zero).trans (if_pos rfl)
  refine ⟨_,_,r,hstored,hr,hlength,fun hsame => ?_⟩
  rcases hheaders.mp hsame.headers rfl with hnone | ⟨v,hv,hone⟩
  · cases hnone
  · obtain rfl := Option.some.inj (hv.symm.trans headerText_zero)
    have hfive : [five] = [zero] := hone
    injection hfive with hvalue
    exact absurd (congrArg (·.bytes) hvalue) (by decide)

end Example

end Dwara.Dataplane.CacheFidelity
