import Dwara.Security.Opa
import Mathlib.Data.Bool.AllAny

/-! Endpoints and answers of a policy server, and what one callout makes of them. -/

namespace Dwara.Security.Opa
open Dwara.Lib Dwara.Lib.Utf8

/-- An endpoint: a host, in brackets when it has colons, an optional port and a path. -/
structure Endpoint where
  scheme : Scheme
  host : List Char
  port : Option ℕ
  path : List Char
  host_ne : host ≠ []
  no_slash : '/' ∉ host
  brackets : ':' ∈ host → host.getLast? = some ']'
  port_lt : ∀ p, port = some p → p < 65536
  path_start : path = [] ∨ path.head? = some '/'

namespace Endpoint

def portText (e : Endpoint) : List Char := e.port.elim [] fun p => ':' :: (toString p).toList

def authority (e : Endpoint) : List Char := e.host ++ e.portText

def url (e : Endpoint) : String := String.ofList (e.scheme.text.toList ++ ("://".toList ++ (e.authority ++ e.path)))

/-- The port a client dials. -/
def dialled (e : Endpoint) : ℕ := e.port.getD e.scheme.port

def target (e : Endpoint) : String := if e.path = [] then "/" else String.ofList e.path

/-- The last colon of the authority stands in front of a port, or there is none. -/
def PortIsPlain (e : Endpoint) : Prop := e.port ≠ none ∨ ':' ∉ e.host

instance (e : Endpoint) : Decidable e.PortIsPlain := inferInstanceAs (Decidable (_ ∨ _))

private theorem colon_notMem_portText {p : ℕ} : ':' ∉ (toString p).toList := by
  intro h
  have hint : ':' ∈ (toString (p : ℤ)).toList := h
  rcases Text.mem_toString_int hint with hc | hc
  · exact absurd hc (by decide)
  · exact absurd hc (by decide)

private theorem slash_notMem_authority (e : Endpoint) : '/' ∉ e.authority := by
  rw [authority,portText,List.mem_append]
  rintro (h | h)
  · exact e.no_slash h
  · cases hp : e.port with
    | none =>
      rw [hp] at h
      cases h
    | some p =>
      rw [hp,Option.elim_some] at h
      rcases List.mem_cons.mp h with hc | h
      · exact absurd hc (by decide)
      · have hint : '/' ∈ (toString (p : ℤ)).toList := h
        rcases Text.mem_toString_int hint with hc | hc
        · exact absurd hc (by decide)
        · exact absurd hc (by decide)

private theorem parseUrl_parts (e : Endpoint) :
    parseUrl e.url = (parseAuthority e.scheme e.authority).map fun (host,port) => (e.scheme,host,port,e.target) := by
  have hscheme : ':' ∉ e.scheme.text.toList := by
    cases e.scheme with
    | http => decide
    | https => decide
  have hof : Scheme.ofText e.scheme.text = some e.scheme := by
    cases e.scheme with
    | http => rfl
    | https => rfl
  have hpath : (Text.splitOnceAt ['/'] (e.authority ++ e.path)).getD (e.authority ++ e.path,[]) = (e.authority,e.path.tail) := by
    rcases e.path_start with hnil | hhead
    · rw [hnil,List.append_nil,Text.splitOnceAt_eq_none (slash_notMem_authority e)]
      rfl
    · obtain ⟨rest,hrest⟩ := List.head?_eq_some_iff.mp hhead
      have hsplit : Text.splitOnceAt ['/'] (e.authority ++ ('/' :: [] ++ rest)) = some (e.authority,rest) :=
        Text.splitOnceAt_eq (slash_notMem_authority e)
      rw [hrest]
      rw [List.cons_append,List.nil_append] at hsplit
      rw [hsplit]
      rfl
  have htarget : (if e.path.tail.isEmpty then "/" else String.ofList ('/' :: e.path.tail)) = e.target := by
    rw [target]
    rcases e.path_start with hnil | hhead
    · rw [hnil]
      rfl
    · obtain ⟨rest,hrest⟩ := List.head?_eq_some_iff.mp hhead
      rw [hrest,if_neg (List.cons_ne_nil _ _),List.tail_cons]
      cases rest with
      | nil => rfl
      | cons c rest => rfl
  have hurl : Text.splitOnceAt "://".toList e.url.toList = some (e.scheme.text.toList,e.authority ++ e.path) := by
    have hchars : e.url.toList = e.scheme.text.toList ++ ("://".toList ++ (e.authority ++ e.path)) := String.toList_ofList
    rw [hchars]
    exact Text.splitOnceAt_eq hscheme
  rw [parseUrl,hurl]
  simp only [String.ofList_toList,hof,hpath,htarget]
  cases parseAuthority e.scheme e.authority with
  | error err => rfl
  | ok parts => rfl

/-- A host in brackets is cut at its last colon. -/
private theorem parseAuthority_brackets (scheme : Scheme) {host : List Char} (hcolon : ':' ∈ host) (hlast : host.getLast? = some ']') :
    ∃ err, parseAuthority scheme host = .error err := by
  obtain ⟨as,bs,hreverse,hnot⟩ := List.eq_append_cons_of_mem (List.mem_reverse.mpr hcolon)
  have hhost : host = bs.reverse ++ ':' :: as.reverse := by
    rw [← List.reverse_reverse host,hreverse,List.reverse_append,List.reverse_cons,List.append_assoc,List.singleton_append]
  obtain ⟨after,hafter⟩ : ∃ after, as.reverse = after ++ [']'] := by
    rw [hhost,List.getLast?_append,List.getLast?_cons] at hlast
    cases h : as.reverse.getLast? with
    | none =>
      rw [List.getLast?_eq_none_iff] at h
      rw [h] at hlast
      exact absurd (Option.some.inj hlast) (by decide)
    | some c =>
      rw [h] at hlast
      obtain rfl : c = ']' := Option.some.inj hlast
      exact List.getLast?_eq_some_iff.mp h
  rw [parseAuthority,hhost,Text.splitLast_eq (fun h => hnot (List.mem_reverse.mp h)),hafter]
  simp only [Text.parseU16_bracket]
  exact ⟨_,rfl⟩

/-- A URL is taken apart, -/
theorem parseUrl_url {e : Endpoint} (h : e.PortIsPlain) : parseUrl e.url = .ok (e.scheme,String.ofList e.host,e.dialled,e.target) := by
  rw [parseUrl_parts,parseAuthority,authority,portText,dialled]
  cases hp : e.port with
  | some p =>
    rw [Option.elim_some,Text.splitLast_eq colon_notMem_portText]
    simp only [Text.parseU16_toString (e.port_lt p hp)]
    rfl
  | none =>
    have hcolon : ':' ∉ e.host := h.resolve_left fun hne => hne hp
    rw [Option.elim_none,List.append_nil,Text.splitLast_eq_none hcolon]
    rfl

/-- but for a host in brackets without a port. -/
theorem parseUrl_url_error {e : Endpoint} (h : ¬ e.PortIsPlain) : ∃ err, parseUrl e.url = .error err := by
  rw [PortIsPlain,not_or,not_not,not_not] at h
  obtain ⟨hp,hcolon⟩ := h
  obtain ⟨err,herr⟩ := parseAuthority_brackets e.scheme hcolon (e.brackets hcolon)
  rw [parseUrl_parts,authority,portText,hp,Option.elim_none,List.append_nil,herr]
  exact ⟨err,rfl⟩

end Endpoint

def crlf : Bytes := [13,10]

/-- No byte ends the line. -/
def IsLine (line : Bytes) : Prop := ∀ b ∈ line, b ≠ 13 ∧ b ≠ 10

instance (line : Bytes) : Decidable (IsLine line) := inferInstanceAs (Decidable (∀ b ∈ line, _))

def IsHexDigit (c : Char) : Prop := c.isDigit ∨ 'a' ≤ c ∧ c ≤ 'f' ∨ 'A' ≤ c ∧ c ≤ 'F'

instance (c : Char) : Decidable (IsHexDigit c) := inferInstanceAs (Decidable (_ ∨ _ ∨ _))

def hexDigitValue (c : Char) : ℕ :=
  if c.isDigit then c.toNat - 48 else if 'a' ≤ c then c.toNat - 87 else c.toNat - 55

/-- One chunk: its size in hex, extensions, and its data. -/
structure Chunk where
  size : List Char
  extensions : Bytes
  data : Bytes
  size_ne : size ≠ []
  size_hex : ∀ c ∈ size, IsHexDigit c
  size_eq : size.foldl (fun n c => 16 * n + hexDigitValue c) 0 = data.length

def Chunk.bytes (k : Chunk) : Bytes := encode k.size ++ (k.extensions ++ (crlf ++ (k.data ++ crlf)))

/-- How a payload is framed: its length in a header, or chunks and a last one of no size. -/
inductive Framing (payload : Bytes) where
  | contentLength
  | chunked (chunks : List Chunk) (trailer : Bytes) (joined : chunks.flatMap Chunk.data = payload)

namespace Framing
variable {payload : Bytes}

def bytes : Framing payload → Bytes
  | contentLength => payload
  | chunked chunks trailer _ => chunks.flatMap Chunk.bytes ++ (encode ['0'] ++ trailer)

def isContentLength : Framing payload → Bool
  | contentLength => true
  | chunked _ _ _ => false

/-- A chunked payload starts with a digit of a size. -/
theorem chunked_head {f : Framing payload} (h : f.isContentLength = false) :
    ∃ c rest, fromUtf8Lossy f.bytes = c :: rest ∧ IsHexDigit c := by
  cases f with
  | contentLength => cases h
  | chunked chunks trailer joined =>
    cases chunks with
    | nil =>
      rw [bytes,List.flatMap_nil,List.nil_append,fromUtf8Lossy_encode_append]
      exact ⟨'0',_,rfl,.inl (by decide)⟩
    | cons k chunks =>
      rw [bytes,List.flatMap_cons,Chunk.bytes,List.append_assoc,List.append_assoc,fromUtf8Lossy_encode_append]
      obtain ⟨c,cs,hsize⟩ := List.exists_cons_of_ne_nil k.size_ne
      rw [hsize,List.cons_append]
      exact ⟨c,_,rfl,k.size_hex c (hsize ▸ List.mem_cons_self)⟩

end Framing

/-- A well-formed answer with status 200 whose body is a text. -/
structure HttpAnswer where
  reason : Bytes
  headers : List Bytes
  body : List Char
  framing : Framing (encode body)
  reason_line : IsLine reason
  header_lines : ∀ header ∈ headers, header ≠ [] ∧ IsLine header

namespace HttpAnswer
variable (a : HttpAnswer)

def bytes : Bytes :=
  encode "HTTP/1.1 200 ".toList ++ (a.reason ++ (crlf ++ (a.headers.flatMap (· ++ crlf) ++ (crlf ++ a.framing.bytes))))

/-- The lines in front of the body, as they are read. -/
def lines : List (List Char) := ("HTTP/1.1 200 ".toList ++ fromUtf8Lossy a.reason) :: a.headers.map fromUtf8Lossy

private theorem fromUtf8Lossy_crlf (bs rest : Bytes) :
    fromUtf8Lossy (bs ++ (crlf ++ rest)) = fromUtf8Lossy bs ++ '\r' :: '\n' :: fromUtf8Lossy rest := by
  have hcr : fromUtf8Lossy (13 :: 10 :: rest) = '\r' :: fromUtf8Lossy (10 :: rest) := fromUtf8Lossy_encode '\r' (10 :: rest)
  have hlf : fromUtf8Lossy (10 :: rest) = '\n' :: fromUtf8Lossy rest := fromUtf8Lossy_encode '\n' rest
  rw [crlf,List.cons_append,fromUtf8Lossy_append (by decide),List.cons_append,List.nil_append,hcr,hlf]

private theorem fromUtf8Lossy_headers (headers : List Bytes) (rest : Bytes) :
    fromUtf8Lossy (headers.flatMap (· ++ crlf) ++ rest) =
      (headers.map fromUtf8Lossy).flatMap (· ++ ['\r','\n']) ++ fromUtf8Lossy rest := by
  induction headers with
  | nil => rfl
  | cons header headers ih =>
    rw [List.flatMap_cons,List.append_assoc,List.append_assoc,fromUtf8Lossy_crlf,ih]
    simp

theorem text_eq : fromUtf8Lossy a.bytes = a.lines.flatMap (· ++ ['\r','\n']) ++ ('\r' :: '\n' :: fromUtf8Lossy a.framing.bytes) := by
  have hblank : fromUtf8Lossy (crlf ++ a.framing.bytes) = '\r' :: '\n' :: fromUtf8Lossy a.framing.bytes := by
    have h := fromUtf8Lossy_crlf [] a.framing.bytes
    rwa [List.nil_append,fromUtf8Lossy,List.nil_append] at h
  rw [bytes,fromUtf8Lossy_encode_append,fromUtf8Lossy_crlf,fromUtf8Lossy_headers,hblank,lines]
  simp

private theorem lossy_line {line : Bytes} (h : IsLine line) : ∀ c ∈ fromUtf8Lossy line, c ≠ '\r' ∧ c ≠ '\n' := by
  intro c hc
  rcases mem_fromUtf8Lossy hc with rfl | hmem
  · exact ⟨by decide,by decide⟩
  · constructor
    · rintro rfl
      exact (h 13 (hmem 13 (by decide))).1 rfl
    · rintro rfl
      exact (h 10 (hmem 10 (by decide))).2 rfl

private theorem lines_ok : ∀ line ∈ a.lines, line ≠ [] ∧ ∀ c ∈ line, c ≠ '\r' ∧ c ≠ '\n' := by
  intro line hline
  rcases List.mem_cons.mp hline with rfl | hline
  · refine ⟨by simp,fun c hc => ?_⟩
    have hstatus : ∀ c ∈ "HTTP/1.1 200 ".toList, c ≠ '\r' ∧ c ≠ '\n' := List.all_iff_forall_prop.mp (by decide)
    rcases List.mem_append.mp hc with hc | hc
    · exact hstatus c hc
    · exact lossy_line a.reason_line c hc
  · obtain ⟨header,hheader,rfl⟩ := List.mem_map.mp hline
    obtain ⟨hne,hok⟩ := a.header_lines header hheader
    exact ⟨fromUtf8Lossy_ne_nil hne,lossy_line hok⟩

/-- The first blank line ends the headers. -/
private theorem splitOnceAt_blank (rest : List Char) {lines : List (List Char)} (hne : lines ≠ [])
    (hok : ∀ line ∈ lines, line ≠ [] ∧ ∀ c ∈ line, c ≠ '\r' ∧ c ≠ '\n') :
    ∃ before, Text.splitOnceAt ['\r','\n','\r','\n'] (lines.flatMap (· ++ ['\r','\n']) ++ '\r' :: '\n' :: rest) = some (before,rest) := by
  induction lines with
  | nil => exact absurd rfl hne
  | cons line lines ih =>
    have hcr : '\r' ∉ line := fun h => ((hok line List.mem_cons_self).2 _ h).1 rfl
    rw [List.flatMap_cons,List.append_assoc,List.append_assoc,Text.splitOnceAt_append hcr]
    cases lines with
    | nil =>
      have hblank : Text.splitOnceAt ['\r','\n','\r','\n'] ([] ++ (['\r','\n','\r','\n'] ++ rest)) = some ([],rest) :=
        Text.splitOnceAt_eq List.not_mem_nil
      rw [List.nil_append] at hblank
      rw [List.flatMap_nil,List.nil_append,List.cons_append,List.cons_append,List.nil_append]
      rw [show '\r' :: '\n' :: '\r' :: '\n' :: rest = ['\r','\n','\r','\n'] ++ rest from rfl,hblank]
      exact ⟨_,rfl⟩
    | cons next lines =>
      obtain ⟨hnext,hnextok⟩ := hok next (List.mem_cons_of_mem _ List.mem_cons_self)
      obtain ⟨c,cs,hc⟩ := List.exists_cons_of_ne_nil hnext
      have hfirst : c ≠ '\r' := (hnextok c (hc ▸ List.mem_cons_self)).1
      obtain ⟨before,hbefore⟩ := ih (List.cons_ne_nil _ _) fun l hl => hok l (List.mem_cons_of_mem _ hl)
      have hstart : (next :: lines).flatMap (· ++ ['\r','\n']) ++ '\r' :: '\n' :: rest =
          c :: (cs ++ (['\r','\n'] ++ (lines.flatMap (· ++ ['\r','\n']) ++ '\r' :: '\n' :: rest))) := by
        rw [List.flatMap_cons,hc]
        simp
      rw [hstart] at hbefore ⊢
      generalize cs ++ (['\r','\n'] ++ (lines.flatMap (· ++ ['\r','\n']) ++ '\r' :: '\n' :: rest)) = more at hbefore ⊢
      have hskip : Text.splitOnceAt ['\r','\n','\r','\n'] (['\r','\n'] ++ c :: more) = some ('\r' :: '\n' :: before,rest) := by
        have hnot : ¬ ['\r','\n','\r','\n'].isPrefixOf ('\r' :: '\n' :: c :: more) := by
          simp [List.isPrefixOf,Ne.symm hfirst]
        have hlf : '\r' ∉ ['\n'] := by decide
        have htail : Text.splitOnceAt ['\r','\n','\r','\n'] (['\n'] ++ c :: more) =
            (Text.splitOnceAt ['\r','\n','\r','\n'] (c :: more)).map fun parts => (['\n'] ++ parts.1,parts.2) :=
          Text.splitOnceAt_append hlf (c :: more)
        rw [hbefore] at htail
        rw [List.cons_append,List.cons_append,List.nil_append,Text.splitOnceAt,if_neg hnot]
        rw [List.cons_append,List.nil_append] at htail
        rw [htail]
        rfl
      rw [hskip]
      exact ⟨_,rfl⟩

/-- The client reads the payload as it is framed. -/
theorem parseHttpResponse_bytes : parseHttpResponse a.bytes = .ok (String.ofList (fromUtf8Lossy a.framing.bytes)) := by
  have hlines := a.lines_ok
  obtain ⟨before,hbefore⟩ := splitOnceAt_blank (fromUtf8Lossy a.framing.bytes) (List.cons_ne_nil _ _) hlines
  have hfirst : Text.firstLine (fromUtf8Lossy a.bytes) = "HTTP/1.1 200 ".toList ++ fromUtf8Lossy a.reason := by
    have hlf : '\n' ∉ "HTTP/1.1 200 ".toList ++ fromUtf8Lossy a.reason := fun h => ((hlines _ List.mem_cons_self).2 _ h).2 rfl
    rw [text_eq,lines,List.flatMap_cons,List.append_assoc,List.append_assoc]
    exact Text.firstLine_eq hlf
  have hstatus : (Text.splitOnceAt " 200 ".toList ("HTTP/1.1 200 ".toList ++ fromUtf8Lossy a.reason)).isSome :=
    Text.splitOnceAt_isSome " 200 ".toList "HTTP/1.1".toList (fromUtf8Lossy a.reason)
  rw [parseHttpResponse]
  simp only [hfirst,hstatus,if_pos]
  rw [text_eq]
  rw [show "\r\n\r\n".toList = ['\r','\n','\r','\n'] from rfl,show a.lines = _ from rfl]
  rw [lines] at *
  rw [hbefore]

end HttpAnswer
end Dwara.Security.Opa
