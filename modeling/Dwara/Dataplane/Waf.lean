import Dwara.Dataplane.RouteMatch
import Dwara.Lib.BodyStream
import Dwara.Lib.Utf8

/-! The heuristic filter of a request's line, headers and body. -/

namespace Dwara.Dataplane.Waf
open Dwara.Lib Dwara.Lib.BodyStream Dwara.Lib.Utf8

/-- The `waf` block of a route. -/
structure RouteWaf where
  enabled : Bool
  dryRun : Bool := false
  filters : List String := []
  maxBodyInspectBytes : ℕ := 131072
  customPatterns : List String := []

inductive WafFilter where
  | sqli | xss | pathTraversal
  deriving DecidableEq, Repr

def WafFilter.asStr : WafFilter → String
  | .sqli => "sqli"
  | .xss => "xss"
  | .pathTraversal => "path_traversal"

inductive WafTarget where
  | path | query | header | body
  deriving DecidableEq, Repr

structure WafMatch where
  filter : WafFilter
  pattern : String
  target : WafTarget
  valuePreview : String
  deriving DecidableEq, Repr

/-- The regular expressions: which patterns compile, and what they match. -/
structure Regexes where
  compiles : String → Bool
  isMatch : String → String → Bool

def sqliPatterns : List String :=
  ["(?i)union\\s+select","(?i)\\bor\\s+1\\s*=\\s*1\\b","(?i)\x27\\s*;\\s*drop\\s+table",
   "(?i)\x27\\s*;\\s*delete\\s+from","(?i)\x27\\s*;\\s*insert\\s+into","(?i)\x27\\s*;\\s*update\\s+set","(?i)--\\s*$",
   "(?i)--\\s","(?i)xp_cmdshell","(?i)0x[0-9a-f]\x7b8,\x7d\\b","(?i)\x27\\s*or\\s*\x27","(?i)\x27\\s*and\\s*\x27",
   "(?i);\\s*select\\s+","(?i)\\bexec\\s*\\(","(?i)\\bwaitfor\\s+delay\\b","(?i)\\bsleep\\s*\\(",
   "(?i)\\bbenchmark\\s*\\(","(?i)\\bload_file\\s*\\(","(?i)\\binto\\s+outfile\\b","(?i)\\bgroup\\s+by\\s+\\d+",
   "(?i)\x27\\s*=\\s*\x27"]

def xssPatterns : List String :=
  ["(?i)<script","(?i)javascript:","(?i)onerror\\s*=","(?i)onload\\s*=","(?i)onclick\\s*=","(?i)onmouseover\\s*=",
   "(?i)<iframe","(?i)<object","(?i)<embed","(?i)document\\.cookie","(?i)eval\\s*\\(","(?i)alert\\s*\\(",
   "(?i)<img[^>]+src\\s*=","(?i)<svg[^>]+onload","(?i)String\\.fromCharCode","(?i)\\\\x3cscript","(?i)&lt;script",
   "(?i)<body[^>]+onload","(?i)expression\\s*\\("]

def pathTraversalPatterns : List String :=
  ["\\.\\./","\\.\\.\\\\","(?i)%2e%2e%2f","(?i)%2e%2e/","(?i)%2e%2e%5c","\\.\\.%2f","(?i)\\.\\.//","(?i)\\.\\.\\\\",
   "(?i)\\.\\.;/","%00","(?i)%252e%252e%252f","(?i)/etc/passwd","(?i)/etc/shadow","(?i)c:\\\\windows\\\\",
   "(?i)\\\\windows\\\\win\\.ini","(?i)/proc/self/"]

def builtinPatterns : WafFilter → List String
  | .sqli => sqliPatterns
  | .xss => xssPatterns
  | .pathTraversal => pathTraversalPatterns

/-- The characters that fit whole in `n` bytes. -/
def takeUtf8 : ℕ → List Char → List Char
  | _, [] => []
  | n, c :: cs => if c.utf8Size ≤ n then c :: takeUtf8 (n - c.utf8Size) cs else []

def truncatePreview (s : String) : String :=
  if s.utf8ByteSize ≤ 64 then s else String.ofList (takeUtf8 64 s.toList) ++ "..."

/-- A compiled filter: the patterns of each kind, in order. -/
structure WafGeneration where
  filters : List (WafFilter × List String)
  maxBodyInspectBytes : ℕ
  dryRun : Bool

def WafFilter.named (name : String) : Option WafFilter := [WafFilter.sqli,.xss,.pathTraversal].find? (·.asStr = name)

/-- No list of filters means all of them. -/
def fromConfig (regexes : Regexes) (waf : RouteWaf) : Option WafGeneration :=
  if !waf.enabled then none
  else
    let filters := if waf.filters.isEmpty then [WafFilter.sqli,.xss,.pathTraversal] else waf.filters.filterMap WafFilter.named
    some ⟨filters.map fun f => (f,builtinPatterns f ++ waf.customPatterns.filter regexes.compiles),waf.maxBodyInspectBytes,waf.dryRun⟩

section Inspect
variable (regexes : Regexes) (gen : WafGeneration)

def inspectValue (target : WafTarget) (value : String) : Option WafMatch :=
  gen.filters.findSome? fun entry =>
    (entry.2.find? (regexes.isMatch · value)).map fun pattern => ⟨entry.1,pattern,target,truncatePreview value⟩

/-- The first match of the path, the query and four of the headers. -/
def inspectHead (head : RequestHead) : Option WafMatch :=
  inspectValue regexes gen .path head.path <|> head.query.bind (inspectValue regexes gen .query) <|>
    ["user-agent","referer","cookie","x-forwarded-for"].findSome? fun name =>
      ((head.header name).bind toStr).bind (inspectValue regexes gen .header)

def shouldInspectBody (head : RequestHead) : Bool :=
  ((head.header "content-type").bind toStr).any fun ct =>
    ["application/json","application/x-www-form-urlencoded","text/plain"].any (Text.startsWith · (Text.toAsciiLowercase ct))

variable {ε : Type}

/-- A body with nothing more to read: it goes on whole where the cap is reached, else what
came of it does. -/
def inspectEnd (cap : ℕ) (buf : BodyStream.Bytes) (body : Body ε) : BodyStream.Bytes × Body ε :=
  if 0 < cap ∧ cap ≤ buf.length then (buf,Body.prepend buf body) else (buf,Body.full buf)

/-- The bytes up to the cap, and the body that goes on: these and what is behind them.
Fields on the way are dropped. -/
def inspectLoop (cap : ℕ) : BodyStream.Bytes → Body ε → BodyStream.Bytes × Body ε
  | buf, .done => inspectEnd cap buf .done
  | buf, .stuck e => inspectEnd cap buf (.stuck e)
  | buf, .fault e rest => inspectEnd cap buf (.fault e rest)
  | buf, .frame f rest =>
    if 0 < cap ∧ cap ≤ buf.length then (buf,Body.prepend buf (.frame f rest))
    else match f with
      | .trailers _ => inspectLoop cap buf rest
      | .data data =>
        if 0 < cap ∧ cap < buf.length + data.length then
          let remaining := cap - buf.length
          (buf ++ data.take remaining,Body.prepend (buf ++ data.take remaining) (Body.prepend (data.drop remaining) rest))
        else inspectLoop cap (buf ++ data) rest

/-- The match of the body, and the body that goes on. -/
def inspectBody (body : Body ε) : Option WafMatch × Body ε :=
  let inspected := inspectLoop gen.maxBodyInspectBytes [] body
  (inspectValue regexes gen .body (String.ofList (fromUtf8Lossy inspected.1)),inspected.2)

end Inspect

section Loop
variable {ε : Type} {cap : ℕ}

theorem inspectEnd_inspected {buf : BodyStream.Bytes} (hbuf : buf.length ≤ cap) {body : Body ε} (hbody : body.bytes = []) :
    (inspectEnd cap buf body).1 = (buf ++ body.bytes).take cap := by
  rw [hbody,List.append_nil,List.take_of_length_le hbuf,inspectEnd]
  split_ifs <;> rfl

theorem inspectEnd_forwarded (buf : BodyStream.Bytes) {body : Body ε} (hbody : body.bytes = []) :
    (inspectEnd cap buf body).2.bytes = buf ++ body.bytes := by
  rw [inspectEnd]
  split_ifs
  · exact Body.bytes_prepend buf body
  · rw [hbody,List.append_nil]
    exact Body.bytes_full buf

/-- Exactly the bytes up to the cap are inspected. -/
theorem inspectLoop_inspected (hcap : 0 < cap) (buf : BodyStream.Bytes) (hbuf : buf.length ≤ cap) (body : Body ε) :
    (inspectLoop cap buf body).1 = (buf ++ body.bytes).take cap := by
  induction body generalizing buf with
  | done => exact inspectEnd_inspected hbuf rfl
  | stuck e => exact inspectEnd_inspected hbuf rfl
  | fault e rest _ => exact inspectEnd_inspected hbuf rfl
  | frame f rest ih =>
    rw [inspectLoop.eq_def]
    dsimp only
    by_cases hfull : 0 < cap ∧ cap ≤ buf.length
    · rw [if_pos hfull,List.take_append_of_le_length hfull.2,List.take_of_length_le hbuf]
    · rw [if_neg hfull]
      cases f with
      | trailers fields => exact ih buf hbuf
      | data data =>
        dsimp only
        by_cases hover : 0 < cap ∧ cap < buf.length + data.length
        · rw [if_pos hover,Body.bytes_frame,List.take_append,List.take_of_length_le hbuf,Frame.bytes,
            List.take_append_of_le_length (by omega)]
        · have hfit : (buf ++ data).length ≤ cap := by
            rw [List.length_append]
            omega
          rw [if_neg hover,ih (buf ++ data) hfit,Body.bytes_frame,Frame.bytes,List.append_assoc]

/-- No byte of the body is lost. -/
theorem inspectLoop_forwarded (buf : BodyStream.Bytes) (body : Body ε) :
    (inspectLoop cap buf body).2.bytes = buf ++ body.bytes := by
  induction body generalizing buf with
  | done => exact inspectEnd_forwarded buf rfl
  | stuck e => exact inspectEnd_forwarded buf rfl
  | fault e rest _ => exact inspectEnd_forwarded buf rfl
  | frame f rest ih =>
    rw [inspectLoop.eq_def]
    dsimp only
    by_cases hfull : 0 < cap ∧ cap ≤ buf.length
    · rw [if_pos hfull]
      exact Body.bytes_prepend buf _
    · rw [if_neg hfull]
      cases f with
      | trailers fields => exact ih buf
      | data data =>
        dsimp only
        by_cases hover : 0 < cap ∧ cap < buf.length + data.length
        · rw [if_pos hover,Body.bytes_prepend,Body.bytes_prepend,Body.bytes_frame,Frame.bytes,List.append_assoc,
            ← List.append_assoc (data.take _),List.take_append_drop]
        · rw [if_neg hover,ih,Body.bytes_frame,Frame.bytes,List.append_assoc]

end Loop

end Dwara.Dataplane.Waf
