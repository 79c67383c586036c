import Dwara.Security.OpaBundles

/-! When a deny is enforced: what a call returns for an answer that says no, and how long
a decision lives. -/

namespace Dwara.Security.Opa
open Dwara.Lib Dwara.Lib.Utf8

def IsJsonSpace (c : Char) : Bool := c = ' ' || c = '\t' || c = '\n' || c = '\r'

/-- The text of an object starts with a brace. -/
def SerdeJson.ObjectsInBraces (json : SerdeJson) : Prop :=
  ∀ text fields, json.fromStr text = .ok (.object fields) → (text.toList.dropWhile IsJsonSpace).head? = some '\x7b'

/-- The peer of an endpoint can be reached, has a publicly trusted chain, and answers a
request in time. -/
structure Answers (filter : SsrfFilter) (publicRoots : List Anchor) (net : Network) (url : String) (request : String → String → String)
    (e : Endpoint) (a : HttpAnswer) : Prop where
  url_eq : url = e.url
  admitted : filter.check (net (String.ofList e.host) e.dialled) = .ok ()
  connected : (net (String.ofList e.host) e.dialled).connect = .ok ()
  trusted : e.scheme = .https → (net (String.ofList e.host) e.dialled).anchor ∈ publicRoots
  responded : (net (String.ofList e.host) e.dialled).respond (request (String.ofList e.host) e.target) = .ok a.bytes

/-- The request of a callout. -/
def inputRequest (json : SerdeJson) (input : JsonValue) : String → String → String :=
  postRequest (json.write (.object [("input",input)]))

/-- The result an answer has in its body. -/
def HttpAnswer.Says (a : HttpAnswer) (json : SerdeJson) (allowed : Bool) : Prop :=
  ∃ v, json.fromStr (String.ofList a.body) = .ok v ∧ (v.get "result").bind JsonValue.asBool = some allowed

/-- What the client can make use of. -/
def Understood (e : Endpoint) (a : HttpAnswer) : Prop := e.scheme = .http ∧ e.PortIsPlain ∧ a.framing.isContentLength = true

instance (e : Endpoint) (a : HttpAnswer) : Decidable (Understood e a) := inferInstanceAs (Decidable (_ ∧ _ ∧ _))

section Exchange
variable {filter : SsrfFilter} {publicRoots : List Anchor} {net : Network} {url : String} {request : String → String → String}
  {e : Endpoint} {a : HttpAnswer}

/-- The exchange hands over the payload as it is framed. -/
theorem asyncExchange_http (h : Answers filter publicRoots net url request e a) (hscheme : e.scheme = .http) (hport : e.PortIsPlain) :
    asyncExchange filter net url request = .ok (String.ofList (fromUtf8Lossy a.framing.bytes)) := by
  rw [asyncExchange,h.url_eq,Endpoint.parseUrl_url hport]
  simp only [h.admitted,h.connected,hscheme,doHttpIo,h.responded,a.parseHttpResponse_bytes]

/-- No chain is anchored in an empty store. -/
theorem asyncExchange_https (h : Answers filter publicRoots net url request e a) (hscheme : e.scheme = .https) (hport : e.PortIsPlain) :
    ∃ err, asyncExchange filter net url request = .error err := by
  rw [asyncExchange,h.url_eq,Endpoint.parseUrl_url hport]
  simp only [h.admitted,h.connected,hscheme,tlsHandshake,rootStore,List.not_mem_nil,if_false]
  exact ⟨_,rfl⟩

theorem asyncExchange_understood (h : Answers filter publicRoots net url request e a) (hu : Understood e a) :
    asyncExchange filter net url request = .ok (String.ofList a.body) := by
  obtain ⟨hscheme,hport,hframing⟩ := hu
  have hbody : fromUtf8Lossy a.framing.bytes = a.body := by
    cases hf : a.framing with
    | contentLength => exact fromUtf8Lossy_of_encode a.body
    | chunked chunks trailer joined =>
      rw [hf] at hframing
      cases hframing
  rw [asyncExchange_http h hscheme hport,hbody]

end Exchange

section Callout
variable {c : OpaClient} {json : SerdeJson} {publicRoots : List Anchor} {net : Network} {input : JsonValue} {e : Endpoint} {a : HttpAnswer}

private theorem not_isJsonSpace_of_isHexDigit {x : Char} (h : IsHexDigit x) : IsJsonSpace x = false ∧ x ≠ '\x7b' := by
  constructor
  · rw [IsJsonSpace]
    have hspace : ∀ y : Char, y = ' ' ∨ y = '\t' ∨ y = '\n' ∨ y = '\r' → ¬ IsHexDigit y := by
      rintro y (rfl | rfl | rfl | rfl)
      · decide
      · decide
      · decide
      · decide
    have hne := fun hy => hspace x hy h
    simpa [and_assoc] using hne
  · rintro rfl
    exact absurd h (by decide)

/-- A size in hex is no object, so a chunked answer has no result. -/
theorem get_chunked (hjson : json.ObjectsInBraces) (hframing : a.framing.isContentLength = false) {v : JsonValue}
    (hv : json.fromStr (String.ofList (fromUtf8Lossy a.framing.bytes)) = .ok v) : v.get "result" = none := by
  obtain ⟨x,rest,htext,hx⟩ := Framing.chunked_head hframing
  obtain ⟨hspace,hbrace⟩ := not_isJsonSpace_of_isHexDigit hx
  cases v with
  | object fields =>
    have hhead := hjson _ fields hv
    have hchars : (String.ofList (fromUtf8Lossy a.framing.bytes)).toList = x :: rest := by
      rw [String.toList_ofList,htext]
    rw [hchars,List.dropWhile_cons_of_neg (by simp [hspace]),List.head?_cons] at hhead
    exact absurd (Option.some.inj hhead) hbrace
  | null => rfl
  | bool b => rfl
  | number text => rfl
  | string s => rfl
  | array items => rfl

theorem callOpa_understood (h : Answers c.ssrfFilter publicRoots net c.endpoint (inputRequest json input) e a) (hu : Understood e a)
    {allowed : Bool} (hsaid : a.Says json allowed) : c.callOpa json net input = .ok (if allowed then .allow else .deny) := by
  obtain ⟨v,hv,hresult⟩ := hsaid
  have hpost : asyncPost c.ssrfFilter net c.endpoint (json.write (.object [("input",input)])) = .ok (String.ofList a.body) :=
    asyncExchange_understood h hu
  rw [OpaClient.callOpa,hpost]
  simp only [hv,hresult]

theorem callOpa_not_understood (hjson : json.ObjectsInBraces) (h : Answers c.ssrfFilter publicRoots net c.endpoint (inputRequest json input) e a) (hu : ¬ Understood e a) :
    ∃ err, c.callOpa json net input = .error err := by
  rw [OpaClient.callOpa]
  by_cases hport : e.PortIsPlain
  · cases hscheme : e.scheme with
    | https =>
      obtain ⟨err,herr⟩ := asyncExchange_https h hscheme hport
      have hpost : asyncPost c.ssrfFilter net c.endpoint (json.write (.object [("input",input)])) = .error err := herr
      rw [hpost]
      exact ⟨err,rfl⟩
    | http =>
      have hframing : a.framing.isContentLength = false := by
        cases hf : a.framing.isContentLength with
        | false => rfl
        | true => exact absurd ⟨hscheme,hport,hf⟩ hu
      have hpost : asyncPost c.ssrfFilter net c.endpoint (json.write (.object [("input",input)])) =
          .ok (String.ofList (fromUtf8Lossy a.framing.bytes)) := asyncExchange_http h hscheme hport
      rw [hpost]
      cases hv : json.fromStr (String.ofList (fromUtf8Lossy a.framing.bytes)) with
      | error msg =>
        simp only [hv]
        exact ⟨_,rfl⟩
      | ok v =>
        simp only [hv,get_chunked hjson hframing hv,Option.bind_none]
        exact ⟨_,rfl⟩
  · obtain ⟨err,herr⟩ := Endpoint.parseUrl_url_error hport
    rw [asyncPost,asyncExchange,h.url_eq,herr]
    exact ⟨err,rfl⟩

theorem isAuthorized_hit {cache : DecisionCache} {now later : ℕ} {d : OpaDecision}
    (hlookup : cache.lookup (c.cacheKey json input) now = some d) : (c.isAuthorized json cache net input now later).1 = .ok d := by
  rw [OpaClient.isAuthorized,hlookup]

theorem isAuthorized_miss {cache : DecisionCache} {now later : ℕ} (hlookup : cache.lookup (c.cacheKey json input) now = none) :
    (c.isAuthorized json cache net input now later).1 = c.outcome (c.callOpa json net input) := by
  rw [OpaClient.isAuthorized,hlookup]
  cases c.callOpa json net input with
  | error err => rfl
  | ok d => rfl

/-- The outage policy never denies. -/
theorem outcome_error_ne_deny (err : OpaError) : c.outcome (.error err) ≠ .ok .deny := by
  rw [OpaClient.outcome]
  split
  · decide
  · intro h
    cases h

theorem isAuthorized_deny_iff (hjson : json.ObjectsInBraces) (h : Answers c.ssrfFilter publicRoots net c.endpoint (inputRequest json input) e a) (hsaid : a.Says json false)
    (cache : DecisionCache) (now later : ℕ) :
    (c.isAuthorized json cache net input now later).1 = .ok .deny ↔
      cache.lookup (c.cacheKey json input) now = some .deny ∨
        cache.lookup (c.cacheKey json input) now = none ∧ Understood e a := by
  cases hlookup : cache.lookup (c.cacheKey json input) now with
  | some d =>
    rw [isAuthorized_hit hlookup]
    simp
  | none =>
    rw [isAuthorized_miss hlookup]
    by_cases hu : Understood e a
    · rw [callOpa_understood h hu hsaid]
      simp [hu,OpaClient.outcome]
    · obtain ⟨err,herr⟩ := callOpa_not_understood hjson h hu
      rw [herr]
      simp [hu,outcome_error_ne_deny]

end Callout

section Samples

def deniedText : List Char := "\x7b\"result\":false\x7d".toList
def allowedText : List Char := "\x7b\"result\":true\x7d".toList
def bundleText : List Char := "\x7b\"revision\":\"2\"\x7d".toList

def sampleJson : SerdeJson where
  fromStr text :=
    if text.toList = deniedText then .ok (.object [("result",.bool false)])
    else if text.toList = allowedText then .ok (.object [("result",.bool true)])
    else if text.toList = bundleText then .ok (.object [("revision",.string "2")])
    else .error "expected value"
  write
    | .object _ => "\x7b\"input\":null\x7d"
    | _ => "null"

theorem sampleJson_objectsInBraces : sampleJson.ObjectsInBraces := by
  intro text fields h
  simp only [sampleJson] at h
  split at h
  case isTrue htext => rw [htext]; decide
  case isFalse =>
    split at h
    case isTrue htext => rw [htext]; decide
    case isFalse =>
      split at h
      case isTrue htext => rw [htext]; decide
      case isFalse => cases h

def sampleAnswer (body : List Char) (framing : Framing (encode body)) : HttpAnswer where
  reason := encode "OK".toList
  headers := [encode "Content-Type: application/json".toList]
  body := body
  framing := framing
  reason_line := by decide +kernel
  header_lines := by decide +kernel

def sampleEndpoint (scheme : Scheme) : Endpoint where
  scheme := scheme
  host := "opa".toList
  port := some 8181
  path := "/v1/data/dwara/allow".toList
  host_ne := by decide
  no_slash := by decide
  brackets := by decide
  port_lt := by decide
  path_start := by decide

def sampleNetwork (a : HttpAnswer) : Network := fun _ _ => ⟨.ok ["10.0.0.1"],.ok (),[1],fun _ => .ok a.bytes⟩

def sampleClient (e : Endpoint) (failOpen : Bool) : OpaClient := ⟨e.url,30,none,failOpen⟩

def deniedPlain : HttpAnswer := sampleAnswer deniedText .contentLength
def deniedChunked : HttpAnswer :=
  sampleAnswer deniedText (.chunked [⟨"10".toList,[],encode deniedText,by decide,List.all_iff_forall_prop.mp (by decide),by decide⟩] (crlf ++ crlf) (by decide))

theorem answers_sample (e : Endpoint) (a : HttpAnswer) (request : String → String → String) :
    Answers none [[1]] (sampleNetwork a) e.url request e a := by
  refine ⟨rfl,rfl,rfl,fun _ => ?_,rfl⟩
  exact List.mem_singleton.mpr rfl

/-- A bracketed host without a port. -/
def bracketedEndpoint : Endpoint where
  scheme := .http
  host := "[::1]".toList
  port := none
  path := []
  host_ne := by decide
  no_slash := by decide
  brackets := by decide
  port_lt := by decide
  path_start := by decide

def allowedPlain : HttpAnswer := sampleAnswer allowedText .contentLength
def bundlePlain : HttpAnswer := sampleAnswer bundleText .contentLength

/-- A call that has cached its decision before the revision is fetched. -/
def quickCall (net bundles : Network) (url : String) (input : JsonValue) : List Label :=
  [.isAuthorized input 0,.exchange 0 net,.insert 0 0,.downloadBundle bundles url,.mark 0,.clearCache 0,.isAuthorized input 0]

end Samples

/-- A call whose answer says no denies exactly when a live decision does, or nothing is
cached and the answer is understood. In every run whose clears find no decision held that
is older than the revision, decisions are current. -/
theorem deny_enforced (json : SerdeJson) (hjson : json.ObjectsInBraces) (publicRoots : List Anchor) (c : OpaClient) :
    (∀ net input e a, Answers c.ssrfFilter publicRoots net c.endpoint (inputRequest json input) e a → a.Says json false → ∀ cache now later,
      ((c.isAuthorized json cache net input now later).1 = .ok .deny ↔
        cache.lookup (c.cacheKey json input) now = some .deny ∨
          cache.lookup (c.cacheKey json input) now = none ∧ Understood e a)) ∧
    ∀ run w, (client c json).run run = some w → (client c json).Along NothingHeld run → w.Current := by
  constructor
  · intro net input e a h hsaid cache now later
    exact isAuthorized_deny_iff hjson h hsaid cache now later
  · intro run w hr hg
    exact current_of_nothingHeld hr hg

theorem deny_enforced_plain :
    ((sampleClient (sampleEndpoint .http) true).isAuthorized sampleJson (fun _ => none) (sampleNetwork deniedPlain) .null 0 0).1 =
      .ok .deny ∧
    ∃ w, (client (sampleClient (sampleEndpoint .http) true) sampleJson).run
      (quickCall (sampleNetwork allowedPlain) (sampleNetwork bundlePlain) (sampleEndpoint .http).url .null) = some w ∧ w.Current := by
  obtain ⟨hdeny,hcurrent⟩ := deny_enforced sampleJson sampleJson_objectsInBraces [[1]] (sampleClient (sampleEndpoint .http) true)
  constructor
  · have hsaid : deniedPlain.Says sampleJson false := ⟨.object [("result",.bool false)],rfl,rfl⟩
    exact (hdeny _ _ _ _ (answers_sample _ deniedPlain _) hsaid _ 0 0).mpr (.inr ⟨rfl,by decide⟩)
  · obtain ⟨w,hw⟩ := Option.isSome_iff_exists.mp (by decide +kernel :
      ((client (sampleClient (sampleEndpoint .http) true) sampleJson).run
        (quickCall (sampleNetwork allowedPlain) (sampleNetwork bundlePlain) (sampleEndpoint .http).url .null)).isSome = true)
    exact ⟨w,hw,hcurrent _ w hw (System.along_of_alongFrom (by decide +kernel))⟩

/-- An answer that says no is let pass when it comes over TLS, in chunks, or from an
address in brackets without a port; and a slow call brings an older decision back. -/
theorem deny_bypassed :
    (deniedPlain.Says sampleJson false ∧ deniedChunked.Says sampleJson false) ∧
    ((sampleClient (sampleEndpoint .https) true).isAuthorized sampleJson (fun _ => none) (sampleNetwork deniedPlain) .null 0 0).1 =
      .ok .allow ∧
    ((sampleClient (sampleEndpoint .http) true).isAuthorized sampleJson (fun _ => none) (sampleNetwork deniedChunked) .null 0 0).1 =
      .ok .allow ∧
    ((sampleClient bracketedEndpoint true).isAuthorized sampleJson (fun _ => none) (sampleNetwork deniedPlain) .null 0 0).1 =
      .ok .allow ∧
    ∃ run w, (client (sampleClient (sampleEndpoint .http) true) sampleJson).run run = some w ∧ ¬ w.Current := by
  refine ⟨⟨⟨_,rfl,rfl⟩,⟨_,rfl,rfl⟩⟩,by decide +kernel,by decide +kernel,by decide +kernel,?_⟩
  have hopa : (sampleClient (sampleEndpoint .http) true).callOpa sampleJson (sampleNetwork allowedPlain) .null = .ok .allow := by
    decide +kernel
  have hbundle : (sampleClient (sampleEndpoint .http) true).fetchBundle sampleJson (sampleNetwork bundlePlain) "http://bundles/" = .ok "2" := by
    decide +kernel
  obtain ⟨w,hw,hold⟩ := slowCall_not_current hopa hbundle (by decide)
  exact ⟨_,w,hw,hold⟩

end Dwara.Security.Opa
