import Dwara.Config.Gateway
import Dwara.Dataplane.RouteMatch
import Dwara.Lib.CivilDate
import Dwara.Lib.Decimal
import Dwara.Lib.HeaderMap

/-! The headers a request is forwarded with, and which of them carry an identity. -/

namespace Dwara.Dataplane
open Dwara.Lib Dwara.Config

/-- Headers by their lowercased names. -/
abbrev Headers := HeaderMap String String

/-- The name as a header name, lowercased, if it is one. -/
def headerName (name : String) : Option String :=
  if name ≠ "" && name.toList.all Snapshot.isTchar && name.length < 2 ^ 16 then some (Text.toAsciiLowercase name) else none

/-- The value is inserted if a header can carry it. -/
def insertValue (headers : Headers) (name value : String) : Headers := (toStr value).elim headers (headers.insert name)

/-- The name and the value are inserted if they are a header. -/
def insertNamed (headers : Headers) (name value : String) : Headers :=
  (headerName name).elim headers (insertValue headers · value)

/-- `gateway.mtls_forward_headers`, validated. -/
structure MtlsForwardHeaders where
  enabled : Bool
  pfx : String
  pfxValid : pfx ≠ "" ∧ ∀ suffix ∈ ["Fingerprint","Subject-CN","Issuer-CN","Not-After"], (headerName (pfx ++ "-" ++ suffix)).isSome

/-- What is forwarded of a verified certificate. -/
structure ForwardedCertificate where
  fingerprintColon : String
  subjectCn : Option String := none
  issuerCn : Option String := none
  notAfter : Option ℤ := none

inductive ConsumerType where
  | user | agent

def consumerTypeStr : ConsumerType → String
  | .user => "user"
  | .agent => "agent"

structure ForwardedIdentity where
  consumerName : String
  consumerType : ConsumerType

/-- What the gateway knows of a request beside its headers. -/
structure ForwardContext where
  peer : String
  trusted : Bool
  wantsUpgrade : Bool
  grpc : Bool
  identity : Option ForwardedIdentity
  clientCert : Option ForwardedCertificate
  /-- The gateway's own token for the upstream. -/
  bearer : Option String

def bearsConsumer (name : String) : Bool := Text.startsWith "x-consumer-" name

def MtlsForwardHeaders.bears (fwd : MtlsForwardHeaders) (name : String) : Bool := Text.startsWith (Text.toAsciiLowercase fwd.pfx) name

def stripConsumerHeaders (headers : Headers) : Headers := headers.keep fun n => !bearsConsumer n

/-- Seconds of an epoch as a timestamp, up to the year 9999. -/
def unixSecsToRfc3339 (secs : ℤ) : Option String :=
  if secs < 0 then none
  else
    let (y,m,d) := CivilDate.civilFromDays (secs / 86400)
    let rem := secs % 86400
    let two (n : ℤ) := Decimal.padded 2 n.toNat
    if y > 9999 then none
    else some (String.ofList (Decimal.padded 4 y.toNat ++ '-' :: two m ++ '-' :: two d ++ 'T' :: two (rem / 3600) ++
      ':' :: two (rem % 3600 / 60) ++ ':' :: two (rem % 60) ++ ['Z']))

/-- The certificate's headers, each where it has a value. -/
def certHeaders (fwd : MtlsForwardHeaders) (cert : ForwardedCertificate) : List (String × String) :=
  [("Fingerprint",some cert.fingerprintColon),("Subject-CN",cert.subjectCn),("Issuer-CN",cert.issuerCn),
    ("Not-After",cert.notAfter.bind unixSecsToRfc3339)].filterMap fun (suffix,value) => value.map (fwd.pfx ++ "-" ++ suffix,·)

def injectClientCertHeaders (headers : Headers) (fwd : MtlsForwardHeaders) (cert : ForwardedCertificate) : Headers :=
  (certHeaders fwd cert).foldl (fun headers h => insertNamed headers h.1 h.2) (headers.keep fun n => !fwd.bears n)

/-- The tokens of every `Connection` header, each once. -/
def connectionTokens (headers : Headers) : List String :=
  (headers.getAll "connection").foldl (fun tokens value => ((toStr value).elim [] (Text.split ',')).foldl (fun tokens t =>
    let t := Text.trim t
    if t ≠ "" && !tokens.any (Text.eqIgnoreAsciiCase · t) then tokens ++ [t] else tokens) tokens) []

/-- The header stays on this hop. -/
def hopByHop (tokens : List String) (keepUpgrade preserveTe : Bool) (name : String) : Bool :=
  if tokens.any (Text.eqIgnoreAsciiCase · name) then !(keepUpgrade && name = "upgrade")
  else name ∈ ["connection","keep-alive","proxy-authenticate","proxy-authorization","proxy-connection","trailer","transfer-encoding"] ||
    (name = "te" && !preserveTe) || (name = "upgrade" && !keepUpgrade)

def stripHopByHop (headers : Headers) (keepUpgrade preserveTe : Bool) : Headers :=
  headers.keep fun n => !hopByHop (connectionTokens headers) keepUpgrade preserveTe n

def xff (ctx : ForwardContext) (headers : Headers) : String :=
  if ctx.trusted then ((headers.get "x-forwarded-for").bind toStr).elim ctx.peer fun existing => existing ++ ", " ++ ctx.peer
  else ctx.peer

/-- A tunnel keeps its `Connection` header. -/
def insertConnection (ctx : ForwardContext) (tokens : List String) (headers : Headers) : Headers :=
  if ctx.wantsUpgrade then
    let tokens := if tokens.any (Text.eqIgnoreAsciiCase · "upgrade") then tokens else tokens ++ ["Upgrade"]
    insertValue headers "connection" (", ".intercalate tokens)
  else headers

def insertForwarded (ctx : ForwardContext) (xff : String) (headers : Headers) : Headers :=
  insertValue (insertValue headers "x-forwarded-for" xff) "x-real-ip" ctx.peer

def insertIdentity (ctx : ForwardContext) (headers : Headers) : Headers :=
  ctx.identity.elim headers fun identity =>
    insertValue (insertValue headers "x-consumer-name" identity.consumerName) "x-consumer-type" (consumerTypeStr identity.consumerType)

def insertClientCert (fwd : MtlsForwardHeaders) (ctx : ForwardContext) (headers : Headers) : Headers :=
  if fwd.enabled then ctx.clientCert.elim headers (injectClientCertHeaders headers fwd) else headers

/-- The headers with everything the gateway says of the request itself. -/
def injected (fwd : MtlsForwardHeaders) (ctx : ForwardContext) (headers : Headers) : Headers :=
  let headers := stripConsumerHeaders headers
  insertClientCert fwd ctx (insertIdentity ctx (insertForwarded ctx (xff ctx headers)
    (insertConnection ctx (connectionTokens headers) (stripHopByHop headers ctx.wantsUpgrade ctx.grpc))))

def insertBearer (ctx : ForwardContext) (headers : Headers) : Headers :=
  ctx.bearer.elim headers fun token => insertValue headers "authorization" ("Bearer " ++ token)

def appendNamed (headers : Headers) (name value : String) : Headers :=
  match headerName name, toStr value with
  | some n, some v => headers.append n v
  | _, _ => headers

def renameHeader (headers : Headers) (src dst : String) : Headers :=
  match headerName src, headerName dst with
  | some f, some t => (headers.getAll f).foldl (fun headers v => headers.append t v) (headers.remove f)
  | _, _ => headers

def removeNamed (headers : Headers) (name : String) : Headers := (headerName name).elim headers headers.remove

def applyHeaderOps (headers : Headers) (ops : HeaderOps) : Headers :=
  let headers := ops.set.foldl (fun headers h => insertNamed headers h.1 h.2) headers
  let headers := ops.add.foldl (fun headers h => appendNamed headers h.1 h.2) headers
  let headers := ops.rename.foldl (fun headers h => renameHeader headers h.1 h.2) headers
  ops.remove.foldl removeNamed headers

/-- The headers the upstream is sent; the route's transforms have the last hand. -/
def forwarded (fwd : MtlsForwardHeaders) (ctx : ForwardContext) (ops : Option HeaderOps) (headers : Headers) : Headers :=
  let headers := insertBearer ctx (injected fwd ctx headers)
  ops.elim headers (applyHeaderOps headers)

/-- A header that tells an identity. -/
def MtlsForwardHeaders.trust (fwd : MtlsForwardHeaders) (name : String) : Bool := fwd.bears name || bearsConsumer name

/-- The identity headers are what the gateway says, whatever the client sent. -/
def GatewaySaid (fwd : MtlsForwardHeaders) (ctx : ForwardContext) : Prop :=
  ∀ headers, (injected fwd ctx headers).keep fwd.trust = (injected fwd ctx []).keep fwd.trust

/-- Two requests that differ in identity headers only are forwarded alike. -/
def ForwardedAlike (fwd : MtlsForwardHeaders) (ctx : ForwardContext) (ops : Option HeaderOps) : Prop :=
  ∀ headers headers' : Headers, headers.keep (!fwd.trust ·) = headers'.keep (!fwd.trust ·) →
    forwarded fwd ctx ops headers = forwarded fwd ctx ops headers'

section Keep
open HeaderMap
variable {headers headers' : Headers} {q : String → Bool} {name value value' : String}

/-- An insertion shows among what passes only where its name passes. -/
theorem keep_insertValue_congr (h : keep q headers = keep q headers') (hv : q name = true → value = value') :
    keep q (insertValue headers name value) = keep q (insertValue headers' name value') := by
  cases hq : q name with
  | true =>
    obtain rfl := hv hq
    cases hvalue : toStr value with
    | none => simpa [insertValue,hvalue] using h
    | some v => simp [insertValue,hvalue,keep_insert _ hq,h]
  | false =>
    have hdrop : ∀ (headers : Headers) v, keep q (insertValue headers name v) = keep q headers := by
      intro headers v
      cases hvalue : toStr v with
      | none => simp [insertValue,hvalue]
      | some v => simp [insertValue,hvalue,keep_insert_of_not _ hq]
    rw [hdrop,hdrop,h]

theorem keep_insertNamed_congr (h : keep q headers = keep q headers') :
    keep q (insertNamed headers name value) = keep q (insertNamed headers' name value) := by
  unfold insertNamed
  cases headerName name with
  | none => exact h
  | some n => exact keep_insertValue_congr h fun _ => rfl

theorem keep_foldl_insertNamed_congr (hs : List (String × String)) (h : keep q headers = keep q headers') :
    keep q (hs.foldl (fun headers h => insertNamed headers h.1 h.2) headers) =
      keep q (hs.foldl (fun headers h => insertNamed headers h.1 h.2) headers') := by
  induction hs generalizing headers headers' with
  | nil => exact h
  | cons h0 hs ih => exact ih (keep_insertNamed_congr h)

theorem getAll_insertValue (h : name ≠ value') : (insertValue headers value' value).getAll name = headers.getAll name := by
  unfold insertValue
  cases toStr value with
  | none => rfl
  | some v => exact getAll_insert headers h

end Keep

/-- The headers before those of the certificate. -/
def beforeCert (ctx : ForwardContext) (headers : Headers) : Headers :=
  insertIdentity ctx (insertForwarded ctx (xff ctx headers)
    (insertConnection ctx (connectionTokens headers) (stripHopByHop headers ctx.wantsUpgrade ctx.grpc)))

section Forward
open HeaderMap
variable {fwd : MtlsForwardHeaders} {ctx : ForwardContext} {headers headers' : Headers} {q : String → Bool}

/-- What passes of the headers before the certificate's depends on what passes of the
stripped ones, and on the values of what is inserted and passes. -/
theorem keep_beforeCert_congr
    (h : keep q (stripHopByHop headers ctx.wantsUpgrade ctx.grpc) = keep q (stripHopByHop headers' ctx.wantsUpgrade ctx.grpc))
    (htokens : q "connection" = true → connectionTokens headers = connectionTokens headers')
    (hxff : q "x-forwarded-for" = true → xff ctx headers = xff ctx headers') :
    keep q (beforeCert ctx headers) = keep q (beforeCert ctx headers') := by
  have hconn : keep q (insertConnection ctx (connectionTokens headers) (stripHopByHop headers ctx.wantsUpgrade ctx.grpc)) =
      keep q (insertConnection ctx (connectionTokens headers') (stripHopByHop headers' ctx.wantsUpgrade ctx.grpc)) := by
    unfold insertConnection
    by_cases hw : ctx.wantsUpgrade = true
    · rw [if_pos hw,if_pos hw]
      exact keep_insertValue_congr h fun hq => by rw [htokens hq]
    · rw [if_neg hw,if_neg hw]
      exact h
  have hforwarded : keep q (insertForwarded ctx (xff ctx headers)
        (insertConnection ctx (connectionTokens headers) (stripHopByHop headers ctx.wantsUpgrade ctx.grpc))) =
      keep q (insertForwarded ctx (xff ctx headers')
        (insertConnection ctx (connectionTokens headers') (stripHopByHop headers' ctx.wantsUpgrade ctx.grpc))) :=
    keep_insertValue_congr (keep_insertValue_congr hconn hxff) fun _ => rfl
  unfold beforeCert insertIdentity
  cases ctx.identity with
  | none => exact hforwarded
  | some identity => exact keep_insertValue_congr (keep_insertValue_congr hforwarded fun _ => rfl) fun _ => rfl

theorem injected_eq (henabled : fwd.enabled = true) : injected fwd ctx headers =
    ctx.clientCert.elim (beforeCert ctx (stripConsumerHeaders headers))
      (injectClientCertHeaders (beforeCert ctx (stripConsumerHeaders headers)) fwd) := by
  simp [injected,insertClientCert,henabled,beforeCert]

/-- The certificate's headers take the place of every header with their prefix. -/
theorem keep_injectClientCertHeaders_congr {cert : ForwardedCertificate}
    (h : keep (fun n => q n && !fwd.bears n) headers = keep (fun n => q n && !fwd.bears n) headers') :
    keep q (injectClientCertHeaders headers fwd cert) = keep q (injectClientCertHeaders headers' fwd cert) := by
  apply keep_foldl_insertNamed_congr
  rw [keep_keep,keep_keep]
  exact h

/-- Consumer headers come from the gateway alone. -/
theorem keep_consumer_beforeCert (hq : ∀ n, q n = true → bearsConsumer n = true) :
    keep q (beforeCert ctx (stripConsumerHeaders headers)) = keep q (beforeCert ctx (stripConsumerHeaders headers')) := by
  have hnone : ∀ headers : Headers, keep q (stripHopByHop (stripConsumerHeaders headers) ctx.wantsUpgrade ctx.grpc) = [] := by
    intro headers
    rw [stripHopByHop,stripConsumerHeaders,keep_comm,keep_keep,keep,keep,List.filter_filter,List.filter_eq_nil_iff]
    intro e _ he
    simp only [Bool.and_eq_true,Bool.not_eq_true'] at he
    obtain ⟨⟨_,hpass⟩,hnot⟩ := he
    rw [hq _ hpass] at hnot
    cases hnot
  apply keep_beforeCert_congr
  · rw [hnone,hnone]
  · exact fun h => absurd (hq _ h) (by decide)
  · exact fun h => absurd (hq _ h) (by decide)

theorem bearsConsumer_of_bears (hsub : bearsConsumer (Text.toAsciiLowercase fwd.pfx) = true) {n : String} (h : fwd.bears n = true) :
    bearsConsumer n = true := by
  rw [bearsConsumer,Text.startsWith,List.isPrefixOf_iff_prefix] at hsub ⊢
  rw [MtlsForwardHeaders.bears,Text.startsWith,List.isPrefixOf_iff_prefix] at h
  exact hsub.trans h

/-- With a certificate, or a prefix of the consumer's own, the gateway alone says. -/
theorem gatewaySaid_of (henabled : fwd.enabled = true)
    (h : ctx.clientCert.isSome ∨ bearsConsumer (Text.toAsciiLowercase fwd.pfx) = true) : GatewaySaid fwd ctx := by
  intro headers
  rw [injected_eq henabled,injected_eq henabled]
  cases hcert : ctx.clientCert with
  | some cert =>
    apply keep_injectClientCertHeaders_congr
    apply keep_consumer_beforeCert
    intro n hn
    simp only [MtlsForwardHeaders.trust,Bool.and_eq_true,Bool.or_eq_true,Bool.not_eq_true'] at hn
    obtain ⟨hbears | hconsumer,hnot⟩ := hn
    · rw [hbears] at hnot
      cases hnot
    · exact hconsumer
  | none =>
    have hsub := h.resolve_left (by simp [hcert])
    apply keep_consumer_beforeCert
    intro n hn
    rcases Bool.or_eq_true_iff.mp hn with hbears | hconsumer
    · exact bearsConsumer_of_bears hsub hbears
    · exact hconsumer

theorem injected_alike_of (henabled : fwd.enabled = true)
    (h : (ctx.clientCert.isSome ∧ fwd.bears "connection" = false) ∨ bearsConsumer (Text.toAsciiLowercase fwd.pfx) = true)
    (halike : keep (!fwd.trust ·) headers = keep (!fwd.trust ·) headers') : injected fwd ctx headers = injected fwd ctx headers' := by
  rw [injected_eq henabled,injected_eq henabled]
  by_cases hsub : bearsConsumer (Text.toAsciiLowercase fwd.pfx) = true
  · have htrust : ∀ n, fwd.trust n = bearsConsumer n := by
      intro n
      cases hb : fwd.bears n with
      | true => simp [MtlsForwardHeaders.trust,hb,bearsConsumer_of_bears hsub hb]
      | false => simp [MtlsForwardHeaders.trust,hb]
    have hstrip : stripConsumerHeaders headers = stripConsumerHeaders headers' := by
      simpa only [stripConsumerHeaders,htrust] using halike
    rw [hstrip]
  · obtain ⟨hcert,hconn⟩ := h.resolve_right hsub
    obtain ⟨cert,hcert⟩ := Option.isSome_iff_exists.mp hcert
    have huntrusted : (fun n => !fwd.trust n) = fun n => !fwd.bears n && !bearsConsumer n := by
      funext n
      simp [MtlsForwardHeaders.trust]
    have hkept : ∀ n, fwd.bears n = false → bearsConsumer n = false →
        (stripConsumerHeaders headers).getAll n = (stripConsumerHeaders headers').getAll n := by
      intro n hb hc
      have hsent : ∀ headers : Headers, getAll (keep (!fwd.trust ·) headers) n = getAll headers n := fun headers =>
        getAll_keep headers (by simp [MtlsForwardHeaders.trust,hb,hc])
      rw [stripConsumerHeaders,stripConsumerHeaders,getAll_keep _ (by simp [hc]),getAll_keep _ (by simp [hc]),← hsent,halike,hsent]
    have htokens : connectionTokens (stripConsumerHeaders headers) = connectionTokens (stripConsumerHeaders headers') := by
      rw [connectionTokens,connectionTokens,hkept "connection" hconn (by decide)]
    have hbefore : keep (fun n => !fwd.bears n) (beforeCert ctx (stripConsumerHeaders headers)) =
        keep (fun n => !fwd.bears n) (beforeCert ctx (stripConsumerHeaders headers')) := by
      apply keep_beforeCert_congr
      · rw [stripHopByHop,stripHopByHop,htokens,keep_comm,keep_comm (stripConsumerHeaders headers'),stripConsumerHeaders,
          stripConsumerHeaders,keep_keep headers,keep_keep headers',← huntrusted,halike]
      · exact fun _ => htokens
      · intro hx
        have hb : fwd.bears "x-forwarded-for" = false := by simpa using hx
        rw [xff,xff,HeaderMap.get,HeaderMap.get,hkept "x-forwarded-for" hb (by decide)]
    rw [hcert,Option.elim_some,Option.elim_some,injectClientCertHeaders,injectClientCertHeaders,hbefore]

theorem forwardedAlike_of (henabled : fwd.enabled = true) (ops : Option HeaderOps)
    (h : (ctx.clientCert.isSome ∧ fwd.bears "connection" = false) ∨ bearsConsumer (Text.toAsciiLowercase fwd.pfx) = true) :
    ForwardedAlike fwd ctx ops := by
  intro headers headers' halike
  rw [forwarded,forwarded,injected_alike_of henabled h halike]

end Forward

section Fresh
open HeaderMap
variable {fwd : MtlsForwardHeaders} {ctx : ForwardContext} {headers : Headers} {n : String}

/-- A name longer than those the gateway knows. -/
def Long (n : String) : Prop := 20 ≤ n.length

theorem Long.ne (h : Long n) {name : String} (hname : name.length < 20) : n ≠ name := by
  rintro rfl
  exact absurd h (Nat.not_le.mpr hname)

theorem getAll_beforeCert (hn : Long n) :
    (beforeCert ctx headers).getAll n = (stripHopByHop headers ctx.wantsUpgrade ctx.grpc).getAll n := by
  have hforwarded : (insertForwarded ctx (xff ctx headers)
      (insertConnection ctx (connectionTokens headers) (stripHopByHop headers ctx.wantsUpgrade ctx.grpc))).getAll n =
      (stripHopByHop headers ctx.wantsUpgrade ctx.grpc).getAll n := by
    rw [insertForwarded,getAll_insertValue (hn.ne (by decide)),getAll_insertValue (hn.ne (by decide)),insertConnection]
    by_cases hw : ctx.wantsUpgrade = true
    · rw [if_pos hw]
      exact getAll_insertValue (hn.ne (by decide))
    · rw [if_neg hw]
  rw [beforeCert,insertIdentity]
  cases ctx.identity with
  | none => exact hforwarded
  | some identity =>
    rw [Option.elim_some,getAll_insertValue (hn.ne (by decide)),getAll_insertValue (hn.ne (by decide))]
    exact hforwarded

theorem hopByHop_nil (hn : Long n) (keepUpgrade preserveTe : Bool) : hopByHop [] keepUpgrade preserveTe n = false := by
  have hshort : ∀ name ∈ ["connection","keep-alive","proxy-authenticate","proxy-authorization","proxy-connection","trailer",
      "transfer-encoding"], name.length < 20 := by decide
  have hknown : n ∉ ["connection","keep-alive","proxy-authenticate","proxy-authorization","proxy-connection","trailer",
      "transfer-encoding"] := fun h => hn.ne (hshort n h) rfl
  have hte : n ≠ "te" := hn.ne (by decide)
  have hupgrade : n ≠ "upgrade" := hn.ne (by decide)
  rw [hopByHop,List.any_nil,if_neg Bool.false_ne_true]
  simp only [hknown,hte,hupgrade,decide_false,Bool.false_and,Bool.or_false]

theorem connectionTokens_eq_nil (h : headers.getAll "connection" = []) : connectionTokens headers = [] := by
  rw [connectionTokens,h]
  rfl

/-- A header with a name of its own, sent alone, stays as it is up to the certificate's. -/
theorem getAll_beforeCert_alone (hn : Long n) (hc : bearsConsumer n = false) :
    (beforeCert ctx (stripConsumerHeaders [(n,"1")])).getAll n = ["1"] := by
  have hstrip : stripConsumerHeaders [(n,"1")] = [(n,"1")] := by simp [stripConsumerHeaders,keep,hc]
  have htokens : connectionTokens [(n,"1")] = [] := by
    apply connectionTokens_eq_nil
    have hne : n ≠ "connection" := hn.ne (by decide)
    simp [getAll,hne]
  rw [getAll_beforeCert hn,hstrip,stripHopByHop,getAll_keep _ (by rw [htokens,hopByHop_nil hn]; rfl)]
  simp [getAll]

theorem getAll_beforeCert_nil (hn : Long n) : (beforeCert ctx (stripConsumerHeaders [])).getAll n = [] := by
  rw [getAll_beforeCert hn]
  rfl

/-- Letters no name the gateway knows has. -/
def zs (k : ℕ) : List Char := List.replicate k 'z'

/-- Letters it does not have put no text under a prefix it was not under. -/
theorem prefix_of_prefix_zs {start cs : List Char} {k : ℕ} (hz : 'z' ∉ start) (h : start <+: cs ++ zs k) : start <+: cs := by
  rcases List.prefix_or_prefix_of_prefix h (List.prefix_append cs (zs k)) with h' | ⟨t,ht⟩
  · exact h'
  · subst ht
    rw [List.prefix_append_right_inj] at h
    cases t with
    | nil => simp
    | cons c t =>
      have hc : c = 'z' := List.eq_of_mem_replicate (h.subset List.mem_cons_self)
      exact absurd (by simp [hc]) hz

private theorem z_notMem_consumer : 'z' ∉ "x-consumer-".toList := by decide

/-- Some name bears the prefix and is none of the consumer's. -/
theorem exists_bears (hsub : bearsConsumer (Text.toAsciiLowercase fwd.pfx) = false) :
    ∃ n, Long n ∧ fwd.bears n = true ∧ bearsConsumer n = false := by
  refine ⟨String.ofList ((Text.toAsciiLowercase fwd.pfx).toList ++ zs 20),?_,?_,?_⟩
  · simp only [Long,String.length_ofList,List.length_append,zs,List.length_replicate]
    omega
  · rw [MtlsForwardHeaders.bears,Text.startsWith,List.isPrefixOf_iff_prefix,String.toList_ofList]
    exact List.prefix_append _ _
  · rw [← Bool.not_eq_true,bearsConsumer,Text.startsWith,List.isPrefixOf_iff_prefix] at hsub ⊢
    have hlist : (String.ofList ((Text.toAsciiLowercase fwd.pfx).toList ++ zs 20)).toList = (Text.toAsciiLowercase fwd.pfx).toList ++ zs 20 :=
      String.toList_ofList
    rw [hlist]
    exact fun h => hsub (prefix_of_prefix_zs z_notMem_consumer h)

/-- Without a certificate, a header that bears the prefix reaches the upstream. -/
theorem not_gatewaySaid (henabled : fwd.enabled = true) (hcert : ctx.clientCert = none)
    (hsub : bearsConsumer (Text.toAsciiLowercase fwd.pfx) = false) : ¬ GatewaySaid fwd ctx := by
  obtain ⟨n,hlong,hbears,hconsumer⟩ := exists_bears hsub
  have hpass : fwd.trust n = true := by simp [MtlsForwardHeaders.trust,hbears]
  intro hsaid
  have hsame := hsaid [(n,"1")]
  rw [injected_eq henabled,injected_eq henabled,hcert,Option.elim_none,Option.elim_none] at hsame
  have hvalues : ["1"] = ([] : List String) := by
    rw [← getAll_beforeCert_alone hlong hconsumer,← getAll_keep _ hpass,hsame,getAll_keep _ hpass,getAll_beforeCert_nil hlong]
  cases hvalues

theorem headerName_length {name n' : String} (h : headerName name = some n') : n'.length = name.length := by
  rw [headerName] at h
  split_ifs at h
  obtain rfl := Option.some.inj h
  simp [Text.toAsciiLowercase,String.length_ofList,String.length_toList]

theorem getAll_insertNamed {name value : String} (h : name.length < n.length) :
    (insertNamed headers name value).getAll n = headers.getAll n := by
  rw [insertNamed]
  cases hname : headerName name with
  | none => rfl
  | some n' =>
    have hne : n ≠ n' := by
      rintro rfl
      have := headerName_length hname
      omega
    exact getAll_insertValue hne

theorem getAll_foldl {α : Type*} (f : Headers → α → Headers) (as : List α)
    (h : ∀ a ∈ as, ∀ headers, (f headers a).getAll n = headers.getAll n) : (as.foldl f headers).getAll n = headers.getAll n := by
  induction as generalizing headers with
  | nil => rfl
  | cons a as ih =>
    rw [List.foldl_cons,ih fun b hb => h b (List.mem_cons_of_mem a hb),h a List.mem_cons_self]

/-- The names a route's transforms speak of. -/
def opNames (ops : HeaderOps) : List String :=
  ops.set.map (·.1) ++ ops.add.map (·.1) ++ ops.rename.flatMap (fun r => [r.1,r.2]) ++ ops.remove

theorem getAll_applyHeaderOps {ops : HeaderOps} (h : ∀ name ∈ opNames ops, name.length < n.length) :
    (applyHeaderOps headers ops).getAll n = headers.getAll n := by
  have hne : ∀ {name n'}, name ∈ opNames ops → headerName name = some n' → n ≠ n' := by
    rintro name n' hmem hname rfl
    have hlen := headerName_length hname
    have hlt := h name hmem
    omega
  rw [applyHeaderOps,getAll_foldl,getAll_foldl,getAll_foldl,getAll_foldl]
  · intro e he headers
    exact getAll_insertNamed (h e.1 (List.mem_append_left _ (List.mem_append_left _ (List.mem_append_left _ (List.mem_map_of_mem he)))))
  · intro e he headers
    rw [appendNamed]
    split
    · rename_i n' v hname _
      have hmem : e.1 ∈ opNames ops := List.mem_append_left _ (List.mem_append_left _ (List.mem_append_right _ (List.mem_map_of_mem he)))
      exact getAll_append headers (hne hmem hname)
    · rfl
  · intro e he headers
    rw [renameHeader]
    split
    · rename_i f t hf ht
      have hmem : ∀ name ∈ [e.1,e.2], name ∈ opNames ops := fun name hname =>
        List.mem_append_left _ (List.mem_append_right _ (List.mem_flatMap.mpr ⟨e,he,hname⟩))
      rw [getAll_foldl]
      · exact getAll_remove headers (hne (hmem e.1 (by simp)) hf)
      · intro v _ headers
        exact getAll_append headers (hne (hmem e.2 (by simp)) ht)
    · rfl
  · intro e he headers
    rw [removeNamed]
    cases hname : headerName e with
    | none => rfl
    | some n' => exact getAll_remove headers (hne (List.mem_append_right _ he) hname)

theorem getAll_forwarded {ops : Option HeaderOps} (hlong : Long n) (h : ∀ o ∈ ops, ∀ name ∈ opNames o, name.length < n.length) :
    (forwarded fwd ctx ops headers).getAll n = (injected fwd ctx headers).getAll n := by
  have hbearer : (insertBearer ctx (injected fwd ctx headers)).getAll n = (injected fwd ctx headers).getAll n := by
    rw [insertBearer]
    cases ctx.bearer with
    | none => rfl
    | some token => exact getAll_insertValue (hlong.ne (by decide))
  cases ops with
  | none => exact hbearer
  | some o =>
    rw [forwarded,Option.elim_some,getAll_applyHeaderOps (h o rfl)]
    exact hbearer

theorem getAll_injectClientCertHeaders {cert : ForwardedCertificate} (hb : fwd.bears n = false)
    (hlen : ∀ h ∈ certHeaders fwd cert, h.1.length < n.length) :
    (injectClientCertHeaders headers fwd cert).getAll n = headers.getAll n := by
  rw [injectClientCertHeaders,getAll_foldl _ _ fun h hh headers => getAll_insertNamed (hlen h hh)]
  exact getAll_keep headers (by simp [hb])

section Zs
variable {k : ℕ}

theorem toStr_zs (k : ℕ) : toStr (String.ofList (zs k)) = some (String.ofList (zs k)) := by
  rw [toStr,if_pos]
  rw [String.toList_ofList,List.all_eq_true]
  intro c hc
  rw [List.eq_of_mem_replicate hc]
  decide

theorem trim_zs (k : ℕ) : Text.trim (String.ofList (zs k)) = String.ofList (zs k) := by
  have hdrop : (zs k).dropWhile Text.isWhitespace = zs k := by
    cases k with
    | zero => rfl
    | succ k => rw [zs,List.replicate_succ,List.dropWhile_cons_of_neg (by decide)]
  have hreverse : (zs k).reverse = zs k := List.reverse_replicate
  rw [Text.trim,String.toList_ofList,Text.trimChars,hdrop,hreverse,hdrop,hreverse]

theorem split_zs (k : ℕ) : Text.split ',' (String.ofList (zs k)) = [String.ofList (zs k)] := by
  apply Text.split_eq_singleton
  rw [String.toList_ofList]
  exact fun h => absurd (List.eq_of_mem_replicate h) (by decide)

theorem bearsConsumer_zs (k : ℕ) : bearsConsumer (String.ofList (zs k)) = false := by
  rw [← Bool.not_eq_true,bearsConsumer,Text.startsWith,List.isPrefixOf_iff_prefix]
  have hlist : (String.ofList (zs k)).toList = [] ++ zs k := String.toList_ofList
  rw [hlist]
  intro h
  have hnil := List.prefix_nil.mp (prefix_of_prefix_zs z_notMem_consumer h)
  cases hnil

theorem connectionTokens_zs (hk : 20 ≤ k) {headers : Headers} (h : headers.getAll "connection" = [String.ofList (zs k)]) :
    connectionTokens headers = [String.ofList (zs k)] := by
  have hne : String.ofList (zs k) ≠ "" := by
    intro he
    have hlen := congrArg String.length he
    rw [String.length_ofList,zs,List.length_replicate] at hlen
    exact absurd hlen (by simp; omega)
  rw [connectionTokens,h,List.foldl_cons,List.foldl_nil,toStr_zs,Option.elim_some,split_zs,List.foldl_cons,List.foldl_nil,trim_zs]
  simp [hne]

/-- A `Connection` header takes the header it names away. -/
theorem getAll_beforeCert_connection (hk : 20 ≤ k) :
    (beforeCert ctx (stripConsumerHeaders [("connection",String.ofList (zs k)),(String.ofList (zs k),"1")])).getAll
      (String.ofList (zs k)) = [] := by
  have hlong : Long (String.ofList (zs k)) := by
    rw [Long,String.length_ofList,zs,List.length_replicate]
    exact hk
  have hne : String.ofList (zs k) ≠ "connection" := hlong.ne (by decide)
  have hconsumer : bearsConsumer "connection" = false := by decide
  have hstrip : stripConsumerHeaders [("connection",String.ofList (zs k)),(String.ofList (zs k),"1")] =
      [("connection",String.ofList (zs k)),(String.ofList (zs k),"1")] := by
    simp [stripConsumerHeaders,keep,bearsConsumer_zs,hconsumer]
  have hupgrade : String.ofList (zs k) ≠ "upgrade" := hlong.ne (by decide)
  have htokens : connectionTokens [("connection",String.ofList (zs k)),(String.ofList (zs k),"1")] = [String.ofList (zs k)] :=
    connectionTokens_zs hk (by simp [getAll,hne])
  rw [getAll_beforeCert hlong,hstrip,stripHopByHop,getAll_keep_of_not]
  rw [htokens,hopByHop,if_pos (by simp [Text.eqIgnoreAsciiCase])]
  simp [hupgrade]

end Zs

theorem exists_length_lt (names : List String) : ∃ k, 20 ≤ k ∧ ∀ name ∈ names, name.length < k := by
  induction names with
  | nil => exact ⟨20,le_rfl,fun _ h => absurd h List.not_mem_nil⟩
  | cons n names ih =>
    obtain ⟨k,hk,hall⟩ := ih
    refine ⟨max k (n.length + 1),le_max_of_le_left hk,?_⟩
    intro name hname
    rcases List.mem_cons.mp hname with rfl | hname
    · exact lt_max_of_lt_right (Nat.lt_succ_self _)
    · exact lt_max_of_lt_left (hall name hname)

/-- A prefix of `Connection`'s is none of a text of other letters. -/
theorem bears_zs (hconn : fwd.bears "connection" = true) (k : ℕ) : fwd.bears (String.ofList (zs k)) = false := by
  rw [MtlsForwardHeaders.bears,Text.startsWith,List.isPrefixOf_iff_prefix] at hconn
  rw [← Bool.not_eq_true,MtlsForwardHeaders.bears,Text.startsWith,List.isPrefixOf_iff_prefix]
  have hz : 'z' ∉ (Text.toAsciiLowercase fwd.pfx).toList := fun h => absurd (hconn.subset h) (by decide)
  have hlist : (String.ofList (zs k)).toList = [] ++ zs k := String.toList_ofList
  rw [hlist]
  intro h
  have hnil := List.prefix_nil.mp (prefix_of_prefix_zs hz h)
  rw [Text.toAsciiLowercase,String.toList_ofList,List.map_eq_nil_iff,String.toList_eq_nil_iff] at hnil
  exact fwd.pfxValid.1 hnil

/-- Where the prefix is that of `Connection`, a client that sends it decides what else is
forwarded. -/
theorem not_forwardedAlike (henabled : fwd.enabled = true) (ops : Option HeaderOps) {cert : ForwardedCertificate}
    (hcert : ctx.clientCert = some cert) (hconn : fwd.bears "connection" = true) : ¬ ForwardedAlike fwd ctx ops := by
  obtain ⟨k,hk,hall⟩ := exists_length_lt ((ops.elim [] opNames) ++ (certHeaders fwd cert).map (·.1))
  have hlength : (String.ofList (zs k)).length = k := by rw [String.length_ofList,zs,List.length_replicate]
  have hlong : Long (String.ofList (zs k)) := by
    rw [Long,hlength]
    exact hk
  have hops : ∀ o ∈ ops, ∀ name ∈ opNames o, name.length < (String.ofList (zs k)).length := by
    rintro o rfl name hname
    rw [hlength]
    exact hall name (List.mem_append_left _ hname)
  have hcerts : ∀ h ∈ certHeaders fwd cert, h.1.length < (String.ofList (zs k)).length := by
    intro h hh
    rw [hlength]
    exact hall h.1 (List.mem_append_right _ (List.mem_map_of_mem hh))
  have hforwarded : ∀ headers : Headers, (forwarded fwd ctx ops headers).getAll (String.ofList (zs k)) =
      (beforeCert ctx (stripConsumerHeaders headers)).getAll (String.ofList (zs k)) := by
    intro headers
    rw [getAll_forwarded hlong hops,injected_eq henabled,hcert,Option.elim_some,
      getAll_injectClientCertHeaders (bears_zs hconn k) hcerts]
  intro halike
  have hsame := halike [("connection",String.ofList (zs k)),(String.ofList (zs k),"1")] [(String.ofList (zs k),"1")]
    (by simp [keep,MtlsForwardHeaders.trust,hconn])
  have hnamed := hforwarded [("connection",String.ofList (zs k)),(String.ofList (zs k),"1")]
  rw [getAll_beforeCert_connection hk,hsame,hforwarded,getAll_beforeCert_alone hlong (bearsConsumer_zs k)] at hnamed
  cases hnamed

end Fresh

section Spoof

private def xClientCert : MtlsForwardHeaders where
  enabled := true
  pfx := "X-Client-Cert"
  pfxValid := by decide

/-- An anonymous request of an untrusted peer. -/
private def anonymous (clientCert : Option ForwardedCertificate) : ForwardContext :=
  ⟨"203.0.113.9",false,false,false,none,clientCert,none⟩

end Spoof

end Dwara.Dataplane
