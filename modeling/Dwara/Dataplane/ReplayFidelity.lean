import Dwara.Dataplane.Replay
import Dwara.Extensions.RateLimiterPass
import Mathlib.Data.List.Flatten
import Mathlib.Data.List.Nodup

/-! Replay against the live pipeline: the route it selects, its authorization, and the
counters its rate-limit rules charge. -/

namespace Dwara.Dataplane.Replay
open Dwara.Config Dwara.Config.Net Dwara.Lib Dwara.Security Dwara.Snapshot
open Dwara.Extensions.RateLimiter (Attachments RateLimitKeyContext RateLimitSelector resolved resolved_filter resolved_nodup)

section Live

/-- A request the live pipeline handles, from the loopback address and without a
listener: its head, the identity its credentials gave it, the GeoIP database loaded. -/
structure LiveRequest where
  head : RequestHead
  identity : Option Identity
  geoip : Option GeoipDb
  timestampMs : Int64

def LiveRequest.captured (live : LiveRequest) : ReplayRequest :=
  ⟨live.head.method,live.head.path,live.head.headers,live.identity.map (·.consumerName),live.timestampMs⟩

variable (s : Snapshot) (live : LiveRequest)

def Snapshot.candidates : List (ℕ × Params) := s.routeTable.findCandidates s.matchers live.head.path

/-- The route the live pipeline selects. -/
def liveRoute : Option Route := selectRoute s.gateway.routes s.routeTable live.head (s.candidates live)

def effectiveIp : IpAddr :=
  effectiveClientIp s.gateway.trustedProxies loopback ((live.head.header "x-forwarded-for").bind toStr)

def liveContext : AuthzContext :=
  ⟨live.identity,(live.identity.map (·.groups)).getD [],loopback,effectiveIp s live,live.geoip⟩

/-- The live authorization decision for a route. -/
def liveAuthz (route : Route) : Decision :=
  let chain := authzChain s.gateway route live.identity
  if chain.consumer.isNone && chain.route.isNone && chain.service.isNone && chain.global.isNone then .allow
  else (resolve chain (liveContext s live)).decision

end Live

section Ledger

/-- A rule of a policy: the legacy one, or the stacked one at an index. -/
structure RuleId where
  policy : String
  rule : Option ℕ
  deriving DecidableEq, Repr

/-- The counter of one window of a rule under a key. -/
structure RuleWindow where
  rule : RuleId
  key : String
  windowSeconds : UInt64
  deriving DecidableEq, Repr

/-- One counter for each window of each rule and each key it builds. -/
abbrev Ledger := FixedWindow.Counts RuleWindow Int64

/-- The counter replay keeps for a window of a rule. -/
def RuleWindow.simulated (w : RuleWindow) : String × UInt64 := (w.key,w.windowSeconds)

structure PolicyRule where
  id : Option ℕ
  selectors : List RateLimitSelector
  windows : List (ℕ × UInt64)

/-- The legacy field is a rule of the route. -/
def policyRules (policy : Policy) : List PolicyRule :=
  policy.rateLimit.toList.map (fun rl => ⟨none,[.route],[(rl.requests,rl.windowSeconds)]⟩) ++
    policy.rateLimits.zipIdx.map (fun r => ⟨some r.2,r.1.selector,windows r.1.requestsPer⟩)

/-- Whether a name stands for an enforced policy with a window. -/
def limits (gateway : Gateway) (name : String) : Bool :=
  (policyByName gateway name).any (fun p => !p.dryRun && (policyRules p).any (fun r => r.windows ≠ []))

section
variable (ctx : RateLimitKeyContext) (now : Int64)

/-- Every window of a rule, under the key of the rule's own selectors. -/
def ruleCharges (policy : String) (r : PolicyRule) : List (FixedWindow.Charge RuleWindow Int64) :=
  r.windows.map (fun w => ⟨⟨⟨policy,r.id⟩,joinKey ctx r.selectors,w.2⟩,w.1,now,elapsed w.2 now⟩)

def policyCharges (policy : Policy) : List (FixedWindow.Charge RuleWindow Int64) :=
  if policy.dryRun then [] else (policyRules policy).flatMap (ruleCharges ctx now policy.name)

def nameCharges (gateway : Gateway) (name : String) : List (FixedWindow.Charge RuleWindow Int64) :=
  (policyByName gateway name).elim [] (policyCharges ctx now)

end

variable (s : Snapshot) (live : LiveRequest)

/-- The windows of the distinct enforced rules attached to a route. -/
def routeCharges (route : Route) : List (FixedWindow.Charge RuleWindow Int64) :=
  (resolved (attachments s.gateway route live.identity).names).flatMap
    (nameCharges (keyContext live.captured route) live.timestampMs s.gateway)

/-- What the rules of the live route charge. -/
def charges : List (FixedWindow.Charge RuleWindow Int64) := (liveRoute s live).elim [] (routeCharges s live)

/-- The counters a sequence of requests charges. -/
def chargedBy (requests : List LiveRequest) : Set RuleWindow :=
  {w | ∃ live ∈ requests, ∃ c ∈ charges s live, c.key = w}

def ledgerAfter : List LiveRequest → Ledger := List.foldl (fun ledger live => (FixedWindow.checkAll ledger (charges s live)).1) (fun _ => none)

def counterAfter : List LiveRequest → SimulatedCounter :=
  List.foldl (fun counter live => (decide s live.captured counter).2) (fun _ => none)

end Ledger

section Condition
variable (s : Snapshot) (live : LiveRequest)

/-- A block of rules that cannot tell a live request from its capture. -/
structure Blind (authz : Authz) : Prop where
  address : authz.ipAcl ≠ none → effectiveIp s live = loopback
  location : authz.geoip ≠ none → (liveContext s live).country = none ∧ (liveContext s live).asn = none
  groups : hasIdentityRules authz → ∀ i ∈ live.identity, (consumerByName s.gateway i.consumerName).map (·.groups) = some i.groups
  claims : hasIdentityRules authz → ∀ i ∈ live.identity,
    (missesScope authz i ↔ authz.requiredScopes ≠ []) ∧ (missesClaim authz i ↔ authz.requiredClaims ≠ [])

/-- The route of the first candidate. -/
def firstRoute : Option Route := (s.candidates live).head?.bind (fun c => s.gateway.routes[c.1]?)

/-- A request whose capture holds all that its decisions depend on. -/
structure Covered : Prop where
  criteria : ∀ c ∈ (s.candidates live).head?, ∃ route, s.gateway.routes[c.1]? = some route ∧
    routeApplies route.routeMatch (s.routeTable.acceptMediaType c.1) live.head
  blind : ∀ route ∈ firstRoute s live, ∀ authz,
    (∃ level, (level,some authz) ∈ (authzChain s.gateway route live.identity).links) → Blind s live authz
  attachedOnce : ∀ route ∈ firstRoute s live,
    ((attachments s.gateway route live.identity).names.filter (limits s.gateway)).Nodup
  oneKey : ∀ route ∈ firstRoute s live, ∀ name ∈ (attachments s.gateway route live.identity).names,
    ∀ policy ∈ policyByName s.gateway name, policy.dryRun = false → ∀ r ∈ policyRules policy, r.windows ≠ [] →
      joinKey (keyContext live.captured route) r.selectors = rateLimitKey policy live.captured route

end Condition

section Routing
variable {s : Snapshot} {live : LiveRequest}

theorem replayRoute_eq : replayRoute s live.captured.path = firstRoute s live := by
  rw [replayRoute,RouteTable.findFull_eq_head?]
  rfl

/-- A first candidate that meets its criteria is the route the live pipeline selects. -/
theorem liveRoute_eq (h : Covered s live) : liveRoute s live = firstRoute s live := by
  have hc := h.criteria
  rw [liveRoute,firstRoute]
  cases hcs : s.candidates live with
  | nil => rfl
  | cons c cs =>
    obtain ⟨route,hroute,happlies⟩ := hc c (by rw [hcs]; rfl)
    rw [List.head?_cons,Option.bind_some,selectRoute]
    simp only [hroute,happlies,if_true]

end Routing

section Authorization
variable {s : Snapshot} {live : LiveRequest} {route : Route}

private theorem consumerByName_name {name : String} {c : Consumer} (h : consumerByName s.gateway name = some c) : c.name = name := by
  simpa using List.find?_some h

theorem consumerCfg_captured : consumerCfg s.gateway (replayIdentity s.gateway live.captured) = consumerCfg s.gateway live.identity := by
  rw [replayIdentity,LiveRequest.captured]
  cases live.identity with
  | none => rfl
  | some i =>
    simp only [Option.map_some,Option.bind_some,consumerCfg]
    cases hfound : consumerByName s.gateway i.consumerName with
    | none => rfl
    | some c =>
      rw [Option.map_some,Option.bind_some,consumerByName_name hfound,hfound]

theorem authzChain_captured :
    authzChain s.gateway route (replayIdentity s.gateway live.captured) = authzChain s.gateway route live.identity := by
  rw [authzChain,authzChain,consumerCfg_captured]

theorem attachments_captured :
    attachments s.gateway route (replayIdentity s.gateway live.captured) = attachments s.gateway route live.identity := by
  rw [attachments,attachments,consumerCfg_captured]

def replayContext (s : Snapshot) (live : LiveRequest) : AuthzContext :=
  ⟨replayIdentity s.gateway live.captured,((replayIdentity s.gateway live.captured).map (·.groups)).getD [],loopback,loopback,none⟩

private theorem missesScope_unclaimed (authz : Authz) (name : String) (groups : List String) :
    missesScope authz ⟨name,groups,[]⟩ ↔ authz.requiredScopes ≠ [] := by
  rw [missesScope]
  cases authz.requiredScopes with
  | nil => simp
  | cons scope scopes => simp [Identity.grantedScopes]

private theorem missesClaim_unclaimed (authz : Authz) (name : String) (groups : List String) :
    missesClaim authz ⟨name,groups,[]⟩ ↔ authz.requiredClaims ≠ [] := by
  rw [missesClaim]
  cases authz.requiredClaims with
  | nil => simp
  | cons claim claims => simp

private theorem Blind.replayIdentity {authz : Authz} (h : Blind s live authz) (hrules : hasIdentityRules authz) {i : Identity}
    (hi : live.identity = some i) : replayIdentity s.gateway live.captured = some ⟨i.consumerName,i.groups,[]⟩ := by
  obtain ⟨c,hfound,hgroups⟩ := Option.map_eq_some_iff.mp (h.groups hrules i hi)
  rw [Replay.replayIdentity,LiveRequest.captured,hi]
  simp only [Option.map_some,Option.bind_some,hfound,consumerByName_name hfound,hgroups]

theorem Blind.alike {authz : Authz} (h : Blind s live authz) : Alike authz (replayContext s live) (liveContext s live) where
  address hacl := (h.address hacl).symm
  location hgeo := by
    obtain ⟨hcountry,hasn⟩ := h.location hgeo
    rw [hcountry,hasn]
    exact ⟨rfl,rfl⟩
  groups hrules := by
    rw [replayContext,liveContext]
    cases hi : live.identity with
    | none => rw [Replay.replayIdentity,LiveRequest.captured,hi]; rfl
    | some i => rw [h.replayIdentity hrules hi]; rfl
  identity hrules := by
    rw [replayContext,liveContext]
    cases hi : live.identity with
    | none => rw [Replay.replayIdentity,LiveRequest.captured,hi]; rfl
    | some i =>
      obtain ⟨hscope,hclaim⟩ := h.claims hrules i hi
      have hs : missesScope authz ⟨i.consumerName,i.groups,[]⟩ = missesScope authz i :=
        Bool.eq_iff_iff.mpr ((missesScope_unclaimed authz i.consumerName i.groups).trans hscope.symm)
      have hc : missesClaim authz ⟨i.consumerName,i.groups,[]⟩ = missesClaim authz i :=
        Bool.eq_iff_iff.mpr ((missesClaim_unclaimed authz i.consumerName i.groups).trans hclaim.symm)
      rw [h.replayIdentity hrules hi,Option.map_some,Option.map_some,profile,profile,hs,hc]

/-- Replay and the live pipeline decide alike when no attached block can tell them apart. -/
theorem evaluateAuthz_captured
    (h : ∀ authz, (∃ level, (level,some authz) ∈ (authzChain s.gateway route live.identity).links) → Blind s live authz) :
    evaluateAuthz s.gateway route live.captured = liveAuthz s live route := by
  have hresolve := resolve_congr (fun authz hmem => (h authz hmem).alike)
  rw [evaluateAuthz,liveAuthz,authzChain_captured,← hresolve]
  rfl

end Authorization

section Charges
variable {s : Snapshot} {live : LiveRequest} {route : Route} {ctx : RateLimitKeyContext} {now : Int64}

/-- The windows of a rule, under a given key. -/
def keyedCharges (key : String) (now : Int64) (windows : List (ℕ × UInt64)) : List (FixedWindow.Charge (String × UInt64) Int64) :=
  windows.map (fun w => ⟨(key,w.2),w.1,now,elapsed w.2 now⟩)

private theorem ruleCharges_simulated (policy : String) (r : PolicyRule) :
    (ruleCharges ctx now policy r).map (FixedWindow.Charge.rekey RuleWindow.simulated) =
      keyedCharges (joinKey ctx r.selectors) now r.windows := by
  rw [ruleCharges,List.map_map]
  rfl

private theorem flatMap_zipIdx {α β : Type} (l : List α) (f : α → List β) (n : ℕ) : (l.zipIdx n).flatMap (fun x => f x.1) = l.flatMap f := by
  induction l generalizing n with
  | nil => rfl
  | cons a l ih => rw [List.zipIdx_cons,List.flatMap_cons,List.flatMap_cons,ih]

/-- The checks of an enforced policy, rule by rule. -/
private theorem policyChecks_charges (key : String) {policy : Policy} (hlive : policy.dryRun = false) :
    ((policyChecks key policy).filter (fun c => !c.dryRun)).map (RateCheck.charge now) =
      (policyRules policy).flatMap (fun r => keyedCharges key now r.windows) := by
  have hall : (policyChecks key policy).filter (fun c => !c.dryRun) = policyChecks key policy := by
    refine List.filter_eq_self.mpr fun c hc => ?_
    rw [policyChecks,List.mem_append,List.mem_map,List.mem_flatMap] at hc
    rcases hc with ⟨rl,_,rfl⟩ | ⟨rule,_,hc⟩
    · simp only [hlive,Bool.not_false]
    · obtain ⟨w,_,rfl⟩ := List.mem_map.mp hc
      simp only [hlive,Bool.not_false]
  have hlegacy : (policy.rateLimit.toList.map (fun rl => RateCheck.mk key rl.requests rl.windowSeconds policy.dryRun)).map
        (RateCheck.charge now) =
      (policy.rateLimit.toList.map (fun rl => PolicyRule.mk none [.route] [(rl.requests,rl.windowSeconds)])).flatMap
        (fun r => keyedCharges key now r.windows) := by
    cases policy.rateLimit with
    | none => rfl
    | some rl => rfl
  rw [hall,policyChecks,policyRules,List.map_append,List.flatMap_append,hlegacy,List.map_flatMap]
  congr 1
  rw [List.flatMap_map,flatMap_zipIdx policy.rateLimits (fun rule => keyedCharges key now (windows rule.requestsPer))]
  apply List.flatMap_congr
  intro rule _
  rw [List.map_map]
  rfl

private theorem policyChecks_dryRun (key : String) {policy : Policy} (hdry : policy.dryRun = true) :
    (policyChecks key policy).filter (fun c => !c.dryRun) = [] := by
  refine List.filter_eq_nil_iff.mpr fun c hc => ?_
  rw [policyChecks,List.mem_append,List.mem_map,List.mem_flatMap] at hc
  rcases hc with ⟨rl,_,rfl⟩ | ⟨rule,_,hc⟩
  · simp only [hdry,Bool.not_true,not_false_eq_true,Bool.false_eq_true]
  · obtain ⟨w,_,rfl⟩ := List.mem_map.mp hc
    simp only [hdry,Bool.not_true,not_false_eq_true,Bool.false_eq_true]

/-- A policy whose rules all build its first rule's key charges each rule under its own. -/
private theorem policyCharges_simulated (key : String) (policy : Policy)
    (hkey : policy.dryRun = false → ∀ r ∈ policyRules policy, r.windows ≠ [] → joinKey ctx r.selectors = key) :
    ((policyChecks key policy).filter (fun c => !c.dryRun)).map (RateCheck.charge now) =
      (policyCharges ctx now policy).map (FixedWindow.Charge.rekey RuleWindow.simulated) := by
  rw [policyCharges]
  cases hdry : policy.dryRun with
  | true => rw [policyChecks_dryRun key hdry]; rfl
  | false =>
    rw [policyChecks_charges key hdry,if_neg Bool.false_ne_true,List.map_flatMap]
    apply List.flatMap_congr
    intro r hr
    rw [ruleCharges_simulated]
    by_cases hw : r.windows = []
    · rw [hw]; rfl
    · rw [hkey hdry r hr hw]

private theorem flatMap_filter {α β : Type} (p : α → Bool) (f : α → List β) {l : List α} (h : ∀ a ∈ l, p a = false → f a = []) :
    l.flatMap f = (l.filter p).flatMap f := by
  induction l with
  | nil => rfl
  | cons a l ih =>
    rw [List.flatMap_cons,ih (fun b hb => h b (List.mem_cons_of_mem a hb))]
    cases hp : p a with
    | true => rw [List.filter_cons_of_pos hp,List.flatMap_cons]
    | false => rw [List.filter_cons_of_neg (by simp [hp]),h a List.mem_cons_self hp,List.nil_append]

private theorem nameCharges_unlimited {gateway : Gateway} {name : String} (h : limits gateway name = false) :
    nameCharges ctx now gateway name = [] := by
  rw [nameCharges]
  rw [limits] at h
  cases hfound : policyByName gateway name with
  | none => rfl
  | some policy =>
    rw [hfound,Option.any_some] at h
    rw [Option.elim_some,policyCharges]
    cases hdry : policy.dryRun with
    | true => rfl
    | false =>
      rw [hdry,Bool.not_false,Bool.true_and,List.any_eq_false] at h
      rw [if_neg Bool.false_ne_true,List.flatMap_eq_nil_iff]
      intro r hr
      have hw : r.windows = [] := by simpa using h r hr
      rw [ruleCharges,hw,List.map_nil]

private theorem enforcedCharges_eq : enforcedCharges s.gateway route live.captured =
    (attachments s.gateway route live.identity).names.flatMap (fun name => (policyByName s.gateway name).elim [] (fun policy =>
      ((policyChecks (rateLimitKey policy live.captured route) policy).filter (fun c => !c.dryRun)).map
        (RateCheck.charge live.timestampMs))) := by
  rw [enforcedCharges,rateChecks,attachments_captured,List.filter_flatMap,List.map_flatMap]
  apply List.flatMap_congr
  intro name _
  cases policyByName s.gateway name with
  | none => rfl
  | some policy => rfl

/-- The checks replay makes are those of the attached rules, each under its own key. -/
theorem enforcedCharges_simulated (h : Covered s live) (hroute : firstRoute s live = some route) :
    enforcedCharges s.gateway route live.captured =
      (routeCharges s live route).map (FixedWindow.Charge.rekey RuleWindow.simulated) := by
  have hname : ∀ name ∈ (attachments s.gateway route live.identity).names,
      (policyByName s.gateway name).elim [] (fun policy =>
        ((policyChecks (rateLimitKey policy live.captured route) policy).filter (fun c => !c.dryRun)).map
          (RateCheck.charge live.timestampMs)) =
      (nameCharges (keyContext live.captured route) live.timestampMs s.gateway name).map
        (FixedWindow.Charge.rekey RuleWindow.simulated) := by
    intro name hmem
    rw [nameCharges]
    cases hfound : policyByName s.gateway name with
    | none => rfl
    | some policy => exact policyCharges_simulated _ policy (h.oneKey route hroute name hmem policy hfound)
  have hlimits : ∀ names : List String,
      names.flatMap (nameCharges (keyContext live.captured route) live.timestampMs s.gateway) =
        (names.filter (limits s.gateway)).flatMap (nameCharges (keyContext live.captured route) live.timestampMs s.gateway) :=
    fun _ => flatMap_filter (limits s.gateway) _ (fun _ _ => nameCharges_unlimited)
  rw [enforcedCharges_eq,List.flatMap_congr hname,← List.map_flatMap,routeCharges,hlimits (resolved _),
    resolved_filter (h.attachedOnce route hroute),← hlimits]

section Once

private theorem ruleCharges_nodup (policy : String) (r : PolicyRule) (h : (r.windows.map (·.2)).Nodup) :
    ((ruleCharges ctx now policy r).map (·.key)).Nodup := by
  have hseconds : ((ruleCharges ctx now policy r).map (·.key)).map (·.windowSeconds) = r.windows.map (·.2) := by
    rw [ruleCharges,List.map_map,List.map_map]
    rfl
  exact List.Nodup.of_map (·.windowSeconds) (by rw [hseconds]; exact h)

private theorem windows_nodup (r : RateRequestsPer) : ((windows r).map (·.2)).Nodup := by
  obtain ⟨s,m,h⟩ := r
  cases s <;> cases m <;> cases h <;> simp [windows]

private theorem policyRules_windows {policy : Policy} {r : PolicyRule} (h : r ∈ policyRules policy) : (r.windows.map (·.2)).Nodup := by
  rw [policyRules,List.mem_append,List.mem_map,List.mem_map] at h
  rcases h with ⟨rl,_,rfl⟩ | ⟨rule,_,rfl⟩
  · exact List.nodup_singleton _
  · exact windows_nodup rule.1.requestsPer

private theorem policyRules_ids (policy : Policy) : ((policyRules policy).map (·.id)).Nodup := by
  rw [policyRules,List.map_append]
  refine List.Nodup.append ?_ ?_ ?_
  · cases policy.rateLimit <;> simp
  · have hindices : (policy.rateLimits.zipIdx.map (·.2)).Nodup := by
      rw [List.zipIdx_map_snd]
      exact List.nodup_range'
    rw [List.map_map]
    have := hindices.map (Option.some_injective ℕ)
    rwa [List.map_map] at this
  · intro id hlegacy hstacked
    obtain ⟨r,hr,rfl⟩ := List.mem_map.mp hlegacy
    obtain ⟨r',hr',hid⟩ := List.mem_map.mp hstacked
    obtain ⟨rl,_,rfl⟩ := List.mem_map.mp hr
    obtain ⟨rule,_,rfl⟩ := List.mem_map.mp hr'
    exact Option.some_ne_none rule.2 hid

private theorem flatMap_nodup {α β γ : Type} {l : List α} {f : α → List β} (tag : α → γ) (tag' : β → γ) (hl : (l.map tag).Nodup)
    (hf : ∀ a ∈ l, (f a).Nodup) (htag : ∀ a ∈ l, ∀ b ∈ f a, tag' b = tag a) : (l.flatMap f).Nodup := by
  induction l with
  | nil => exact List.nodup_nil
  | cons a l ih =>
    rw [List.map_cons,List.nodup_cons] at hl
    rw [List.flatMap_cons]
    refine List.Nodup.append (hf a List.mem_cons_self) ?_ ?_
    · exact ih hl.2 (fun x hx => hf x (List.mem_cons_of_mem a hx)) (fun x hx => htag x (List.mem_cons_of_mem a hx))
    · intro b hb hrest
      obtain ⟨x,hx,hbx⟩ := List.mem_flatMap.mp hrest
      have hsame : tag x = tag a := by
        rw [← htag x (List.mem_cons_of_mem a hx) b hbx,htag a List.mem_cons_self b hb]
      exact hl.1 (List.mem_map.mpr ⟨x,hx,hsame⟩)

private theorem ruleCharges_rule {policy : String} {r : PolicyRule} {w : RuleWindow}
    (h : w ∈ (ruleCharges ctx now policy r).map (·.key)) : w.rule = ⟨policy,r.id⟩ := by
  obtain ⟨c,hc,rfl⟩ := List.mem_map.mp h
  obtain ⟨_,_,rfl⟩ := List.mem_map.mp hc
  rfl

private theorem nameCharges_nodup (gateway : Gateway) (name : String) :
    ((nameCharges ctx now gateway name).map (·.key)).Nodup := by
  rw [nameCharges]
  cases policyByName gateway name with
  | none => exact List.nodup_nil
  | some policy =>
    rw [Option.elim_some,policyCharges]
    cases policy.dryRun with
    | true => exact List.nodup_nil
    | false =>
      rw [if_neg Bool.false_ne_true,List.map_flatMap]
      refine flatMap_nodup (·.id) (·.rule.rule) (policyRules_ids policy) ?_ ?_
      · exact fun r hr => ruleCharges_nodup policy.name r (policyRules_windows hr)
      · intro r _ w hw
        rw [ruleCharges_rule hw]

private theorem nameCharges_policy {gateway : Gateway} {name : String} {w : RuleWindow}
    (h : w ∈ (nameCharges ctx now gateway name).map (·.key)) : w.rule.policy = name := by
  rw [nameCharges] at h
  cases hfound : policyByName gateway name with
  | none => rw [hfound] at h; exact absurd h List.not_mem_nil
  | some policy =>
    have hname : policy.name = name := by simpa using List.find?_some hfound
    rw [hfound,Option.elim_some,policyCharges] at h
    cases hdry : policy.dryRun with
    | true => rw [hdry] at h; exact absurd h List.not_mem_nil
    | false =>
      rw [hdry,if_neg Bool.false_ne_true,List.map_flatMap] at h
      obtain ⟨r,_,hw⟩ := List.mem_flatMap.mp h
      rw [ruleCharges_rule hw,hname]

/-- The rules of a route charge each of their windows once. -/
theorem charges_nodup (s : Snapshot) (live : LiveRequest) : ((charges s live).map (·.key)).Nodup := by
  rw [charges]
  cases liveRoute s live with
  | none => exact List.nodup_nil
  | some route =>
    rw [Option.elim_some,routeCharges,List.map_flatMap]
    refine flatMap_nodup id (·.rule.policy) (by rw [List.map_id]; exact resolved_nodup _) ?_ ?_
    · exact fun name _ => nameCharges_nodup s.gateway name
    · exact fun name _ w hw => nameCharges_policy hw

end Once

end Charges

section Run
variable {s : Snapshot} {live : LiveRequest}

/-- One replayed request agrees with the live pipeline: its route, its authorization,
and one charge of each window of the attached rules, under the rule's own key. -/
structure Mirrors (s : Snapshot) (live : LiveRequest) (counter : SimulatedCounter) (ledger : Ledger) : Prop where
  matchedRoute : (decide s live.captured counter).1.matchedRoute = (liveRoute s live).map (·.name)
  authzResult : (decide s live.captured counter).1.authzResult = (liveRoute s live).map (liveAuthz s live)
  charged : (decide s live.captured counter).2 =
    (FixedWindow.checkAll counter ((charges s live).map (FixedWindow.Charge.rekey RuleWindow.simulated))).1
  once : ((charges s live).map (·.key)).Nodup
  verdict : (decide s live.captured counter).1.rateLimitResult.getD true = (FixedWindow.checkAll ledger (charges s live)).2

private theorem evaluateRateLimit_eq (gateway : Gateway) (route : Route) (request : ReplayRequest) (counter : SimulatedCounter) :
    (evaluateRateLimit gateway route request counter).1 = (FixedWindow.checkAll counter (enforcedCharges gateway route request)).1 ∧
      (evaluateRateLimit gateway route request counter).2.getD true =
        (FixedWindow.checkAll counter (enforcedCharges gateway route request)).2 := by
  rw [evaluateRateLimit]
  split
  · rename_i hempty
    rw [enforcedCharges,List.isEmpty_iff.mp hempty]
    exact ⟨rfl,rfl⟩
  · exact ⟨rfl,rfl⟩

/-- What a covered request's replay reports and charges. -/
private theorem decide_covered (h : Covered s live) (counter : SimulatedCounter) :
    (decide s live.captured counter).1.matchedRoute = (liveRoute s live).map (·.name) ∧
      (decide s live.captured counter).1.authzResult = (liveRoute s live).map (liveAuthz s live) ∧
      ((decide s live.captured counter).2,(decide s live.captured counter).1.rateLimitResult.getD true) =
        FixedWindow.checkAll counter ((charges s live).map (FixedWindow.Charge.rekey RuleWindow.simulated)) := by
  rw [decide,replayRoute_eq,charges,liveRoute_eq h]
  cases hroute : firstRoute s live with
  | none => exact ⟨rfl,rfl,rfl⟩
  | some route =>
    have hauthz := evaluateAuthz_captured (h.blind route hroute)
    obtain ⟨hcounter,hverdict⟩ := evaluateRateLimit_eq s.gateway route live.captured counter
    rw [enforcedCharges_simulated h hroute] at hcounter hverdict
    refine ⟨rfl,congrArg some hauthz,Prod.ext hcounter hverdict⟩

/-- One request keeps the counters of replay in step with those of the rules. -/
private theorem mirrors_step (h : Covered s live) {keys : Set RuleWindow} (hapart : Set.InjOn RuleWindow.simulated keys)
    (hkeys : ∀ c ∈ charges s live, c.key ∈ keys) {counter : SimulatedCounter} {ledger : Ledger}
    (hagree : FixedWindow.Agree keys RuleWindow.simulated ledger counter) :
    Mirrors s live counter ledger ∧ FixedWindow.Agree keys RuleWindow.simulated
      (FixedWindow.checkAll ledger (charges s live)).1 (decide s live.captured counter).2 := by
  obtain ⟨hroute,hauthz,hrate⟩ := decide_covered h counter
  obtain ⟨hcounter,hverdict⟩ := Prod.mk.inj hrate
  obtain ⟨hagree,hsame⟩ := hagree.checkAll hapart hkeys
  rw [← hcounter] at hagree
  exact ⟨⟨hroute,hauthz,hcounter,charges_nodup s live,hverdict.trans hsame.symm⟩,hagree⟩

private theorem agree_run {keys : Set RuleWindow} (hapart : Set.InjOn RuleWindow.simulated keys) (requests : List LiveRequest)
    (hcovered : ∀ live ∈ requests, Covered s live) (hkeys : chargedBy s requests ⊆ keys) :
    FixedWindow.Agree keys RuleWindow.simulated (ledgerAfter s requests) (counterAfter s requests) := by
  induction requests using List.reverseRecOn with
  | nil => exact fun _ _ => rfl
  | append_singleton requests live ih =>
    have hearlier : FixedWindow.Agree keys RuleWindow.simulated (ledgerAfter s requests) (counterAfter s requests) := by
      refine ih (fun l hl => hcovered l (List.mem_append_left _ hl)) (fun w hw => hkeys ?_)
      obtain ⟨l,hl,hc⟩ := hw
      exact ⟨l,List.mem_append_left _ hl,hc⟩
    have hlast : live ∈ requests ++ [live] := List.mem_append_right _ (List.mem_singleton_self live)
    have hstep := mirrors_step (hcovered live hlast) hapart (fun c hc => hkeys ⟨live,hlast,c,hc,rfl⟩) hearlier
    rw [ledgerAfter,counterAfter,List.foldl_append,List.foldl_append]
    exact hstep.2

/-- Replaying any sequence of requests whose captures hold what their decisions depend
on, with no two rules building one key for windows of one length, agrees with the live
pipeline at every request, and leaves in every counter what the one rule it serves
charged there. -/
theorem replay_mirrors_live (s : Snapshot) (requests : List LiveRequest) (hcovered : ∀ live ∈ requests, Covered s live)
    (hapart : Set.InjOn RuleWindow.simulated (chargedBy s requests)) :
    (∀ before live after, requests = before ++ live :: after →
      Mirrors s live (counterAfter s before) (ledgerAfter s before)) ∧
    ∀ w ∈ chargedBy s requests, ledgerAfter s requests w = counterAfter s requests w.simulated := by
  refine ⟨?_,agree_run hapart requests hcovered (Set.Subset.refl _)⟩
  rintro before live after rfl
  have hmem : live ∈ before ++ live :: after := List.mem_append_right _ List.mem_cons_self
  have hagree := agree_run hapart before (fun l hl => hcovered l (List.mem_append_left _ hl))
    (fun w ⟨l,hl,hc⟩ => ⟨l,List.mem_append_left _ hl,hc⟩)
  exact (mirrors_step (hcovered live hmem) hapart (fun c hc => ⟨live,hmem,c,hc,rfl⟩) hagree).1

section Instances

/-- Templates and patterns without parameters or operators. -/
def literalMatchers : Matchers where
  exactAt templates path := (templates.find? (fun t => t.1 = path)).map (fun t => (t.2,[]))
  isMatch pattern path := pattern = path

def v1Route (name : String) (host : Option String) (policies : List String) (authorization : Option Authz) : Route :=
  ⟨name,⟨⟨.prefixed,"/v1"⟩,host,[],[],[],[],none⟩,"backend",policies,authorization,none,.proxy none⟩

/-- Ten a minute for each address, and a hundred an hour for each route. -/
def tenantLimits : Policy := ⟨"limits",none,[⟨[.ip],⟨none,some 10,none⟩⟩,⟨[.route],⟨none,none,some 100⟩⟩],false⟩

/-- A tenant's route on one path with a fallback; its policy is attached to the gateway too. -/
def tenants : Snapshot where
  gateway :=
    { routes := [v1Route "tenant" (some "tenant.test") ["limits"] none,v1Route "fallback" none [] none]
      services := [], upstreams := [], consumers := [], policies := [tenantLimits], globalPolicies := ["limits"]
      authorization := none, trustedProxies := [] }
  matchers := literalMatchers

def getV1 (host : String) : LiveRequest := ⟨⟨"GET","/v1",none,[("host",host)]⟩,none,none,1000⟩

/-- Replay keeps to the tenant's route for any host, charges a window of a policy
attached at two levels twice, and keys the hourly rule by address. -/
theorem replay_diverges :
    ((decide tenants (getV1 "other.test").captured (fun _ => none)).1.matchedRoute = some "tenant" ∧
      (liveRoute tenants (getV1 "other.test")).map (·.name) = some "fallback") ∧
    (((decide tenants (getV1 "tenant.test").captured (fun _ => none)).2 ("127.0.0.1",60)).map (·.used) = some 2 ∧
      (decide tenants (getV1 "tenant.test").captured (fun _ => none)).2 ("tenant",3600) = none ∧
      (charges tenants (getV1 "tenant.test")).map (·.key) =
        [⟨⟨"limits",some 0⟩,"127.0.0.1",60⟩,⟨⟨"limits",some 1⟩,"tenant",3600⟩]) := by
  decide +kernel

def onlyAlice : Authz := ⟨["alice"],[],[],[],[],[],none,none,false⟩

/-- One route for one consumer, ten requests a minute. -/
def members : Snapshot where
  gateway :=
    { routes := [v1Route "members" none ["limits"] (some onlyAlice)]
      services := [], upstreams := [], consumers := [⟨"alice",[],["staff"],none⟩]
      policies := [⟨"limits",none,[⟨[.credential],⟨none,some 10,none⟩⟩],false⟩], globalPolicies := []
      authorization := none, trustedProxies := [] }
  matchers := literalMatchers

def aliceAt (timestampMs : Int64) : LiveRequest := ⟨⟨"GET","/v1",none,[]⟩,some ⟨"alice",["staff"],[]⟩,none,timestampMs⟩

private theorem members_route (t : Int64) :
    firstRoute members (aliceAt t) = some (v1Route "members" none ["limits"] (some onlyAlice)) := by
  rfl

private theorem members_blind (t : Int64) : Blind members (aliceAt t) onlyAlice where
  address h := absurd rfl h
  location h := absurd rfl h
  groups _ i hi := by
    obtain rfl := Option.mem_some_iff.mp hi
    decide
  claims _ i hi := by
    obtain rfl := Option.mem_some_iff.mp hi
    decide

private theorem members_covered (t : Int64) : Covered members (aliceAt t) where
  criteria c hc := by
    have hcandidates : members.candidates (aliceAt t) = [(0,[])] := rfl
    rw [hcandidates] at hc
    obtain rfl := Option.mem_some_iff.mp hc
    exact ⟨_,rfl,rfl⟩
  blind route hroute authz hmem := by
    obtain rfl := Option.mem_some_iff.mp (members_route t ▸ hroute)
    have hlinks : (authzChain members.gateway (v1Route "members" none ["limits"] (some onlyAlice)) (aliceAt t).identity).links =
        [(.consumer,none),(.route,some onlyAlice),(.service,none),(.listener,none),(.global,none)] := rfl
    rw [hlinks] at hmem
    obtain ⟨level,hlevel⟩ := hmem
    obtain ⟨_,rfl⟩ : level = .route ∧ authz = onlyAlice := by simpa using hlevel
    exact members_blind t
  attachedOnce route hroute := by
    obtain rfl := Option.mem_some_iff.mp (members_route t ▸ hroute)
    exact List.Nodup.filter _ (List.nodup_singleton "limits")
  oneKey route hroute name hname policy hpolicy _ r hr _ := by
    obtain rfl := Option.mem_some_iff.mp (members_route t ▸ hroute)
    have hname : name = "limits" := List.mem_singleton.mp hname
    rw [hname] at hpolicy
    have hfound : policyByName members.gateway "limits" = some ⟨"limits",none,[⟨[.credential],⟨none,some 10,none⟩⟩],false⟩ := by
      rfl
    obtain rfl := Option.mem_some_iff.mp (hfound ▸ hpolicy)
    have hr : r = ⟨some 0,[.credential],[(10,60)]⟩ := List.mem_singleton.mp hr
    rw [hr]
    rfl

private theorem members_charges (t : Int64) :
    (charges members (aliceAt t)).map (·.key) = [⟨⟨"limits",some 0⟩,"alice",60⟩] := rfl

private theorem members_charged {w : RuleWindow} (h : w ∈ chargedBy members [aliceAt 1000,aliceAt 2000]) :
    w = ⟨⟨"limits",some 0⟩,"alice",60⟩ := by
  obtain ⟨live,hlive,c,hc,rfl⟩ := h
  have hkey : c.key ∈ (charges members live).map (·.key) := List.mem_map_of_mem hc
  rcases List.mem_pair.mp hlive with rfl | rfl
  · exact List.mem_singleton.mp (members_charges 1000 ▸ hkey)
  · exact List.mem_singleton.mp (members_charges 2000 ▸ hkey)

/-- Two requests of one consumer draw on the one counter of its one rule. -/
theorem replay_mirrors_live_members :
    (∀ before live after, [aliceAt 1000,aliceAt 2000] = before ++ live :: after →
      Mirrors members live (counterAfter members before) (ledgerAfter members before)) ∧
    ∀ w ∈ chargedBy members [aliceAt 1000,aliceAt 2000],
      ledgerAfter members [aliceAt 1000,aliceAt 2000] w = counterAfter members [aliceAt 1000,aliceAt 2000] w.simulated := by
  refine replay_mirrors_live members _ ?_ ?_
  · intro live hlive
    rcases List.mem_pair.mp hlive with rfl | rfl
    · exact members_covered 1000
    · exact members_covered 2000
  · intro w hw w' hw' _
    rw [members_charged hw,members_charged hw']

end Instances
end Run

end Dwara.Dataplane.Replay
