import Dwara.Config.Gateway
import Dwara.Config.Net
import Dwara.Config.Ssrf

/-! Request authorization: one block of rules against a request, and the chain of
blocks attached to it. -/

namespace Dwara.Security
open Dwara.Config Dwara.Config.Net Dwara.Lib

structure Identity where
  consumerName : String
  groups : List String
  claims : List (String × String)
  deriving DecidableEq, Repr

inductive Decision where
  | allow
  | deny (unauthenticated : Bool) (reason : String)
  deriving DecidableEq, Repr

/-- What a GeoIP database resolves of an address. -/
structure GeoipDb where
  country : IpAddr → Option String
  asn : IpAddr → Option ℕ

/-- What one evaluation knows of the request. -/
structure AuthzContext where
  identity : Option Identity
  consumerGroups : List String
  peerIp : IpAddr
  effectiveIp : IpAddr
  geoip : Option GeoipDb

/-- The client behind trusted proxies: the rightmost untrusted address of the chain. -/
def effectiveClientIp (trusted : List String) (peer : IpAddr) (xff : Option String) : IpAddr :=
  if !peerIsTrusted trusted peer then peer
  else
    match xff with
    | none => peer
    | some xff =>
      let entries := (Text.split ',' xff).filterMap (fun e => parseIp (Text.trim e))
      match entries.reverse.find? (fun ip => !peerIsTrusted trusted ip) with
      | some ip => ip
      | none => entries.head?.getD peer

section Rules
variable (ctx : AuthzContext)

def AuthzContext.country : Option String := ctx.geoip.bind (fun db => db.country ctx.effectiveIp)

def AuthzContext.asn : Option ℕ := ctx.geoip.bind (fun db => db.asn ctx.effectiveIp)

/-- An unknown address is in no list. -/
def geoipDecision (rules : GeoipRules) : Decision :=
  let countryHit := fun list => ctx.country.any (Text.eqIgnoreAsciiCase · list)
  let asnHit := fun a => decide (ctx.asn = some a)
  if rules.deniedCountries.any countryHit then .deny false "client country is denied"
  else if rules.deniedAsns.any asnHit then .deny false "client network (ASN) is denied"
  else if rules.allowedCountries ≠ [] ∧ !rules.allowedCountries.any countryHit then
    .deny false "client country is not in the allowed list (or is unknown)"
  else if rules.allowedAsns ≠ [] ∧ !rules.allowedAsns.any asnHit then
    .deny false "client network (ASN) is not in the allowed list (or is unknown)"
  else .allow

/-- The deny list first, then the allow list, then the default. -/
def ipAclDecision (acl : IpAcl) (ip : IpAddr) : Decision :=
  if acl.deny.any (ipMatches · ip) then .deny false "ip denied by acl deny list"
  else if acl.allow.any (ipMatches · ip) then .allow
  else
    match acl.default with
    | .allow => .allow
    | .deny => .deny false "ip matched neither acl list and the default is deny"

def hasIdentityRules (authz : Authz) : Bool :=
  authz.allowedConsumers ≠ [] || authz.deniedConsumers ≠ [] || authz.allowedGroups ≠ [] || authz.deniedGroups ≠ [] ||
    authz.requiredScopes ≠ [] || authz.requiredClaims ≠ []

/-- The denial of the address gates, if they deny. -/
def addressDenial (authz : Authz) : Option String :=
  match authz.ipAcl.map (ipAclDecision · ctx.effectiveIp) with
  | some (.deny _ reason) => some reason
  | _ =>
    match authz.geoip.map (geoipDecision ctx) with
    | some (.deny _ reason) => some reason
    | _ => none

def Identity.grantedScopes (identity : Identity) : List String :=
  ((identity.claims.lookup "scope").map Text.splitWhitespace).getD []

def missesScope (authz : Authz) (identity : Identity) : Bool := authz.requiredScopes.any (· ∉ identity.grantedScopes)

def missesClaim (authz : Authz) (identity : Identity) : Bool :=
  authz.requiredClaims.any (fun c => identity.claims.lookup c.1 ≠ some c.2)

/-- The identity rules: a deny beats an allow of the same kind. -/
def identityDecision (authz : Authz) (identity : Identity) : Decision :=
  if identity.consumerName ∈ authz.deniedConsumers then .deny false "consumer is denied"
  else if authz.allowedConsumers ≠ [] ∧ identity.consumerName ∉ authz.allowedConsumers then
    .deny false "consumer is not in the allowed set"
  else if authz.deniedGroups.any (· ∈ ctx.consumerGroups) then .deny false "consumer's group is denied"
  else if authz.allowedGroups ≠ [] ∧ !authz.allowedGroups.any (· ∈ ctx.consumerGroups) then
    .deny false "consumer is in none of the allowed groups"
  else if missesScope authz identity then .deny false "a required scope is absent"
  else if missesClaim authz identity then .deny false "a required claim is absent or mismatched"
  else .allow

/-- One block of rules; a block without rules says nothing. -/
def evaluateOne (authz : Authz) : Option Decision :=
  if !hasIdentityRules authz && authz.ipAcl.isNone && authz.geoip.isNone then none
  else
    match addressDenial ctx authz with
    | some reason => some (.deny false reason)
    | none =>
      if !hasIdentityRules authz then some .allow
      else
        match ctx.identity with
        | none => some (.deny true "authorization rules require an authenticated identity")
        | some identity => some (identityDecision ctx authz identity)

end Rules

inductive AuthzLevel where
  | consumer
  | route
  | service
  | listener
  | global
  deriving DecidableEq, Repr

/-- The attachments of a request at the five levels. -/
structure AuthzChain where
  consumer : Option Authz
  route : Option Authz
  service : Option Authz
  listener : Option Authz
  global : Option Authz

def AuthzChain.links (chain : AuthzChain) : List (AuthzLevel × Option Authz) :=
  [(.consumer,chain.consumer),(.route,chain.route),(.service,chain.service),(.listener,chain.listener),
    (.global,chain.global)]

/-- The verdict to enforce, and the first denial of a dry-run block. -/
structure Resolved where
  decision : Decision
  wouldDeny : Option (AuthzLevel × Decision)
  deriving DecidableEq, Repr

/-- A live deny stops the walk; a dry-run one is only noted. The first allow governs. -/
def resolveLinks (ctx : AuthzContext) :
    List (AuthzLevel × Option Authz) → Option Decision → Option (AuthzLevel × Decision) → Resolved
  | [], governing, wouldDeny => ⟨governing.getD .allow,wouldDeny⟩
  | (_, none) :: links, governing, wouldDeny => resolveLinks ctx links governing wouldDeny
  | (level, some authz) :: links, governing, wouldDeny =>
    match evaluateOne ctx authz with
    | some (.deny unauthenticated reason) =>
      let denied := Decision.deny unauthenticated reason
      if authz.dryRun then resolveLinks ctx links governing (wouldDeny.or (some (level,denied))) else ⟨denied,wouldDeny⟩
    | some .allow => resolveLinks ctx links (governing.or (some .allow)) wouldDeny
    | none => resolveLinks ctx links governing wouldDeny

def resolve (chain : AuthzChain) (ctx : AuthzContext) : Resolved := resolveLinks ctx chain.links none none

section Alike
variable {ctx ctx' : AuthzContext}

/-- What the identity rules of a block read of an identity, its groups apart. -/
def profile (authz : Authz) (identity : Identity) : String × Bool × Bool :=
  (identity.consumerName,missesScope authz identity,missesClaim authz identity)

/-- Two contexts a block cannot tell apart. -/
structure Alike (authz : Authz) (ctx ctx' : AuthzContext) : Prop where
  address : authz.ipAcl ≠ none → ctx.effectiveIp = ctx'.effectiveIp
  location : authz.geoip ≠ none → ctx.country = ctx'.country ∧ ctx.asn = ctx'.asn
  groups : hasIdentityRules authz → ctx.consumerGroups = ctx'.consumerGroups
  identity : hasIdentityRules authz → ctx.identity.map (profile authz) = ctx'.identity.map (profile authz)

private theorem geoipDecision_congr (rules : GeoipRules) (hc : ctx.country = ctx'.country) (ha : ctx.asn = ctx'.asn) :
    geoipDecision ctx rules = geoipDecision ctx' rules := by
  rw [geoipDecision,geoipDecision,hc,ha]

private theorem addressDenial_congr {authz : Authz} (h : Alike authz ctx ctx') :
    addressDenial ctx authz = addressDenial ctx' authz := by
  have hacl : authz.ipAcl.map (ipAclDecision · ctx.effectiveIp) = authz.ipAcl.map (ipAclDecision · ctx'.effectiveIp) := by
    cases hacl : authz.ipAcl with
    | none => rw [Option.map_none,Option.map_none]
    | some acl => rw [h.address (by rw [hacl]; exact Option.some_ne_none acl)]
  have hgeo : authz.geoip.map (geoipDecision ctx) = authz.geoip.map (geoipDecision ctx') := by
    cases hgeo : authz.geoip with
    | none => rw [Option.map_none,Option.map_none]
    | some rules =>
      obtain ⟨hc,ha⟩ := h.location (by rw [hgeo]; exact Option.some_ne_none rules)
      rw [Option.map_some,Option.map_some,geoipDecision_congr rules hc ha]
  rw [addressDenial,addressDenial,hacl,hgeo]

private theorem identityDecision_congr {authz : Authz} {identity identity' : Identity}
    (hg : ctx.consumerGroups = ctx'.consumerGroups) (hp : profile authz identity = profile authz identity') :
    identityDecision ctx authz identity = identityDecision ctx' authz identity' := by
  obtain ⟨hname,hrest⟩ := Prod.mk.inj hp
  obtain ⟨hscope,hclaim⟩ := Prod.mk.inj hrest
  rw [identityDecision,identityDecision,hg,hname,hscope,hclaim]

theorem evaluateOne_congr {authz : Authz} (h : Alike authz ctx ctx') : evaluateOne ctx authz = evaluateOne ctx' authz := by
  rw [evaluateOne,evaluateOne,addressDenial_congr h]
  cases hrules : hasIdentityRules authz with
  | false => rfl
  | true =>
    have hg := h.groups hrules
    have hp := h.identity hrules
    cases hi : ctx.identity with
    | none =>
      rw [hi] at hp
      rw [Option.map_eq_none_iff.mp hp.symm]
    | some identity =>
      rw [hi] at hp
      obtain ⟨identity',hi',hp⟩ := Option.map_eq_some_iff.mp hp.symm
      rw [hi']
      simp only
      rw [identityDecision_congr hg hp.symm]

private theorem resolveLinks_congr {links : List (AuthzLevel × Option Authz)}
    (h : ∀ authz, (∃ level, (level,some authz) ∈ links) → Alike authz ctx ctx') (governing : Option Decision)
    (wouldDeny : Option (AuthzLevel × Decision)) :
    resolveLinks ctx links governing wouldDeny = resolveLinks ctx' links governing wouldDeny := by
  induction links generalizing governing wouldDeny with
  | nil => rfl
  | cons link links ih =>
    have htail : ∀ authz, (∃ level, (level,some authz) ∈ links) → Alike authz ctx ctx' :=
      fun authz hex => h authz (hex.imp fun _ hmem => List.mem_cons_of_mem link hmem)
    obtain ⟨level,authz⟩ := link
    cases authz with
    | none =>
      rw [resolveLinks,resolveLinks]
      exact ih htail governing wouldDeny
    | some authz =>
      have hone := evaluateOne_congr (h authz ⟨level,List.mem_cons_self⟩)
      rw [resolveLinks,resolveLinks,hone]
      simp only [ih htail]

/-- Contexts that no attached block can tell apart get one resolution. -/
theorem resolve_congr {chain : AuthzChain} (h : ∀ authz, (∃ level, (level,some authz) ∈ chain.links) → Alike authz ctx ctx') :
    resolve chain ctx = resolve chain ctx' := resolveLinks_congr h none none

end Alike

section Addresses
open Config.Ssrf

theorem ipMatches_iff {entry : String} {net : IpAddr} {p : ℕ} (h : parseIpOrCidr entry = some (net,p)) (ip : IpAddr) :
    ipMatches entry ip = true ↔ SharesPrefix ip net p := by
  rw [ipMatches,h]
  exact ipInNet_iff ip net p

theorem ipAclDecision_mapped {acl : IpAcl} (hallow : Mirrored (acl.allow.filterMap parseIpOrCidr))
    (hdeny : Mirrored (acl.deny.filterMap parseIpOrCidr)) (a : BitVec 32) :
    ipAclDecision acl (.v4 a) = ipAclDecision acl (.v6 (mapped a)) := by
  have hallow := hallow.covers_mapped a
  have hdeny := hdeny.covers_mapped a
  rw [SsrfFilter.covers_filterMap,SsrfFilter.covers_filterMap] at hallow hdeny
  rw [ipAclDecision,ipAclDecision,hallow,hdeny]

/-- A match of the deny list decides, whatever else a block has. -/
theorem evaluateOne_of_denied {authz : Authz} {ctx : AuthzContext} {acl : IpAcl} (hacl : authz.ipAcl = some acl)
    (h : acl.deny.any (ipMatches · ctx.effectiveIp) = true) : evaluateOne ctx authz = some (.deny false "ip denied by acl deny list") := by
  have hdenial : addressDenial ctx authz = some "ip denied by acl deny list" := by
    rw [addressDenial,hacl,Option.map_some,ipAclDecision,if_pos h]
  have hrules : (!hasIdentityRules authz && authz.ipAcl.isNone && authz.geoip.isNone) = false := by
    rw [hacl]
    simp
  rw [evaluateOne,hrules,if_neg Bool.false_ne_true,hdenial]

/-- An entry has the addresses of its family that begin as it does. Lists with both forms of their
IPv4 nets treat both forms of an address alike; denials come first in an access list and permits
in the filter, which without permits rejects what is looped back. -/
theorem address_filters :
    (∀ (entry : String) (net : IpAddr) (p : ℕ), parseIpOrCidr entry = some (net,p) →
      ∀ ip, ipMatches entry ip = true ↔ SharesPrefix ip net p) ∧
    (∀ (filter : SsrfFilter), Mirrored filter.allow → Mirrored filter.deny → ∀ a, filter.check (.v4 a) = filter.check (.v6 (mapped a))) ∧
    (∀ (acl : IpAcl), Mirrored (acl.allow.filterMap parseIpOrCidr) → Mirrored (acl.deny.filterMap parseIpOrCidr) →
      ∀ a, ipAclDecision acl (.v4 a) = ipAclDecision acl (.v6 (mapped a))) ∧
    (∀ (authz : Authz) (ctx : AuthzContext) (acl : IpAcl), authz.ipAcl = some acl → acl.deny.any (ipMatches · ctx.effectiveIp) = true →
      evaluateOne ctx authz = some (.deny false "ip denied by acl deny list")) ∧
    (∀ (cfg : SsrfFilterConfig) (ip : IpAddr), cfg.allowlist.any (ipMatches · ip) = true → (SsrfFilter.fromConfig cfg).check ip = .ok ()) ∧
    ∀ (cfg : SsrfFilterConfig), cfg.enabled = true → cfg.allowlist = [] →
      (∀ a : BitVec 32, a >>> 24 = 127#32 → (SsrfFilter.fromConfig cfg).check (.v4 a) = .error SsrfFilter.deniedReason) ∧
        (SsrfFilter.fromConfig cfg).check (.v6 0#128) = .error SsrfFilter.deniedReason ∧
        (SsrfFilter.fromConfig cfg).check (.v6 1#128) = .error SsrfFilter.deniedReason := by
  refine ⟨fun entry net p h ip => ipMatches_iff h ip,fun filter hallow hdeny a => SsrfFilter.check_mapped hallow hdeny a,
    fun acl hallow hdeny a => ipAclDecision_mapped hallow hdeny a,fun authz ctx acl hacl h => evaluateOne_of_denied hacl h,
    fun cfg ip h => SsrfFilter.check_of_allowed h,fun cfg henabled hallow => ⟨fun a ha => ?_,?_,?_⟩⟩
  · have hshares : SharesPrefix (.v4 a) (.v4 0x7f000000#32) 8 := by
      refine (ushiftRight_xor_eq_zero_iff a 0x7f000000#32 8).mp ?_
      rw [BitVec.ushiftRight_xor_distrib,ha]
      decide
    have hparse : parseIpOrCidr "127.0.0.0/8" = some (.v4 0x7f000000#32,8) := by decide
    exact SsrfFilter.check_of_denied henabled hallow (by decide) hparse hshares
  · have hparse : parseIpOrCidr "::/128" = some (.v6 0#128,128) := by decide
    exact SsrfFilter.check_of_denied henabled hallow (by decide) hparse fun i _ => rfl
  · have hparse : parseIpOrCidr "::1/128" = some (.v6 1#128,128) := by decide
    exact SsrfFilter.check_of_denied henabled hallow (by decide) hparse fun i _ => rfl

/-- The IPv6 form of a denied IPv4 address passes. -/
theorem mapped_address_passes : ¬ ∀ (acl : IpAcl) (a : BitVec 32), ipAclDecision acl (.v4 a) = ipAclDecision acl (.v6 (mapped a)) := by
  intro h
  have hsame := h ⟨[],["10.0.0.0/8"],.allow⟩ 0x0a000001#32
  exact absurd hsame (by decide)

end Addresses

end Dwara.Security
