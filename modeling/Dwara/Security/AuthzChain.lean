import Dwara.Security.Authz

/-! What the chain of attached blocks decides: a live denial anywhere is absolute,
and a dry-run block changes nothing but the report. -/

namespace Dwara.Security
open Dwara.Config Dwara.Config.Net Dwara.Lib

def authorize (chain : AuthzChain) (ctx : AuthzContext) : Decision := (resolve chain ctx).decision

def Decision.denies : Decision → Bool
  | .deny _ _ => true
  | .allow => false

namespace Decision

@[simp] theorem denies_deny (unauthenticated : Bool) (reason : String) : (deny unauthenticated reason).denies = true := rfl

@[simp] theorem denies_allow : allow.denies = false := rfl

/-- A rule that denies before the others. -/
theorem denies_ite {p : Prop} [Decidable p] {unauthenticated : Bool} {reason : String} {rest : Decision} :
    (if p then deny unauthenticated reason else rest).denies ↔ p ∨ rest.denies := by
  split
  · rename_i hp
    simp [hp]
  · rename_i hp
    simp [hp]

end Decision

/-- What the block of a link decides by itself, if it denies. -/
def denial (ctx : AuthzContext) (link : AuthzLevel × Option Authz) : Option Decision :=
  link.2.bind fun authz => (evaluateOne ctx authz).filter Decision.denies

/-- The link carries a block in dry run. -/
def isDry (link : AuthzLevel × Option Authz) : Bool := link.2.any Authz.dryRun

/-- The denial of a link, if it is enforced. -/
def liveDenial (ctx : AuthzContext) (link : AuthzLevel × Option Authz) : Option Decision :=
  if isDry link then none else denial ctx link

namespace AuthzChain

/-- The chain without its dry-run blocks. -/
def live (chain : AuthzChain) : AuthzChain where
  consumer := chain.consumer.filter (!·.dryRun)
  route := chain.route.filter (!·.dryRun)
  service := chain.service.filter (!·.dryRun)
  listener := chain.listener.filter (!·.dryRun)
  global := chain.global.filter (!·.dryRun)

/-- The chain with another block at one level. -/
def set (chain : AuthzChain) (level : AuthzLevel) (authz : Authz) : AuthzChain :=
  match level with
  | .consumer => { chain with consumer := some authz }
  | .route => { chain with route := some authz }
  | .service => { chain with service := some authz }
  | .listener => { chain with listener := some authz }
  | .global => { chain with global := some authz }

theorem links_live (chain : AuthzChain) :
    chain.live.links = chain.links.map fun link => (link.1,link.2.filter (!·.dryRun)) := rfl

/-- Another block at a level stands where the old one stood. -/
theorem links_set (chain : AuthzChain) (level : AuthzLevel) (authz : Authz) :
    (chain.set level authz).links = chain.links.map fun link => if link.1 = level then (level,some authz) else link := by
  cases level <;> rfl

end AuthzChain

/-- One more entry in the denying lists of a block; a gate that was not there is added with it. -/
inductive DenyAdded (authz : Authz) : Authz → Prop where
  | consumers {names : List String} (h : authz.deniedConsumers ⊆ names) : DenyAdded authz { authz with deniedConsumers := names }
  | groups {names : List String} (h : authz.deniedGroups ⊆ names) : DenyAdded authz { authz with deniedGroups := names }
  | ips {acl : IpAcl} {entries : List String} (hacl : authz.ipAcl = some acl) (h : acl.deny ⊆ entries) :
      DenyAdded authz { authz with ipAcl := some { acl with deny := entries } }
  | ipGate (acl : IpAcl) (hacl : authz.ipAcl = none) : DenyAdded authz { authz with ipAcl := some acl }
  | countries {rules : GeoipRules} {codes : List String} (hgeo : authz.geoip = some rules) (h : rules.deniedCountries ⊆ codes) :
      DenyAdded authz { authz with geoip := some { rules with deniedCountries := codes } }
  | geoGate (rules : GeoipRules) (hgeo : authz.geoip = none) : DenyAdded authz { authz with geoip := some rules }

section Walk
variable (ctx : AuthzContext)

theorem denial_some_iff {link : AuthzLevel × Option Authz} {d : Decision} :
    denial ctx link = some d ↔ ∃ authz, link.2 = some authz ∧ evaluateOne ctx authz = some d ∧ d.denies := by
  simp [denial,Option.bind_eq_some_iff,Option.filter_eq_some_iff]

theorem denies_of_denial {link : AuthzLevel × Option Authz} {d : Decision} (h : denial ctx link = some d) : d.denies := by
  obtain ⟨_,_,_,hd⟩ := (denial_some_iff ctx).mp h
  exact hd

/-- One link of the walk: a live denial ends it, a dry one is noted, anything else is passed over. -/
theorem resolveLinks_cons (link : AuthzLevel × Option Authz) (links : List (AuthzLevel × Option Authz)) (governing : Option Decision)
    (wouldDeny : Option (AuthzLevel × Decision)) :
    (∃ d, liveDenial ctx link = some d ∧ resolveLinks ctx (link :: links) governing wouldDeny = ⟨d,wouldDeny⟩) ∨
    (∃ d, isDry link ∧ denial ctx link = some d ∧
      resolveLinks ctx (link :: links) governing wouldDeny = resolveLinks ctx links governing (wouldDeny.or (some (link.1,d)))) ∨
    (denial ctx link = none ∧ (resolveLinks ctx (link :: links) governing wouldDeny = resolveLinks ctx links governing wouldDeny ∨
      resolveLinks ctx (link :: links) governing wouldDeny = resolveLinks ctx links (governing.or (some .allow)) wouldDeny)) := by
  obtain ⟨level,authz⟩ := link
  cases authz with
  | none => exact .inr (.inr ⟨rfl,.inl (by rw [resolveLinks])⟩)
  | some authz =>
    rw [resolveLinks]
    cases he : evaluateOne ctx authz with
    | none => exact .inr (.inr ⟨by simp [denial,he],.inl rfl⟩)
    | some decision =>
      cases decision with
      | allow => exact .inr (.inr ⟨by simp [denial,he],.inr rfl⟩)
      | deny unauthenticated reason =>
        have hdenial : denial ctx (level,some authz) = some (.deny unauthenticated reason) := by
          simp [denial,he]
        cases hdry : authz.dryRun with
        | false => exact .inl ⟨_,by simp [liveDenial,isDry,hdry,hdenial],rfl⟩
        | true => exact .inr (.inl ⟨_,by simp [isDry,hdry],hdenial,rfl⟩)

theorem liveDenial_eq_none {link : AuthzLevel × Option Authz} (h : isDry link ∨ denial ctx link = none) : liveDenial ctx link = none := by
  rw [liveDenial]
  split
  · rfl
  · exact h.resolve_left ‹_›

/-- The walk enforces the first live denial; where there is none, it allows. -/
theorem resolveLinks_decision (links : List (AuthzLevel × Option Authz)) (governing : Option Decision)
    (wouldDeny : Option (AuthzLevel × Decision)) (hg : governing.getD .allow = .allow) :
    (resolveLinks ctx links governing wouldDeny).decision = (links.findSome? (liveDenial ctx)).getD .allow := by
  induction links generalizing governing wouldDeny with
  | nil => exact hg
  | cons link links ih =>
    rw [List.findSome?_cons]
    rcases resolveLinks_cons ctx link links governing wouldDeny with ⟨d,hlive,hstep⟩ | ⟨d,hdry,_,hstep⟩ | ⟨hnone,hstep⟩
    · rw [hstep,hlive]
      rfl
    · rw [hstep,liveDenial_eq_none ctx (.inl hdry)]
      exact ih _ _ hg
    · rw [liveDenial_eq_none ctx (.inr hnone)]
      rcases hstep with hstep | hstep
      · rw [hstep]
        exact ih _ _ hg
      · rw [hstep]
        exact ih _ _ (by cases governing with
          | none => rfl
          | some d => exact hg)

/-- A denial noted once stays the one reported. -/
theorem resolveLinks_wouldDeny_some (links : List (AuthzLevel × Option Authz)) (governing : Option Decision)
    (noted : AuthzLevel × Decision) : (resolveLinks ctx links governing (some noted)).wouldDeny = some noted := by
  induction links generalizing governing with
  | nil => rfl
  | cons link links ih =>
    rcases resolveLinks_cons ctx link links governing (some noted) with ⟨d,_,hstep⟩ | ⟨d,_,_,hstep⟩ | ⟨_,hstep | hstep⟩
    all_goals rw [hstep]
    all_goals exact ih _

/-- The walk reports the first denial, where that is a dry one. -/
theorem resolveLinks_wouldDeny {before after : List (AuthzLevel × Option Authz)} {link : AuthzLevel × Option Authz} {d : Decision}
    (hbefore : ∀ l ∈ before, denial ctx l = none) (hdry : isDry link) (hd : denial ctx link = some d) (governing : Option Decision) :
    (resolveLinks ctx (before ++ link :: after) governing none).wouldDeny = some (link.1,d) := by
  induction before generalizing governing with
  | nil =>
    rw [List.nil_append]
    rcases resolveLinks_cons ctx link after governing none with ⟨_,hlive,_⟩ | ⟨d',_,hd',hstep⟩ | ⟨hnone,_⟩
    · rw [liveDenial_eq_none ctx (.inl hdry)] at hlive
      cases hlive
    · rw [hstep]
      obtain rfl := Option.some.inj (hd.symm.trans hd')
      exact resolveLinks_wouldDeny_some ctx after governing _
    · rw [hnone] at hd
      cases hd
  | cons first before ih =>
    have hfirst := hbefore first List.mem_cons_self
    have hrest := fun l hl => hbefore l (List.mem_cons_of_mem first hl)
    rw [List.cons_append]
    rcases resolveLinks_cons ctx first (before ++ link :: after) governing none with ⟨_,hlive,_⟩ | ⟨_,_,hd',_⟩ | ⟨_,hstep | hstep⟩
    · rw [liveDenial_eq_none ctx (.inr hfirst)] at hlive
      cases hlive
    · rw [hfirst] at hd'
      cases hd'
    · rw [hstep]
      exact ih hrest governing
    · rw [hstep]
      exact ih hrest _

/-- The chain decides by its first live denial. -/
theorem authorize_eq (chain : AuthzChain) : authorize chain ctx = (chain.links.findSome? (liveDenial ctx)).getD .allow :=
  resolveLinks_decision ctx chain.links none none rfl

/-- The chain denies with the denial of the first live block that denies, and only then. -/
theorem authorize_eq_iff {chain : AuthzChain} {d : Decision} (hd : d.denies) :
    authorize chain ctx = d ↔ ∃ before level authz after, chain.links = before ++ (level,some authz) :: after ∧
      authz.dryRun = false ∧ evaluateOne ctx authz = some d ∧ ∀ link ∈ before, liveDenial ctx link = none := by
  have hne : d ≠ .allow := by
    rintro rfl
    cases hd
  rw [authorize_eq]
  constructor
  · intro h
    cases hfound : chain.links.findSome? (liveDenial ctx) with
    | none =>
      rw [hfound] at h
      exact absurd h.symm hne
    | some d' =>
      rw [hfound,Option.getD_some] at h
      subst h
      obtain ⟨before,⟨level,authz⟩,after,he,hlive,hbefore⟩ := List.findSome?_eq_some_iff.mp hfound
      have hdry : ¬ isDry (level,authz) := by
        intro hdry
        rw [liveDenial_eq_none ctx (.inl hdry)] at hlive
        cases hlive
      rw [liveDenial,if_neg hdry] at hlive
      obtain ⟨block,rfl,hblock,_⟩ := (denial_some_iff ctx).mp hlive
      exact ⟨before,level,block,after,he,by simpa [isDry] using hdry,hblock,hbefore⟩
  · rintro ⟨before,level,authz,after,he,hdry,hblock,hbefore⟩
    have hlive : liveDenial ctx (level,some authz) = some d := by
      rw [liveDenial,if_neg (by simp [isDry,hdry])]
      exact (denial_some_iff ctx).mpr ⟨authz,rfl,hblock,hd⟩
    rw [List.findSome?_eq_some_iff.mpr ⟨before,_,after,he,hlive,hbefore⟩]
    rfl

theorem authorize_denies_iff {chain : AuthzChain} :
    (authorize chain ctx).denies ↔ ∃ link ∈ chain.links, (liveDenial ctx link).isSome := by
  rw [authorize_eq]
  constructor
  · intro h
    cases hfound : chain.links.findSome? (liveDenial ctx) with
    | none =>
      rw [hfound] at h
      cases h
    | some d =>
      obtain ⟨link,hmem,hlive⟩ := List.exists_of_findSome?_eq_some hfound
      exact ⟨link,hmem,by rw [hlive]; rfl⟩
  · rintro ⟨link,hmem,hlive⟩
    obtain ⟨d,hfound⟩ := Option.isSome_iff_exists.mp (List.findSome?_isSome_iff.mpr ⟨link,hmem,hlive⟩)
    obtain ⟨found,_,hd⟩ := List.exists_of_findSome?_eq_some hfound
    rw [hfound]
    rw [liveDenial] at hd
    split at hd
    · cases hd
    · exact denies_of_denial ctx hd

/-- Taking the dry-run blocks out changes no decision. -/
theorem authorize_live (chain : AuthzChain) : authorize chain.live ctx = authorize chain ctx := by
  rw [authorize_eq,authorize_eq,AuthzChain.links_live,List.findSome?_map]
  congr 2
  funext ⟨level,authz⟩
  cases authz with
  | none => rfl
  | some authz => cases hdry : authz.dryRun <;> simp [liveDenial,isDry,denial,Option.filter,hdry]

end Walk

section Monotone
variable {ctx : AuthzContext} {authz authz' : Authz}

/-- The block denies by its own rules. -/
def blockDenies (ctx : AuthzContext) (authz : Authz) : Prop := ∃ d, evaluateOne ctx authz = some d ∧ d.denies

theorem ipAclDecision_denies {acl : IpAcl} {ip : IpAddr} : (ipAclDecision acl ip).denies ↔
    acl.deny.any (ipMatches · ip) ∨ (acl.allow.any (ipMatches · ip) = false ∧ acl.default = .deny) := by
  rw [ipAclDecision]
  cases acl.deny.any (ipMatches · ip) <;> cases acl.allow.any (ipMatches · ip) <;> cases acl.default <;> simp

theorem geoipDecision_denies {rules : GeoipRules} : (geoipDecision ctx rules).denies ↔
    rules.deniedCountries.any (fun list => ctx.country.any (Text.eqIgnoreAsciiCase · list)) ∨
    (geoipDecision ctx { rules with deniedCountries := [] }).denies := by
  simp only [geoipDecision,Decision.denies_ite,List.any_nil,Bool.false_eq_true,false_or]

theorem addressDenial_isSome : (addressDenial ctx authz).isSome ↔
    (∃ acl, authz.ipAcl = some acl ∧ (ipAclDecision acl ctx.effectiveIp).denies) ∨
    (∃ rules, authz.geoip = some rules ∧ (geoipDecision ctx rules).denies) := by
  have hgeo : (addressDenial ctx { authz with ipAcl := none }).isSome ↔
      ∃ rules, authz.geoip = some rules ∧ (geoipDecision ctx rules).denies := by
    rw [addressDenial]
    cases authz.geoip with
    | none => simp
    | some rules => cases hd : geoipDecision ctx rules <;> simp [hd]
  rw [addressDenial] at hgeo ⊢
  cases authz.ipAcl with
  | none => simpa using hgeo
  | some acl => cases hd : ipAclDecision acl ctx.effectiveIp <;> simp_all

/-- A block denies by its address gates, or, when it has identity rules, for want of
an identity or by these rules. -/
theorem blockDenies_iff : blockDenies ctx authz ↔ (addressDenial ctx authz).isSome ∨
    (hasIdentityRules authz ∧ ∀ identity, ctx.identity = some identity → (identityDecision ctx authz identity).denies) := by
  rw [blockDenies,evaluateOne]
  cases haddr : addressDenial ctx authz with
  | some reason =>
    have hgate : ¬ (!hasIdentityRules authz && authz.ipAcl.isNone && authz.geoip.isNone) := by
      intro h
      have hsome : (addressDenial ctx authz).isSome := by rw [haddr]; rfl
      rcases addressDenial_isSome.mp hsome with ⟨acl,hacl,_⟩ | ⟨rules,hgeo,_⟩
      · simp [hacl] at h
      · simp [hgeo] at h
    simp [hgate]
  | none =>
    cases hrules : hasIdentityRules authz with
    | false => split <;> simp
    | true => cases hid : ctx.identity <;> simp

theorem identityDecision_denies {identity : Identity} : (identityDecision ctx authz identity).denies ↔
    identity.consumerName ∈ authz.deniedConsumers ∨ authz.deniedGroups.any (· ∈ ctx.consumerGroups) ∨
    (identityDecision ctx { authz with deniedConsumers := [], deniedGroups := [] } identity).denies := by
  simp only [identityDecision,missesScope,missesClaim,Decision.denies_ite,List.not_mem_nil,List.any_nil,Bool.false_eq_true,false_or]
  tauto

theorem any_of_subset {α : Type} {p : α → Bool} {xs ys : List α} (h : xs ⊆ ys) (hx : xs.any p) : ys.any p := by
  obtain ⟨x,hmem,hp⟩ := List.any_eq_true.mp hx
  exact List.any_eq_true.mpr ⟨x,h hmem,hp⟩

theorem ne_nil_of_subset {α : Type} {xs ys : List α} (h : xs ⊆ ys) (hx : xs ≠ []) : ys ≠ [] := by
  rintro rfl
  exact hx (List.subset_nil.mp h)

/-- Another denying entry lets nothing through that the block denied. -/
theorem DenyAdded.blockDenies (h : DenyAdded authz authz') (hd : blockDenies ctx authz) : Security.blockDenies ctx authz' := by
  rw [blockDenies_iff] at hd ⊢
  cases h with
  | consumers hsub =>
    refine hd.imp_right fun ⟨hrules,hid⟩ => ⟨?_,fun identity hi => ?_⟩
    · simp only [hasIdentityRules,Bool.or_eq_true,decide_eq_true_eq] at hrules ⊢
      have := ne_nil_of_subset hsub
      tauto
    · have hdenied := hid identity hi
      rw [identityDecision_denies] at hdenied ⊢
      exact hdenied.imp_left fun hmem => hsub hmem
  | groups hsub =>
    refine hd.imp_right fun ⟨hrules,hid⟩ => ⟨?_,fun identity hi => ?_⟩
    · simp only [hasIdentityRules,Bool.or_eq_true,decide_eq_true_eq] at hrules ⊢
      have := ne_nil_of_subset hsub
      tauto
    · have hdenied := hid identity hi
      rw [identityDecision_denies] at hdenied ⊢
      exact hdenied.imp_right fun hrest => hrest.imp_left fun hany => any_of_subset hsub hany
  | ips hacl hsub =>
    refine hd.imp_left fun haddr => addressDenial_isSome.mpr ?_
    refine (addressDenial_isSome.mp haddr).imp_left ?_
    rintro ⟨acl,hacl',hdenied⟩
    obtain rfl := Option.some.inj (hacl.symm.trans hacl')
    refine ⟨_,rfl,?_⟩
    rw [ipAclDecision_denies] at hdenied ⊢
    exact hdenied.imp_left fun hany => any_of_subset hsub hany
  | ipGate acl hacl =>
    refine hd.imp_left fun haddr => addressDenial_isSome.mpr (.inr ?_)
    rcases addressDenial_isSome.mp haddr with ⟨acl',hacl',_⟩ | hgeo
    · rw [hacl] at hacl'
      cases hacl'
    · exact hgeo
  | countries hgeo hsub =>
    refine hd.imp_left fun haddr => addressDenial_isSome.mpr ?_
    refine (addressDenial_isSome.mp haddr).imp_right ?_
    rintro ⟨rules,hgeo',hdenied⟩
    obtain rfl := Option.some.inj (hgeo.symm.trans hgeo')
    refine ⟨_,rfl,?_⟩
    rw [geoipDecision_denies] at hdenied ⊢
    exact hdenied.imp_left fun hany => any_of_subset hsub hany
  | geoGate rules hgeo =>
    refine hd.imp_left fun haddr => addressDenial_isSome.mpr (.inl ?_)
    rcases addressDenial_isSome.mp haddr with hacl | ⟨rules',hgeo',_⟩
    · exact hacl
    · rw [hgeo] at hgeo'
      cases hgeo'

/-- Another denying entry puts no block in dry run. -/
theorem DenyAdded.dryRun (h : DenyAdded authz authz') : authz'.dryRun = authz.dryRun := by
  cases h <;> rfl

theorem denial_eq_none_iff {link : AuthzLevel × Option Authz} :
    denial ctx link = none ↔ ∀ authz, link.2 = some authz → ¬ blockDenies ctx authz := by
  rw [Option.eq_none_iff_forall_ne_some]
  constructor
  · rintro h authz hl ⟨d,he,hd⟩
    exact h d ((denial_some_iff ctx).mpr ⟨authz,hl,he,hd⟩)
  · rintro h d hden
    obtain ⟨authz,hl,he,hd⟩ := (denial_some_iff ctx).mp hden
    exact h authz hl ⟨d,he,hd⟩

theorem liveDenial_eq_none_iff {link : AuthzLevel × Option Authz} :
    liveDenial ctx link = none ↔ ∀ authz, link.2 = some authz → authz.dryRun = false → ¬ blockDenies ctx authz := by
  obtain ⟨level,authz⟩ := link
  cases authz with
  | none => simp [liveDenial,isDry,denial]
  | some authz => cases hdry : authz.dryRun <;> simp [liveDenial,isDry,hdry,denial_eq_none_iff]

theorem liveDenial_isSome_iff {link : AuthzLevel × Option Authz} :
    (liveDenial ctx link).isSome ↔ ∃ authz, link.2 = some authz ∧ authz.dryRun = false ∧ blockDenies ctx authz := by
  rw [Option.isSome_iff_ne_none,ne_eq,liveDenial_eq_none_iff]
  simp only [not_forall,not_not,exists_prop]

/-- The block at a level of the chain. -/
theorem AuthzChain.eq_of_mem_links {chain : AuthzChain} {level : AuthzLevel} {x y : Option Authz} (hx : (level,x) ∈ chain.links)
    (hy : (level,y) ∈ chain.links) : x = y := by
  cases level <;> simp_all [AuthzChain.links]

/-- A denied request stays denied when a live block of the chain gets another denying entry. -/
theorem authorize_denies_set {chain : AuthzChain} {level : AuthzLevel} (hmem : (level,some authz) ∈ chain.links)
    (hlive : authz.dryRun = false) (hadd : DenyAdded authz authz') (hd : (authorize chain ctx).denies) :
    (authorize (chain.set level authz') ctx).denies := by
  rw [authorize_denies_iff] at hd ⊢
  obtain ⟨⟨at_,found⟩,hfound,hdenies⟩ := hd
  obtain ⟨block,rfl,hblock,hdenies⟩ := liveDenial_isSome_iff.mp hdenies
  rw [AuthzChain.links_set]
  by_cases he : at_ = level
  · subst he
    obtain rfl := Option.some.inj (AuthzChain.eq_of_mem_links hfound hmem)
    exact ⟨(at_,some authz'),List.mem_map.mpr ⟨_,hfound,if_pos rfl⟩,
      liveDenial_isSome_iff.mpr ⟨authz',rfl,hadd.dryRun.trans hlive,hadd.blockDenies hdenies⟩⟩
  · exact ⟨(at_,some block),List.mem_map.mpr ⟨_,hfound,if_neg he⟩,liveDenial_isSome_iff.mpr ⟨block,rfl,hblock,hdenies⟩⟩

/-- Identity rules deny a request without identity, whatever the address gates say. -/
theorem blockDenies_of_anonymous (hid : ctx.identity = none) (hrules : hasIdentityRules authz) : blockDenies ctx authz := by
  rw [blockDenies_iff]
  refine .inr ⟨hrules,?_⟩
  intro identity hi
  rw [hid] at hi
  cases hi

end Monotone

/-- What the chain decides, for every chain and request: it denies iff a live block
denies by its own rules, and then with the denial of the most specific one; the
dry-run blocks do not matter to it; the most specific denial of a dry-run block is
reported when no live denial comes before it; another denying entry in a live block
never makes an allow of a deny; and an anonymous request passes no live identity rule. -/
theorem authorize_chain (chain : AuthzChain) (ctx : AuthzContext) :
    ((authorize chain ctx).denies ↔
      ∃ level authz, (level,some authz) ∈ chain.links ∧ authz.dryRun = false ∧ blockDenies ctx authz) ∧
    (∀ d, d.denies → (authorize chain ctx = d ↔ ∃ before level authz after, chain.links = before ++ (level,some authz) :: after ∧
      authz.dryRun = false ∧ evaluateOne ctx authz = some d ∧
      ∀ other block, (other,some block) ∈ before → block.dryRun = false → ¬ blockDenies ctx block)) ∧
    authorize chain.live ctx = authorize chain ctx ∧
    (∀ before level authz after d, chain.links = before ++ (level,some authz) :: after → authz.dryRun = true →
      evaluateOne ctx authz = some d → d.denies → (∀ other block, (other,some block) ∈ before → ¬ blockDenies ctx block) →
      (resolve chain ctx).wouldDeny = some (level,d)) ∧
    (∀ level authz authz', (level,some authz) ∈ chain.links → authz.dryRun = false → DenyAdded authz authz' →
      (authorize chain ctx).denies → (authorize (chain.set level authz') ctx).denies) ∧
    (ctx.identity = none → authorize chain ctx = .allow →
      ∀ level authz, (level,some authz) ∈ chain.links → authz.dryRun = false → hasIdentityRules authz = false) := by
  have hdenies : (authorize chain ctx).denies ↔
      ∃ level authz, (level,some authz) ∈ chain.links ∧ authz.dryRun = false ∧ blockDenies ctx authz := by
    rw [authorize_denies_iff]
    constructor
    · rintro ⟨⟨level,found⟩,hmem,hlive⟩
      obtain ⟨authz,rfl,hdry,hd⟩ := liveDenial_isSome_iff.mp hlive
      exact ⟨level,authz,hmem,hdry,hd⟩
    · rintro ⟨level,authz,hmem,hdry,hd⟩
      exact ⟨_,hmem,liveDenial_isSome_iff.mpr ⟨authz,rfl,hdry,hd⟩⟩
  refine ⟨hdenies,?_,authorize_live ctx chain,?_,?_,?_⟩
  · intro d hd
    rw [authorize_eq_iff ctx hd]
    simp only [liveDenial_eq_none_iff,Prod.forall]
    grind
  · intro before level authz after d he hdry hblock hd hbefore
    have hden : denial ctx (level,some authz) = some d := (denial_some_iff ctx).mpr ⟨authz,rfl,hblock,hd⟩
    have hnone : ∀ link ∈ before, denial ctx link = none := by
      intro link hmem
      refine denial_eq_none_iff.mpr ?_
      intro block hl
      exact hbefore link.1 block (by rw [← hl]; exact hmem)
    have hisdry : isDry (level,some authz) := hdry
    rw [resolve,he]
    exact resolveLinks_wouldDeny ctx hnone hisdry hden none
  · intro level authz authz' hmem hlive hadd hd
    exact authorize_denies_set hmem hlive hadd hd
  · intro hid hallow level authz hmem hdry
    by_contra hrules
    have hblock := blockDenies_of_anonymous hid (Bool.not_eq_false _ ▸ hrules)
    have hd := hdenies.mpr ⟨level,authz,hmem,hdry,hblock⟩
    rw [hallow] at hd
    cases hd

end Dwara.Security
