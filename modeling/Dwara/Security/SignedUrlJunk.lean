import Dwara.Security.SignedUrl

/-! What requests that are refused leave behind in a verifier of signed URLs. -/

namespace Dwara.Security.SignedUrl
open Dwara.Lib
open SignedUrlVerifier (verify_of_presented verify_alike_or_presented)

variable {mac : String → String → String} {v : SignedUrlVerifier} {call : VerifyCall} {cache cache' : NonceCache}

/-- The results of one call after the other. -/
def answers (mac : String → String → String) (v : SignedUrlVerifier) : NonceCache → List VerifyCall → List SignedUrlResult
  | _, [] => []
  | cache, call :: calls => (v.verify mac call cache).2 :: answers mac v (v.verify mac call cache).1 calls

/-- The nonces after some calls. -/
def cacheAfter (mac : String → String → String) (v : SignedUrlVerifier) (calls : List VerifyCall) : NonceCache :=
  calls.foldl (fun cache call => (v.verify mac call cache).1) ⟨[]⟩

/-- A request that is in time and presents a nonce that is not held has the right signature, or it
comes in its last second, when no nonce is held any more. -/
def Traceless (mac : String → String → String) (v : SignedUrlVerifier) (call : VerifyCall) (cache : NonceCache) : Prop :=
  ∀ sig expires nonce, v.requireNonce = true → v.sigOf call = some sig → SignedUrlVerifier.expiresOf call = some expires →
    v.nonceOf call = some nonce → call.now ≤ expires → nonce ∉ (cache.purge call.now).names →
      sig = mac v.secret (v.canonical call expires) ∨ expires = call.now ∧ (cache.purge call.now).entries = []

namespace NonceCache

/-- From a time on there is no difference between two caches. -/
def Agree (t : UInt64) (cache cache' : NonceCache) : Prop := ∀ now, t ≤ now → cache.purge now = cache'.purge now

theorem Agree.refl (t : UInt64) (cache : NonceCache) : Agree t cache cache := fun _ _ => rfl

private theorem dropWhile_dropWhile {t now : UInt64} (h : t ≤ now) (entries : List (String × UInt64)) :
    (entries.dropWhile (·.2 ≤ t)).dropWhile (·.2 ≤ now) = entries.dropWhile (·.2 ≤ now) := by
  induction entries with
  | nil => rfl
  | cons e entries ih =>
    by_cases he : e.2 ≤ t
    · rw [List.dropWhile_cons_of_pos (by simpa using he),List.dropWhile_cons_of_pos (by simpa using UInt64.le_trans he h),ih]
    · rw [List.dropWhile_cons_of_neg (by simpa using he)]

/-- A purge is made up for by the next. -/
theorem agree_purge (cache : NonceCache) (t : UInt64) : Agree t (cache.purge t) cache :=
  fun _ h => congrArg NonceCache.mk (dropWhile_dropWhile h cache.entries)

/-- A nonce that is past at once, put down where none is held, is gone with the next purge. -/
theorem agree_record_past {cache : NonceCache} {t : UInt64} (h : (cache.purge t).entries = []) (nonce : String) :
    Agree t ⟨(cache.purge t).evict.entries ++ [(nonce,t)]⟩ cache := by
  have hevict : (cache.purge t).evict = cache.purge t := evict_of_lt (by simp [h,maxNonces])
  intro now hnow
  rw [← agree_purge cache t now hnow,hevict]
  generalize cache.purge t = purged at h
  obtain ⟨entries⟩ := purged
  obtain rfl : entries = [] := h
  exact congrArg NonceCache.mk (List.dropWhile_cons_of_pos (decide_eq_true hnow))

/-- Where all that a cache holds is purged, nothing it held was younger. -/
theorem le_of_purge_eq_nil {cache : NonceCache} {t : UInt64} (h : (cache.purge t).entries = []) {e : String × UInt64} (he : e ∈ cache.entries) :
    e.2 ≤ t := by
  refine UInt64.not_lt.mp fun hlive => ?_
  have hmem := mem_purge he hlive
  rw [h] at hmem
  cases hmem

/-- A purge that takes the youngest takes all. -/
theorem purge_concat_eq_nil {entries : List (String × UInt64)} {nonce : String} {expires t : UInt64}
    (h : nonce ∉ (purge ⟨entries ++ [(nonce,expires)]⟩ t).names) : (purge ⟨entries ++ [(nonce,expires)]⟩ t).entries = [] := by
  rw [names,purge,List.dropWhile_append] at h
  rw [purge,List.dropWhile_append]
  split at h
  · rename_i hempty
    rw [if_pos hempty]
    by_cases hpast : expires ≤ t
    · have hone := List.dropWhile_cons_of_pos (p := fun e : String × UInt64 => decide (e.2 ≤ t)) (a := (nonce,expires)) (l := [])
        (decide_eq_true hpast)
      exact hone
    · rw [List.dropWhile_cons_of_neg (by simpa using hpast)] at h
      exact absurd List.mem_cons_self h
  · exact absurd (List.mem_map_of_mem (List.mem_append_right _ (List.mem_singleton_self (nonce,expires)))) h

theorem evict_sublist (cache : NonceCache) : cache.evict.entries.Sublist cache.entries := by
  rw [evict]
  split
  · exact List.tail_sublist _
  · exact List.Sublist.refl _

theorem Agree.checkAndRecord_eq {t : UInt64} (h : Agree t cache cache') {now : UInt64} (hnow : t ≤ now) (nonce : String) (expires : UInt64) :
    cache.checkAndRecord nonce expires now = cache'.checkAndRecord nonce expires now := by
  rw [checkAndRecord,checkAndRecord,h now hnow]

end NonceCache

section Junk
variable {t : UInt64}

/-- Caches between which there is no difference give the same result, and there is none after it. -/
theorem verify_of_agree (h : NonceCache.Agree t cache cache') (hnow : t ≤ call.now) :
    (v.verify mac call cache).2 = (v.verify mac call cache').2 ∧
      NonceCache.Agree t (v.verify mac call cache).1 (v.verify mac call cache').1 := by
  rcases verify_alike_or_presented mac v call with ⟨result,-,halike⟩ | ⟨sig,expires,nonce,hrequired,hsig,hexpires,hnonce,htime⟩
  · rw [halike,halike]
    exact ⟨rfl,h⟩
  · rw [verify_of_presented hrequired hsig hexpires hnonce htime,verify_of_presented hrequired hsig hexpires hnonce htime,
      h.checkAndRecord_eq hnow]
    exact ⟨rfl,.refl t _⟩

theorem answers_of_agree {later : List VerifyCall} (hlater : ∀ call ∈ later, t ≤ call.now) (h : NonceCache.Agree t cache cache') :
    answers mac v cache later = answers mac v cache' later := by
  induction later generalizing cache cache' with
  | nil => rfl
  | cons call later ih =>
    obtain ⟨hresult,hnext⟩ : (v.verify mac call cache).2 = _ ∧ NonceCache.Agree t (v.verify mac call cache).1 _ :=
      verify_of_agree h (hlater call List.mem_cons_self)
    rw [answers,answers,hresult,ih (fun c hc => hlater c (List.mem_cons_of_mem _ hc)) hnext]

/-- A refused request that is traceless makes no difference to what comes after its time. -/
theorem agree_of_refused (htraceless : Traceless mac v call cache) (hjunk : (v.verify mac call cache).2 ≠ .valid) :
    NonceCache.Agree call.now (v.verify mac call cache).1 cache := by
  rcases verify_alike_or_presented mac v call with ⟨result,-,halike⟩ | ⟨sig,expires,nonce,hrequired,hsig,hexpires,hnonce,htime⟩
  · rw [halike]
    exact .refl _ _
  · rw [verify_of_presented hrequired hsig hexpires hnonce htime] at hjunk ⊢
    rcases NonceCache.checkAndRecord_cases cache nonce expires call.now with ⟨hreplay,-⟩ | ⟨hrecord,hfresh⟩
    · rw [hreplay]
      exact NonceCache.agree_purge cache call.now
    · rcases htraceless sig expires nonce hrequired hsig hexpires hnonce htime hfresh with hright | ⟨rfl,hnone⟩
      · rw [hrecord,if_pos rfl,SignedUrlVerifier.compare,if_pos hright] at hjunk
        exact absurd rfl hjunk
      · rw [hrecord]
        exact NonceCache.agree_record_past hnone nonce

/-- A forged request burns its nonce: the URL that was signed with it is refused, and would not
have been. -/
theorem forged_burns {real : VerifyCall} {sig nonce : String} {expires : UInt64} (hnonce : v.requireNonce = true)
    (hsig : (v.sigOf call).isSome) (hexpires : SignedUrlVerifier.expiresOf call = some expires) (hpresented : v.nonceOf call = some nonce)
    (htime : call.now ≤ expires) (hfresh : nonce ∉ (cache.purge call.now).names) {expires' : UInt64} (hreal : v.Signed mac real sig expires' nonce)
    (hlater : call.now ≤ real.now) (hlive : real.now < expires) :
    (v.verify mac real cache).2 = .valid ∧ (v.verify mac real (v.verify mac call cache).1).2 = .nonceError := by
  obtain ⟨forged,hforged⟩ := Option.isSome_iff_exists.mp hsig
  have hrecord : (v.verify mac call cache).1 = ⟨(cache.purge call.now).evict.entries ++ [(nonce,expires)]⟩ := by
    rw [verify_of_presented hnonce hforged hexpires hpresented htime,NonceCache.checkAndRecord,if_neg hfresh]
  have hstill : nonce ∉ (cache.purge real.now).names := by
    rw [← NonceCache.agree_purge cache call.now real.now hlater]
    intro hmem
    exact hfresh (((NonceCache.purge_sublist _ _).map _).subset hmem)
  have hburnt : nonce ∈ ((v.verify mac call cache).1.purge real.now).names := by
    rw [hrecord]
    exact List.mem_map_of_mem (f := Prod.fst) (NonceCache.mem_purge (List.mem_append_right _ (List.mem_singleton_self (nonce,expires))) hlive)
  rw [verify_of_presented hnonce hreal.sig_eq hreal.expires_eq hreal.nonce_eq hreal.inTime,
    verify_of_presented hnonce hreal.sig_eq hreal.expires_eq hreal.nonce_eq hreal.inTime]
  constructor
  · rw [NonceCache.checkAndRecord,if_neg hstill,if_pos rfl,SignedUrlVerifier.compare,if_pos hreal.mac_eq]
  · rw [NonceCache.checkAndRecord,if_pos hburnt]
    rfl

end Junk

/-- What a request puts down is its nonce until its expiry. -/
theorem mem_verify {e : String × UInt64} (h : e ∈ (v.verify mac call cache).1.entries) :
    e ∈ cache.entries ∨ (v.sigOf call).isSome ∧ SignedUrlVerifier.expiresOf call = some e.2 ∧ v.nonceOf call = some e.1 := by
  rcases verify_alike_or_presented mac v call with ⟨result,-,halike⟩ | ⟨sig,expires,nonce,hrequired,hsig,hexpires,hnonce,htime⟩
  · rw [halike] at h
    exact .inl h
  · rw [verify_of_presented hrequired hsig hexpires hnonce htime] at h
    have hpurge := NonceCache.purge_sublist cache call.now
    rcases NonceCache.checkAndRecord_cases cache nonce expires call.now with ⟨hreplay,-⟩ | ⟨hrecord,-⟩
    · rw [hreplay] at h
      exact .inl (hpurge.subset h)
    · rw [hrecord] at h
      rcases List.mem_append.mp h with hold | hnew
      · exact .inl (((NonceCache.evict_sublist _).trans hpurge).subset hold)
      · rw [List.mem_singleton.mp hnew,hsig]
        exact .inr ⟨rfl,hexpires,hnonce⟩

/-- Each nonce that is held was presented. -/
theorem mem_cacheAfter {before : List VerifyCall} {e : String × UInt64} (h : e ∈ (cacheAfter mac v before).entries) :
    ∃ call ∈ before, (v.sigOf call).isSome ∧ SignedUrlVerifier.expiresOf call = some e.2 ∧ v.nonceOf call = some e.1 := by
  induction before using List.reverseRecOn with
  | nil => cases h
  | append_singleton before call ih =>
    rw [cacheAfter,List.foldl_append] at h
    rcases mem_verify h with hold | hnew
    · obtain ⟨c,hc,hrest⟩ := ih hold
      exact ⟨c,List.mem_append_left _ hc,hrest⟩
    · exact ⟨call,List.mem_append_right _ (List.mem_singleton_self call),hnew⟩

/-- A request whose nonce one cache holds and the other does not is answered otherwise. -/
theorem verify_ne_of_held {sig nonce : String} {expires : UInt64} (hrequired : v.requireNonce = true) (hsig : v.sigOf call = some sig)
    (hexpires : SignedUrlVerifier.expiresOf call = some expires) (hnonce : v.nonceOf call = some nonce) (htime : call.now ≤ expires)
    (hheld : nonce ∈ (cache.purge call.now).names) (hunheld : nonce ∉ (cache'.purge call.now).names) :
    (v.verify mac call cache).2 ≠ (v.verify mac call cache').2 := by
  rw [verify_of_presented hrequired hsig hexpires hnonce htime,verify_of_presented hrequired hsig hexpires hnonce htime,
    NonceCache.checkAndRecord,NonceCache.checkAndRecord,if_pos hheld,if_neg hunheld]
  dsimp only
  rw [if_neg Bool.false_ne_true,if_pos rfl,SignedUrlVerifier.compare]
  split
  · rintro ⟨⟩
  · rintro ⟨⟩

/-- A request with a wrong signature that puts its nonce down is not answered alike a second time,
or one whose nonce had to go for it is not. -/
theorem traceless_of_same {before : List VerifyCall} (hsame : ∀ later : List VerifyCall, (∀ c ∈ later, call.now ≤ c.now) →
    answers mac v (v.verify mac call (cacheAfter mac v before)).1 later = answers mac v (cacheAfter mac v before) later) :
    Traceless mac v call (cacheAfter mac v before) := by
  intro sig expires nonce hrequired hsig hexpires hnonce htime hfresh
  by_contra hnot
  obtain ⟨hwrong,hheld⟩ := not_or.mp hnot
  have hcache : (v.verify mac call (cacheAfter mac v before)).1 =
      ⟨((cacheAfter mac v before).purge call.now).evict.entries ++ [(nonce,expires)]⟩ := by
    rw [verify_of_presented hrequired hsig hexpires hnonce htime,NonceCache.checkAndRecord,if_neg hfresh]
  have hone : ∀ c : VerifyCall, call.now ≤ c.now →
      (v.verify mac c (v.verify mac call (cacheAfter mac v before)).1).2 = (v.verify mac c (cacheAfter mac v before)).2 := by
    intro c hc
    have hanswers := hsame [c] fun c' hc' => by rwa [List.mem_singleton.mp hc']
    exact (List.cons.inj hanswers).1
  rw [hcache] at hone
  by_cases hburnt : nonce ∈ (NonceCache.purge ⟨((cacheAfter mac v before).purge call.now).evict.entries ++ [(nonce,expires)]⟩ call.now).names
  · exact verify_ne_of_held hrequired hsig hexpires hnonce htime hburnt hfresh (hone call (UInt64.le_refl _))
  · -- the nonce is past at once, so one that is not was pushed out for it: it can be used again
    have hgone := NonceCache.purge_concat_eq_nil hburnt
    have hpast := NonceCache.le_of_purge_eq_nil hgone (List.mem_append_right _ (List.mem_singleton_self (nonce,expires)))
    have hsome : ((cacheAfter mac v before).purge call.now).entries ≠ [] := fun hnil => hheld ⟨UInt64.le_antisymm hpast htime,hnil⟩
    obtain ⟨e,rest,he⟩ := List.exists_cons_of_ne_nil hsome
    have hlive : call.now < e.2 := by
      have hhead := List.head?_dropWhile_not (fun e : String × UInt64 => decide (e.2 ≤ call.now)) (cacheAfter mac v before).entries
      change List.dropWhile _ _ = _ at he
      rw [he] at hhead
      exact UInt64.not_le.mp (of_decide_eq_false hhead)
    have hmem : e ∈ ((cacheAfter mac v before).purge call.now).entries := he ▸ List.mem_cons_self
    obtain ⟨c,-,hcsig,hcexpires,hcnonce⟩ := mem_cacheAfter ((NonceCache.purge_sublist _ _).subset hmem)
    obtain ⟨csig,hcsig⟩ := Option.isSome_iff_exists.mp hcsig
    have hstill : e.1 ∈ ((cacheAfter mac v before).purge call.now).names := List.mem_map_of_mem hmem
    have hunheld : e.1 ∉ (NonceCache.purge ⟨((cacheAfter mac v before).purge call.now).evict.entries ++ [(nonce,expires)]⟩ call.now).names := by
      rw [NonceCache.names,hgone]
      exact List.not_mem_nil
    have hagain := hone { c with now := call.now } (UInt64.le_refl _)
    have hcsig : v.sigOf { c with now := call.now } = some csig := hcsig
    exact verify_ne_of_held hrequired hcsig hcexpires hcnonce (UInt64.le_of_lt hlive) hstill hunheld hagain.symm

/-- A refused request leaves no trace exactly when it puts no nonce down under a wrong signature, or
one that is past at once: all that come at its time or later are then answered as without it. -/
theorem junk_leaves_no_trace_iff {mac : String → String → String} {v : SignedUrlVerifier} (before : List VerifyCall) {junk : VerifyCall}
    (hjunk : (v.verify mac junk (cacheAfter mac v before)).2 ≠ .valid) :
    (∀ later : List VerifyCall, (∀ call ∈ later, junk.now ≤ call.now) →
      answers mac v (v.verify mac junk (cacheAfter mac v before)).1 later = answers mac v (cacheAfter mac v before) later) ↔
      Traceless mac v junk (cacheAfter mac v before) :=
  ⟨traceless_of_same,fun htraceless _ hlater => answers_of_agree hlater (agree_of_refused htraceless hjunk)⟩

section Examples

theorem junk_leaves_no_trace_iff_replay :
    answers keyed downloads (downloads.verify keyed (download "a" 60) (cacheAfter keyed downloads [download "a" 50])).1 [download "b" 70] =
      answers keyed downloads (cacheAfter keyed downloads [download "a" 50]) [download "b" 70] := by
  refine (junk_leaves_no_trace_iff [download "a" 50] (by decide +kernel)).mpr ?_ [download "b" 70] ?_
  · intro sig expires nonce _ _ _ hnonce _ hfresh
    have hpresented : downloads.nonceOf (download "a" 60) = some "a" := by decide +kernel
    obtain rfl := Option.some.inj (hpresented.symm.trans hnonce)
    exact absurd (show "a" ∈ ((cacheAfter keyed downloads [download "a" 50]).purge 60).names by decide +kernel) hfresh
  · intro call hcall
    obtain rfl := List.mem_singleton.mp hcall
    decide

/-- The URL of a download with a signature of zero. -/
def forgery (nonce : String) (now : UInt64) : VerifyCall := { download nonce now with query := "sig=0&expires=100&nonce=" ++ nonce }

/-- A forgery is refused, and so is then the URL it took the nonce of. -/
theorem forgery_burns_nonce : ¬ ∀ (mac : String → String → String) (v : SignedUrlVerifier) (before : List VerifyCall) (junk : VerifyCall)
    (later : List VerifyCall), (∀ call ∈ later, junk.now ≤ call.now) → (v.verify mac junk (cacheAfter mac v before)).2 ≠ .valid →
      answers mac v (v.verify mac junk (cacheAfter mac v before)).1 later = answers mac v (cacheAfter mac v before) later := by
  intro h
  have hsame := h keyed downloads [] (forgery "a" 50) [download "a" 60] ?_ (by decide +kernel)
  · exact absurd hsame (by decide +kernel)
  · intro call hcall
    obtain rfl := List.mem_singleton.mp hcall
    decide

end Examples

end Dwara.Security.SignedUrl
