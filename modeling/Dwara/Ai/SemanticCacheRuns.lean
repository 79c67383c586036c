import Dwara.Ai.SemanticCache

/-! What an answer from the exact tier has in common with the request it was stored for. -/

namespace Dwara.Ai
open Dwara.Lib

namespace SemanticCacheEngine
variable {cfg : SemanticCacheConfig} {hashPrompt : String → UInt64} {cache : SemanticCacheEngine}

theorem lookup_touch (cache : SemanticCacheEngine) (id now k : ℕ) :
    (cache.touch id now).entries.lookup k =
      (cache.entries.lookup k).map fun e => if k = id then { e with lastAccessedMs := now } else e := by
  rw [touch]
  induction cache.entries with
  | nil => rfl
  | cons x xs ih =>
    rw [List.map_cons,List.lookup_cons,List.lookup_cons,ih]
    by_cases hk : k = x.1
    · subst hk
      simp
    · have hne : (k == x.1) = false := beq_false_of_ne hk
      simp only [hne]

private theorem lookup_filter_id (entries : List (ℕ × CachedEntry)) (victim k : ℕ) :
    (entries.filter (·.1 ≠ victim)).lookup k = if k = victim then none else entries.lookup k := by
  induction entries with
  | nil => simp
  | cons x xs ih => grind

theorem lookup_evict (cache : SemanticCacheEngine) (hashPrompt : String → UInt64) (victim k : ℕ) :
    (cache.evict hashPrompt victim).entries.lookup k = if k = victim then none else cache.entries.lookup k := by
  rw [evict]
  split
  · rename_i hnone
    split
    · rename_i hk
      rw [hk,hnone]
    · rfl
  · exact lookup_filter_id cache.entries victim k

/-- What the exact tier points at is an entry under its hash; ids are not used twice. -/
structure Sound (cache : SemanticCacheEngine) (hashPrompt : String → UInt64) : Prop where
  id_lt : ∀ k e, cache.entries.lookup k = some e → k < cache.nextId
  exact_lt : ∀ h k, cache.exactMatch h = some k → k < cache.nextId
  hash_eq : ∀ h k e, cache.exactMatch h = some k → cache.entries.lookup k = some e → hashPrompt e.promptText = h

theorem sound_new : new.Sound hashPrompt where
  id_lt _ _ h := by simp [new] at h
  exact_lt _ _ h := by simp [new] at h
  hash_eq _ _ _ h := by simp [new] at h

theorem Sound.touch (h : cache.Sound hashPrompt) (id now : ℕ) : (cache.touch id now).Sound hashPrompt where
  id_lt k e he := by
    rw [lookup_touch] at he
    obtain ⟨e',he',-⟩ := Option.map_eq_some_iff.mp he
    exact h.id_lt k e' he'
  exact_lt := h.exact_lt
  hash_eq hash k e hexact he := by
    rw [lookup_touch] at he
    obtain ⟨e',he',rfl⟩ := Option.map_eq_some_iff.mp he
    have hhash := h.hash_eq hash k e' hexact he'
    split
    · exact hhash
    · exact hhash

theorem exactMatch_evict {victim k : ℕ} {h : UInt64} (hexact : (cache.evict hashPrompt victim).exactMatch h = some k) :
    cache.exactMatch h = some k := by
  rw [evict] at hexact
  split at hexact
  · exact hexact
  · dsimp only at hexact
    by_cases heq : h = hashPrompt (‹CachedEntry›).promptText
    · simp [heq] at hexact
    · rwa [Function.update_of_ne heq] at hexact

@[simp] theorem nextId_evict (victim : ℕ) : (cache.evict hashPrompt victim).nextId = cache.nextId := by
  rw [evict]
  split <;> rfl

theorem Sound.evict (h : cache.Sound hashPrompt) (victim : ℕ) : (cache.evict hashPrompt victim).Sound hashPrompt where
  id_lt k e he := by
    rw [lookup_evict] at he
    split at he
    · exact nomatch he
    · simpa using h.id_lt k e he
  exact_lt hash k hexact := by simpa using h.exact_lt hash k (exactMatch_evict hexact)
  hash_eq hash k e hexact he := by
    rw [lookup_evict] at he
    split at he
    · exact nomatch he
    · exact h.hash_eq hash k e (exactMatch_evict hexact) he

variable {promptText model : String} {body : CachedBody} {now : ℕ}

theorem lookup_insert_self (h : cache.Sound hashPrompt) :
    (cache.insert hashPrompt promptText body model now).entries.lookup cache.nextId = some ⟨body,model,now,now,promptText⟩ := by
  have hnone : cache.entries.lookup cache.nextId = none := by
    by_contra hsome
    obtain ⟨e,he⟩ := Option.ne_none_iff_exists'.mp hsome
    exact absurd (h.id_lt _ e he) (Nat.lt_irrefl _)
  rw [insert,List.lookup_append,hnone]
  simp

theorem lookup_insert_of_ne {k : ℕ} (hk : k ≠ cache.nextId) :
    (cache.insert hashPrompt promptText body model now).entries.lookup k = cache.entries.lookup k := by
  have hne : (k == cache.nextId) = false := beq_false_of_ne hk
  rw [insert,List.lookup_append,List.lookup_cons,hne]
  simp

theorem exactMatch_insert : (cache.insert hashPrompt promptText body model now).exactMatch =
    Function.update cache.exactMatch (hashPrompt promptText) (some cache.nextId) := rfl

theorem Sound.insert (h : cache.Sound hashPrompt) : (cache.insert hashPrompt promptText body model now).Sound hashPrompt where
  id_lt k e he := by
    change k < cache.nextId + 1
    by_cases hk : k = cache.nextId
    · omega
    · rw [lookup_insert_of_ne hk] at he
      exact Nat.lt_succ_of_lt (h.id_lt k e he)
  exact_lt hash k hexact := by
    change k < cache.nextId + 1
    rw [exactMatch_insert] at hexact
    by_cases heq : hash = hashPrompt promptText
    · rw [heq,Function.update_self] at hexact
      obtain rfl := Option.some.inj hexact
      omega
    · rw [Function.update_of_ne heq] at hexact
      exact Nat.lt_succ_of_lt (h.exact_lt hash k hexact)
  hash_eq hash k e hexact he := by
    rw [exactMatch_insert] at hexact
    by_cases heq : hash = hashPrompt promptText
    · rw [heq,Function.update_self] at hexact
      obtain rfl := Option.some.inj hexact
      rw [lookup_insert_self h] at he
      obtain rfl := Option.some.inj he
      exact heq.symm
    · rw [Function.update_of_ne heq] at hexact
      rw [lookup_insert_of_ne (h.exact_lt hash k hexact).ne] at he
      exact h.hash_eq hash k e hexact he

/-- The cache a store inserts into. -/
def roomy (cfg : SemanticCacheConfig) (hashPrompt : String → UInt64) (cache : SemanticCacheEngine) (victim : ℕ) : SemanticCacheEngine :=
  if cache.Full cfg then cache.evict hashPrompt victim else cache

theorem storeBody_of_disabled (h : cfg.enabled = false) (embedded : Bool) (victim : ℕ) :
    cache.storeBody cfg hashPrompt promptText body model now embedded victim = cache := if_pos h

theorem storeBody_of_enabled (h : cfg.enabled = true) (embedded : Bool) (victim : ℕ) :
    cache.storeBody cfg hashPrompt promptText body model now embedded victim =
      if embedded then (cache.roomy cfg hashPrompt victim).insert hashPrompt promptText body model now
      else cache.roomy cfg hashPrompt victim := by
  rw [storeBody,if_neg (by simp [h])]
  rfl

@[simp] theorem nextId_roomy (victim : ℕ) : (cache.roomy cfg hashPrompt victim).nextId = cache.nextId := by
  rw [roomy]
  split
  · exact nextId_evict victim
  · rfl

theorem Sound.roomy (h : cache.Sound hashPrompt) (victim : ℕ) : (cache.roomy cfg hashPrompt victim).Sound hashPrompt := by
  rw [SemanticCacheEngine.roomy]
  split
  · exact h.evict victim
  · exact h

theorem Sound.storeBody (h : cache.Sound hashPrompt) (embedded : Bool) (victim : ℕ) :
    (cache.storeBody cfg hashPrompt promptText body model now embedded victim).Sound hashPrompt := by
  cases henabled : cfg.enabled
  · rwa [storeBody_of_disabled henabled]
  · rw [storeBody_of_enabled henabled]
    split
    · exact (h.roomy victim).insert
    · exact h.roomy victim

theorem lookup_roomy {victim k : ℕ} {e : CachedEntry} (h : (cache.roomy cfg hashPrompt victim).entries.lookup k = some e) :
    cache.entries.lookup k = some e := by
  rw [roomy] at h
  split at h
  · rw [lookup_evict] at h
    split at h
    · exact nomatch h
    · exact h
  · exact h

theorem lookupExact_eq_some {id now : ℕ} : cache.lookupExact cfg hashPrompt promptText model now = some (id,body) ↔
    cfg.enabled = true ∧ cache.exactMatch (hashPrompt promptText) = some id ∧
      ∃ e, cache.entries.lookup id = some e ∧ now - e.storedAtMs ≤ cfg.ttlSecs * 1000 ∧ e.model = model ∧ e.body = body := by
  rw [lookupExact]
  cases cfg.enabled
  · simp
  · rw [if_neg (by simp)]
    constructor
    · intro h
      obtain ⟨k,hexact,h⟩ := Option.bind_eq_some_iff.mp h
      obtain ⟨b,hvalid,heq⟩ := Option.map_eq_some_iff.mp h
      obtain ⟨rfl,rfl⟩ := Prod.mk.inj heq
      obtain ⟨e,he,hb⟩ := Option.bind_eq_some_iff.mp hvalid
      split at hb
      · exact nomatch hb
      · split at hb
        · exact nomatch hb
        · exact ⟨rfl,hexact,e,he,by omega,by simpa using ‹¬ e.model ≠ model›,Option.some.inj hb⟩
    · rintro ⟨-,hexact,e,he,hfresh,rfl,rfl⟩
      rw [hexact,Option.bind_some,validateEntry,he,Option.bind_some,if_neg (by omega),if_neg (by simp)]
      rfl

/-- The exact tier has the entry of a store at this time under this hash. -/
structure Holds (cache : SemanticCacheEngine) (hash : UInt64) (id storedAt : ℕ) (body : CachedBody) (model : String) : Prop where
  exact_eq : cache.exactMatch hash = some id
  entry : ∃ e, cache.entries.lookup id = some e ∧ e.storedAtMs = storedAt ∧ e.model = model ∧ e.body = body

variable {hash : UInt64} {id storedAt : ℕ}

theorem Holds.touch (h : cache.Holds hash id storedAt body model) (k now : ℕ) : (cache.touch k now).Holds hash id storedAt body model where
  exact_eq := h.exact_eq
  entry := by
    obtain ⟨e,he,hat,hmodel,hbody⟩ := h.entry
    refine ⟨_,by rw [lookup_touch,he,Option.map_some],?_⟩
    split
    · exact ⟨hat,hmodel,hbody⟩
    · exact ⟨hat,hmodel,hbody⟩

theorem Holds.roomy (h : cache.Holds hash id storedAt body model) (hsound : cache.Sound hashPrompt) {victim : ℕ}
    (hvictim : cache.Full cfg → ∀ e ∈ cache.entries.lookup victim, hashPrompt e.promptText ≠ hash) :
    (cache.roomy cfg hashPrompt victim).Holds hash id storedAt body model := by
  rw [SemanticCacheEngine.roomy]
  split
  · rename_i hfull
    obtain ⟨e,he,hrest⟩ := h.entry
    have hne : id ≠ victim := by
      rintro rfl
      exact hvictim hfull e he (hsound.hash_eq hash id e h.exact_eq he)
    constructor
    · rw [evict]
      split
      · exact h.exact_eq
      · rename_i v hv
        exact (Function.update_of_ne (hvictim hfull v hv).symm _ _).trans h.exact_eq
    · exact ⟨e,by rw [lookup_evict,if_neg hne,he],hrest⟩
  · exact h

theorem Holds.insert (h : cache.Holds hash id storedAt body model) (hsound : cache.Sound hashPrompt) {text : String}
    (hne : hashPrompt text ≠ hash) (body' : CachedBody) (model' : String) (now : ℕ) :
    (cache.insert hashPrompt text body' model' now).Holds hash id storedAt body model where
  exact_eq := by
    rw [exactMatch_insert,Function.update_of_ne hne.symm]
    exact h.exact_eq
  entry := by
    obtain ⟨e,he,hrest⟩ := h.entry
    exact ⟨e,by rw [lookup_insert_of_ne (hsound.id_lt id e he).ne,he],hrest⟩

theorem holds_insert (h : cache.Sound hashPrompt) (promptText : String) (body : CachedBody) (model : String) (now : ℕ) :
    (cache.insert hashPrompt promptText body model now).Holds (hashPrompt promptText) cache.nextId now body model where
  exact_eq := Function.update_self ..
  entry := ⟨_,lookup_insert_self h,rfl,rfl,rfl⟩

end SemanticCacheEngine

namespace Caching
variable {cfg : SemanticCacheConfig} {hashPrompt : String → UInt64} {exp : AiExperiments}

/-- The hit has the answer of a request of the same alias and, as it was sent, of a text with
the same hash. -/
structure Matches (hashPrompt : String → UInt64) (exp : AiExperiments) (hit : ExactHit) : Prop where
  body_eq : hit.body = hit.origin.body
  model_eq : (hit.origin.sent exp).model = hit.asked.model
  hash_eq : hashPrompt (hit.origin.sent exp).promptText = hashPrompt hit.asked.promptText

/-- The entry is the one of this store. -/
structure IsOf (exp : AiExperiments) (e : CachedEntry) (p : PendingStore) : Prop where
  body_eq : e.body = p.body
  model_eq : e.model = (p.sent exp).model
  text_eq : e.promptText = (p.sent exp).promptText

/-- The cache is sound, and entries and hits belong to their stores. -/
structure Kept (hashPrompt : String → UInt64) (exp : AiExperiments) (s : Caching) : Prop where
  sound : s.cache.Sound hashPrompt
  origin : ∀ k e, s.cache.entries.lookup k = some e → ∃ p, s.origins k = some p ∧ IsOf exp e p
  hits : ∀ hit ∈ s.hits, Matches hashPrompt exp hit

theorem kept_start : Kept hashPrompt exp start where
  sound := SemanticCacheEngine.sound_new
  origin _ _ h := by simp [start,SemanticCacheEngine.new] at h
  hits _ h := by simp [start] at h

private theorem origin_touch {s : Caching} (h : Kept hashPrompt exp s) (id now k : ℕ) (e : CachedEntry)
    (he : (s.cache.touch id now).entries.lookup k = some e) : ∃ p, s.origins k = some p ∧ IsOf exp e p := by
  rw [SemanticCacheEngine.lookup_touch] at he
  obtain ⟨e',he',rfl⟩ := Option.map_eq_some_iff.mp he
  obtain ⟨p,hp,hof⟩ := h.origin k e' he'
  refine ⟨p,hp,?_⟩
  split
  · exact ⟨hof.body_eq,hof.model_eq,hof.text_eq⟩
  · exact hof

theorem Kept.answered {s : Caching} (h : Kept hashPrompt exp s) {rid : String} {asked : ChatRequest} {now id : ℕ} {body : CachedBody}
    (hhit : s.cache.lookupExact cfg hashPrompt asked.promptText asked.model now = some (id,body)) :
    Kept hashPrompt exp (s.answered rid asked now id body) where
  sound := h.sound.touch id now
  origin := origin_touch h id now
  hits hit hmem := by
    obtain ⟨-,hexact,e,he,-,hmodel,hbody⟩ := SemanticCacheEngine.lookupExact_eq_some.mp hhit
    obtain ⟨p,hp,hof⟩ := h.origin id e he
    obtain hold | hnew := List.mem_append.mp hmem
    · exact h.hits hit hold
    · rw [hp] at hnew
      obtain rfl : hit = ⟨rid,asked,body,p⟩ := by simpa using hnew
      constructor
      · exact hbody.symm.trans hof.body_eq
      · exact hof.model_eq.symm.trans hmodel
      · rw [← hof.text_eq]
        exact h.sound.hash_eq _ id e hexact he

theorem Kept.missed {s : Caching} (h : Kept hashPrompt exp s) (rid : String) (asked : ChatRequest) (now : ℕ) (miss : MissOutcome) :
    Kept hashPrompt exp (s.missed rid asked now miss) := by
  cases miss with
  | neighbor id => exact ⟨h.sound.touch id now,origin_touch h id now,h.hits⟩
  | provider body => exact ⟨h.sound,h.origin,h.hits⟩
  | failed => exact h

/-- The entries after a store are earlier ones or the one of this store. -/
private theorem origin_stored {s : Caching} (h : Kept hashPrompt exp s) (p : PendingStore) (i now : ℕ) (embedded : Bool) (victim k : ℕ)
    (e : CachedEntry) (he : (s.stored cfg hashPrompt exp p i now embedded victim).cache.entries.lookup k = some e) :
    ∃ q, (s.stored cfg hashPrompt exp p i now embedded victim).origins k = some q ∧ IsOf exp e q := by
  rw [Caching.stored] at he ⊢
  dsimp only at he ⊢
  cases henabled : cfg.enabled
  · rw [SemanticCacheEngine.storeBody_of_disabled henabled] at he
    rw [if_neg (by simp)]
    exact h.origin k e he
  · rw [SemanticCacheEngine.storeBody_of_enabled henabled] at he
    cases embedded
    · rw [if_neg (by simp)] at he ⊢
      exact h.origin k e (SemanticCacheEngine.lookup_roomy he)
    · rw [if_pos rfl] at he
      rw [if_pos ⟨rfl,rfl⟩]
      have hroomy : (s.cache.roomy cfg hashPrompt victim).Sound hashPrompt := h.sound.roomy victim
      by_cases hk : k = s.cache.nextId
      · subst hk
        rw [← SemanticCacheEngine.nextId_roomy victim,SemanticCacheEngine.lookup_insert_self hroomy] at he
        obtain rfl := Option.some.inj he
        exact ⟨p,Function.update_self ..,rfl,rfl,rfl⟩
      · rw [SemanticCacheEngine.lookup_insert_of_ne (by simpa using hk)] at he
        rw [Function.update_of_ne hk]
        exact h.origin k e (SemanticCacheEngine.lookup_roomy he)

theorem Kept.stored {s : Caching} (h : Kept hashPrompt exp s) (p : PendingStore) (i now : ℕ) (embedded : Bool) (victim : ℕ) :
    Kept hashPrompt exp (s.stored cfg hashPrompt exp p i now embedded victim) where
  sound := h.sound.storeBody embedded victim
  origin := origin_stored h p i now embedded victim
  hits := h.hits

theorem step_store {s t : Caching} {i now victim : ℕ} {embedded : Bool} (h : s.step cfg hashPrompt exp (.store i now embedded victim) = some t) :
    ∃ p, s.pending[i]? = some p ∧ t = s.stored cfg hashPrompt exp p i now embedded victim := by
  rw [step] at h
  split at h
  · exact nomatch h
  · rename_i p hp
    split at h
    · exact nomatch h
    · exact ⟨p,hp,(Option.some.inj h).symm⟩

theorem Kept.step {s t : Caching} (h : Kept hashPrompt exp s) {a : CacheStep} (hstep : s.step cfg hashPrompt exp a = some t) :
    Kept hashPrompt exp t := by
  cases a with
  | request rid asked now miss =>
    rw [Caching.step] at hstep
    split at hstep
    · obtain rfl := Option.some.inj hstep
      exact h.answered ‹_›
    · obtain rfl := Option.some.inj hstep
      exact h.missed rid asked now miss
  | store i now embedded victim =>
    obtain ⟨p,-,rfl⟩ := step_store hstep
    exact h.stored p i now embedded victim

theorem kept_of_run {steps : List CacheStep} {s : Caching} (hrun : (caching cfg hashPrompt exp).run steps = some s) :
    Kept hashPrompt exp s := by
  have hstep : ∀ s a t, Kept hashPrompt exp s → (caching cfg hashPrompt exp).step s a = some t → Kept hashPrompt exp t :=
    fun _ _ _ h => h.step
  exact System.run_inv (Kept hashPrompt exp) kept_start hstep hrun

/-- The step stores no text of this hash, and evicts none. -/
def Spares (cfg : SemanticCacheConfig) (hashPrompt : String → UInt64) (exp : AiExperiments) (hash : UInt64) (s : Caching) : CacheStep → Prop
  | .request _ _ _ _ => True
  | .store i _ embedded victim =>
    (embedded = true → ∀ p ∈ s.pending[i]?, hashPrompt (p.sent exp).promptText ≠ hash) ∧
      (s.cache.Full cfg → ∀ e ∈ s.cache.entries.lookup victim, hashPrompt e.promptText ≠ hash)

instance (hash : UInt64) (s : Caching) : ∀ a, Decidable (Spares cfg hashPrompt exp hash s a)
  | .request _ _ _ _ => isTrue trivial
  | .store _ _ _ _ => inferInstanceAs (Decidable (_ ∧ _))

variable {hash : UInt64} {id storedAt : ℕ} {body : CachedBody} {model : String}

theorem holds_step {s t : Caching} (hkept : Kept hashPrompt exp s) (h : s.cache.Holds hash id storedAt body model) {a : CacheStep}
    (hspares : Spares cfg hashPrompt exp hash s a) (hstep : s.step cfg hashPrompt exp a = some t) :
    t.cache.Holds hash id storedAt body model := by
  cases a with
  | request rid asked now miss =>
    rw [step] at hstep
    split at hstep
    · obtain rfl := Option.some.inj hstep
      exact h.touch _ now
    · obtain rfl := Option.some.inj hstep
      cases miss with
      | neighbor k => exact h.touch k now
      | provider answer => exact h
      | failed => exact h
  | store i now embedded victim =>
    obtain ⟨p,hp,rfl⟩ := step_store hstep
    rw [stored]
    dsimp only
    cases henabled : cfg.enabled
    · rwa [SemanticCacheEngine.storeBody_of_disabled henabled]
    · have hroomy := h.roomy hkept.sound hspares.2
      rw [SemanticCacheEngine.storeBody_of_enabled henabled]
      cases embedded
      · exact hroomy
      · exact hroomy.insert (hkept.sound.roomy victim) (hspares.1 rfl p hp) _ _ _

/-- An answer of the exact tier was stored for a request of the same alias and of a text with
the same hash, and the text a request was sent with finds its answer as long as the text is
neither stored again nor evicted. -/
theorem exact_tier {steps : List CacheStep} {s : Caching} (hrun : (caching cfg hashPrompt exp).run steps = some s) :
    (∀ hit ∈ s.hits, Matches hashPrompt exp hit) ∧
      ∀ (p : PendingStore) (i now victim : ℕ) (s₁ s₂ : Caching) (after : List CacheStep) (asked : ChatRequest) (later : ℕ), cfg.enabled = true → s.pending[i]? = some p →
        s.step cfg hashPrompt exp (.store i now true victim) = some s₁ →
        (caching cfg hashPrompt exp).AlongFrom (Spares cfg hashPrompt exp (hashPrompt (p.sent exp).promptText)) s₁ after →
        after.foldlM (caching cfg hashPrompt exp).step s₁ = some s₂ →
        asked.promptText = (p.sent exp).promptText → asked.model = (p.sent exp).model → later - now ≤ cfg.ttlSecs * 1000 →
        ∃ id, s₂.cache.lookupExact cfg hashPrompt asked.promptText asked.model later = some (id,p.body) := by
  have hkept := kept_of_run hrun
  refine ⟨hkept.hits,fun p i now victim s₁ s₂ after asked later henabled hp hstore hspares hafter htext hmodel hfresh => ?_⟩
  have hkept₁ : Kept hashPrompt exp s₁ := hkept.step hstore
  have hholds₁ : s₁.cache.Holds (hashPrompt (p.sent exp).promptText) s.cache.nextId now p.body (p.sent exp).model := by
    obtain ⟨q,hq,rfl⟩ := step_store hstore
    obtain rfl : p = q := Option.some.inj (hp.symm.trans hq)
    rw [stored]
    dsimp only
    rw [SemanticCacheEngine.storeBody_of_enabled henabled,if_pos rfl,← SemanticCacheEngine.nextId_roomy victim]
    exact SemanticCacheEngine.holds_insert (hkept.sound.roomy victim) ..
  have hholds₂ := System.alongFrom_inv (fun t => Kept hashPrompt exp t ∧ t.cache.Holds _ s.cache.nextId now p.body (p.sent exp).model)
    (fun t a t' ht hG ht' => ⟨ht.1.step ht',holds_step ht.1 ht.2 hG ht'⟩) ⟨hkept₁,hholds₁⟩ hspares hafter
  obtain ⟨e,he,hat,hm,hb⟩ := hholds₂.2.entry
  refine ⟨s.cache.nextId,SemanticCacheEngine.lookupExact_eq_some.mpr ⟨henabled,?_,e,he,?_,?_,hb⟩⟩
  · rw [htext]
    exact hholds₂.2.exact_eq
  · rwa [hat]
  · rw [hm,hmodel]

private def saying (role : ChatRole) (text : String) : ChatRequest :=
  ⟨"chat",[.ofText role text],[],none,none,none,none,none,false,false,none,none,[],[]⟩

private def smallCache : SemanticCacheConfig := ⟨true,60,2⟩

private def lengthHash (text : String) : UInt64 := UInt64.ofNat text.length

private def noExperiments : AiExperiments := ⟨[],[],fun _ _ => none⟩

private def firstAsked : List CacheStep := [.request "1" (saying .user "hi") 0 (.provider (.json (.string "hello")))]

private def firstPending : Caching := start.missed "1" (saying .user "hi") 0 (.provider (.json (.string "hello")))

private def firstStored : Caching :=
  firstPending.stored smallCache lengthHash noExperiments ⟨"1",saying .user "hi",.json (.string "hello")⟩ 0 1 true 0

private def another : List CacheStep := [.request "2" (saying .user "good bye") 2 (.provider (.json (.string "bye"))),.store 0 3 true 0]

/-- A first answer is stored, another text's after it, and the first request is repeated. -/
theorem exact_tier_repeated : ∃ s id, another.foldlM (caching smallCache lengthHash noExperiments).step firstStored = some s ∧
    s.cache.lookupExact smallCache lengthHash "hi" "chat" 50000 = some (id,.json (.string "hello")) := by
  have hrun : (caching smallCache lengthHash noExperiments).run firstAsked = some firstPending := rfl
  have hstore : firstPending.step smallCache lengthHash noExperiments (.store 0 1 true 0) = some firstStored := rfl
  have hspares : (caching smallCache lengthHash noExperiments).AlongFrom (Spares smallCache lengthHash noExperiments (lengthHash "hi"))
    firstStored another := by decide +kernel
  have hsome : (another.foldlM (caching smallCache lengthHash noExperiments).step firstStored).isSome = true := by decide +kernel
  obtain ⟨s,hs⟩ := Option.isSome_iff_exists.mp hsome
  obtain ⟨id,hid⟩ := (exact_tier hrun).2 ⟨"1",saying .user "hi",.json (.string "hello")⟩ 0 1 0 firstStored s another (saying .user "hi") 50000
    rfl rfl hstore hspares hs rfl rfl (by decide)
  exact ⟨s,id,hs,hid⟩

/-- The text of a user's message, asked again as a system message, is answered alike. -/
theorem same_text_other_messages : ¬ ∀ steps s, (caching smallCache lengthHash noExperiments).run steps = some s → ∀ hit ∈ s.hits,
    (hit.origin.sent noExperiments).messages = (noExperiments.inject hit.rid hit.asked).messages := by
  intro h
  have hroles : ((caching smallCache lengthHash noExperiments).run (firstAsked ++ [.store 0 1 true 0,.request "2" (saying .system "hi") 2 .failed])).map
      (fun s => s.hits.map fun hit => ((hit.origin.sent noExperiments).messages,(noExperiments.inject hit.rid hit.asked).messages)) =
      some [([.ofText .user "hi"],[.ofText .system "hi"])] := by decide +kernel
  obtain ⟨s,hrun,hhits⟩ := Option.map_eq_some_iff.mp hroles
  obtain ⟨hit,hmem,heq⟩ := List.mem_map.mp (hhits ▸ List.mem_singleton_self _)
  have hsame := h _ s hrun hit hmem
  obtain ⟨hsent,hasked⟩ := Prod.mk.inj heq
  rw [hsent,hasked] at hsame
  exact absurd hsame (by decide)

end Caching

end Dwara.Ai
