import Dwara.Lib.System
import Dwara.Ai.Chat
import Mathlib.Logic.Function.Basic

/-! The semantic cache: entries under ids, and the exact tier in front of them. The embedding
index is left to its answers. -/

namespace Dwara.Ai
open Dwara.Lib

inductive CachedBody where
  | json (v : Json)
  | frames (frames : List String)

structure CachedEntry where
  body : CachedBody
  model : String
  storedAtMs : ℕ
  lastAccessedMs : ℕ
  promptText : String

structure SemanticCacheConfig where
  enabled : Bool
  ttlSecs : ℕ
  maxEntries : ℕ
  deriving DecidableEq, Repr

structure SemanticCacheEngine where
  entries : List (ℕ × CachedEntry)
  exactMatch : UInt64 → Option ℕ
  nextId : ℕ

namespace SemanticCacheEngine
variable (cfg : SemanticCacheConfig) (hashPrompt : String → UInt64) (cache : SemanticCacheEngine)

def new : SemanticCacheEngine := ⟨[],fun _ => none,0⟩

/-- The entry's body, when it is fresh and for the model. -/
def validateEntry (id : ℕ) (model : String) (now : ℕ) : Option CachedBody :=
  (cache.entries.lookup id).bind fun entry =>
    if cfg.ttlSecs * 1000 < now - entry.storedAtMs then none else if entry.model ≠ model then none else some entry.body

def touch (id now : ℕ) : SemanticCacheEngine :=
  { cache with entries := cache.entries.map fun x => (x.1,if x.1 = id then { x.2 with lastAccessedMs := now } else x.2) }

/-- The exact tier's hit, with the id of its entry. -/
def lookupExact (promptText model : String) (now : ℕ) : Option (ℕ × CachedBody) :=
  if cfg.enabled = false then none
  else (cache.exactMatch (hashPrompt promptText)).bind fun id => (cache.validateEntry cfg id model now).map fun body => (id,body)

/-- The entry leaves, and with it what the exact tier has under its text. -/
def evict (id : ℕ) : SemanticCacheEngine :=
  match cache.entries.lookup id with
  | none => cache
  | some entry => { cache with
      entries := cache.entries.filter (·.1 ≠ id)
      exactMatch := Function.update cache.exactMatch (hashPrompt entry.promptText) none }

/-- No entry was used longer ago. -/
def IsLru (id : ℕ) : Prop := ∃ x ∈ cache.entries, x.1 = id ∧ ∀ y ∈ cache.entries, x.2.lastAccessedMs ≤ y.2.lastAccessedMs

instance (id : ℕ) : Decidable (cache.IsLru id) := inferInstanceAs (Decidable (∃ x ∈ cache.entries, _ ∧ _))

def insert (promptText : String) (body : CachedBody) (model : String) (now : ℕ) : SemanticCacheEngine where
  entries := cache.entries ++ [(cache.nextId,⟨body,model,now,now,promptText⟩)]
  exactMatch := Function.update cache.exactMatch (hashPrompt promptText) (some cache.nextId)
  nextId := cache.nextId + 1

/-- Whether room is made for a new entry. -/
def Full : Prop := cfg.maxEntries ≤ cache.entries.length ∧ cache.entries ≠ []

instance : Decidable (cache.Full cfg) := instDecidableAnd

/-- A store: room is made, `victim` being the one evicted; without an embedding nothing is
inserted. -/
def storeBody (promptText : String) (body : CachedBody) (model : String) (now : ℕ) (embedded : Bool) (victim : ℕ) : SemanticCacheEngine :=
  if cfg.enabled = false then cache
  else
    let roomy := if cache.Full cfg then cache.evict hashPrompt victim else cache
    if embedded then roomy.insert hashPrompt promptText body model now else roomy

end SemanticCacheEngine

/-- An answer on its way into the cache, with the request it answers. -/
structure PendingStore where
  rid : String
  asked : ChatRequest
  body : CachedBody

/-- The request as it was sent to the provider. -/
def PendingStore.sent (exp : AiExperiments) (p : PendingStore) : ChatRequest := exp.inject p.rid p.asked

/-- An answer from the exact tier. -/
structure ExactHit where
  rid : String
  asked : ChatRequest
  body : CachedBody
  /-- The store its entry is from. -/
  origin : PendingStore

/-- Chat requests behind their guardrails, and the cache they share. -/
structure Caching where
  cache : SemanticCacheEngine
  pending : List PendingStore
  /-- The store each entry is from. -/
  origins : ℕ → Option PendingStore
  hits : List ExactHit

/-- How a request goes on that the exact tier has no answer for. -/
inductive MissOutcome where
  /-- The entry of a neighbouring text answers. -/
  | neighbor (id : ℕ)
  | provider (body : CachedBody)
  | failed

inductive CacheStep where
  | request (rid : String) (asked : ChatRequest) (now : ℕ) (miss : MissOutcome)
  | store (i now : ℕ) (embedded : Bool) (victim : ℕ)

namespace Caching
variable (cfg : SemanticCacheConfig) (hashPrompt : String → UInt64) (exp : AiExperiments)

def start : Caching := ⟨.new,[],fun _ => none,[]⟩

/-- A request the exact tier does not answer. -/
def missed (s : Caching) (rid : String) (asked : ChatRequest) (now : ℕ) : MissOutcome → Caching
  | .neighbor id => { s with cache := s.cache.touch id now }
  | .provider body => { s with pending := s.pending ++ [⟨rid,asked,body⟩] }
  | .failed => s

/-- A request the exact tier answers with the entry `id`. -/
def answered (s : Caching) (rid : String) (asked : ChatRequest) (now id : ℕ) (body : CachedBody) : Caching :=
  { s with cache := s.cache.touch id now
           hits := s.hits ++ ((s.origins id).map fun origin => ⟨rid,asked,body,origin⟩).toList }

/-- A store under the text that was sent. -/
def stored (s : Caching) (p : PendingStore) (i now : ℕ) (embedded : Bool) (victim : ℕ) : Caching :=
  { s with cache := s.cache.storeBody cfg hashPrompt (p.sent exp).promptText p.body (p.sent exp).model now embedded victim
           pending := s.pending.eraseIdx i
           origins := if cfg.enabled = true ∧ embedded = true then Function.update s.origins s.cache.nextId (some p) else s.origins }

/-- A request is looked up under its own text. -/
def step (s : Caching) : CacheStep → Option Caching
  | .request rid asked now miss =>
    match s.cache.lookupExact cfg hashPrompt asked.promptText asked.model now with
    | some (id,body) => some (s.answered rid asked now id body)
    | none => some (s.missed rid asked now miss)
  | .store i now embedded victim =>
    match s.pending[i]? with
    | none => none
    | some p => if s.cache.Full cfg ∧ ¬ s.cache.IsLru victim then none else some (s.stored cfg hashPrompt exp p i now embedded victim)

end Caching

/-- Chat requests over one cache, their stores finishing in any order. -/
def caching (cfg : SemanticCacheConfig) (hashPrompt : String → UInt64) (exp : AiExperiments) : System Caching CacheStep :=
  ⟨Caching.start,Caching.step cfg hashPrompt exp⟩

end Dwara.Ai
