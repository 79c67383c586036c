import Dwara.Ai.SemanticCache

/-! The semantic cache under many calls at once: every taking of a lock is a step of its own. -/

namespace Dwara.Ai
open Dwara.Lib

structure StoreCall where
  promptText : String
  body : CachedBody
  model : String

/-- How far a call has come: what it does when it is next given a lock. -/
inductive CacheTask where
  | reading (promptText model : String) (now : ℕ)
  | validating (promptText model : String) (now id : ℕ)
  | searching (model : String) (now : ℕ)
  | counting (st : StoreCall)
  | evicting (st : StoreCall)
  | unslotting (st : StoreCall) (id : ℕ) (promptText : String)
  | embedding (st : StoreCall)
  | inserting (st : StoreCall) (now : ℕ)
  | slotting (promptText : String) (id : ℕ)
  | clearing
  | clearingSlots
  | finished

/-- A lookup holds on to the lock it read its slot under until the entry is validated. -/
def CacheTask.holdsSlots : CacheTask → Bool
  | .validating _ _ _ _ => true
  | _ => false

/-- What the code leaves open. -/
inductive CacheChoice where
  | go
  /-- The neighbour that the embedding index answers with, if any. -/
  | neighbor (id : Option ℕ)
  /-- The entry that is evicted, of those used longest ago. -/
  | victim (id : ℕ)
  /-- The clock when the embedding is there; none if there is none. -/
  | embedded (now : Option ℕ)

/-- What one step does to the cache. -/
inductive CacheChange where
  | keep
  | hit (promptText model : String) (now id : ℕ) (body : CachedBody)
  | touch (now id : ℕ)
  | drop (id : ℕ)
  | unslot (id : ℕ) (promptText : String)
  | push (st : StoreCall) (now : ℕ)
  | slot (promptText : String) (id : ℕ)
  | clearEntries
  | clearSlots

def CacheChange.writesSlots : CacheChange → Bool
  | .unslot _ _ => true
  | .slot _ _ => true
  | .clearSlots => true
  | _ => false

namespace SemanticCacheEngine
variable (cfg : SemanticCacheConfig) (hashPrompt : String → UInt64) (cache : SemanticCacheEngine)

def change : CacheChange → SemanticCacheEngine
  | .keep => cache
  | .hit _ _ now id _ => cache.touch id now
  | .touch now id => cache.touch id now
  | .drop id => { cache with entries := cache.entries.filter (·.1 ≠ id) }
  | .unslot _ promptText => { cache with exactMatch := Function.update cache.exactMatch (hashPrompt promptText) none }
  | .push st now =>
    { cache with entries := cache.entries ++ [(cache.nextId,⟨st.body,st.model,now,now,st.promptText⟩)], nextId := cache.nextId + 1 }
  | .slot promptText id => { cache with exactMatch := Function.update cache.exactMatch (hashPrompt promptText) (some id) }
  | .clearEntries => { cache with entries := [] }
  | .clearSlots => { cache with exactMatch := fun _ => none }

/-- The next step of a call. An id is new when it is drawn; it is drawn with the insertion. -/
def plan : CacheTask → CacheChoice → Option (CacheChange × CacheTask)
  | .reading promptText model now, .go =>
    match cache.exactMatch (hashPrompt promptText) with
    | some id => some (.keep,.validating promptText model now id)
    | none => some (.keep,.searching model now)
  | .validating promptText model now id, .go =>
    match cache.validateEntry cfg id model now with
    | some body => some (.hit promptText model now id body,.finished)
    | none => some (.keep,.searching model now)
  | .searching _ _, .neighbor none => some (.keep,.finished)
  | .searching model now, .neighbor (some id) =>
    match cache.validateEntry cfg id model now with
    | some _ => some (.touch now id,.finished)
    | none => some (.keep,.finished)
  | .counting st, .go => some (.keep,if cfg.maxEntries ≤ cache.entries.length then .evicting st else .embedding st)
  | .evicting st, .go => if cache.entries = [] then some (.keep,.embedding st) else none
  | .evicting st, .victim id =>
    if cache.IsLru id then (cache.entries.lookup id).map fun e => (.drop id,.unslotting st id e.promptText) else none
  | .unslotting st id promptText, .go => some (.unslot id promptText,.embedding st)
  | .embedding _, .embedded none => some (.keep,.finished)
  | .embedding st, .embedded (some now) => some (.keep,.inserting st now)
  | .inserting st now, .go => some (.push st now,.slotting st.promptText cache.nextId)
  | .slotting promptText id, .go => some (.slot promptText id,.finished)
  | .clearing, .go => some (.clearEntries,.clearingSlots)
  | .clearingSlots, .go => some (.clearSlots,.finished)
  | _, _ => none

end SemanticCacheEngine

/-- The entry is young enough to be returned. -/
def Live (cfg : SemanticCacheConfig) (now : ℕ) (e : CachedEntry) : Prop := now - e.storedAtMs ≤ cfg.ttlSecs * 1000

instance (cfg : SemanticCacheConfig) (now : ℕ) (e : CachedEntry) : Decidable (Live cfg now e) := Nat.decLe _ _

theorem Live.mono {cfg : SemanticCacheConfig} {now later : ℕ} {e : CachedEntry} (h : Live cfg later e) (hle : now ≤ later) : Live cfg now e :=
  Nat.le_trans (Nat.sub_le_sub_right hle _) h

theorem Live.younger {cfg : SemanticCacheConfig} {now : ℕ} {e younger : CachedEntry} (h : Live cfg now e)
    (hage : e.storedAtMs ≤ younger.storedAtMs) : Live cfg now younger :=
  Nat.le_trans (Nat.sub_le_sub_left hage now) h

namespace SemanticCacheEngine
variable {cfg : SemanticCacheConfig} {hashPrompt : String → UInt64} {cache : SemanticCacheEngine}

theorem mem_of_validateEntry {id now : ℕ} {model : String} {body : CachedBody} (h : cache.validateEntry cfg id model now = some body) :
    ∃ x ∈ cache.entries, x.1 = id ∧ Live cfg now x.2 ∧ x.2.model = model ∧ x.2.body = body := by
  obtain ⟨e,he,hif⟩ := Option.bind_eq_some_iff.mp h
  obtain ⟨hlive,hmodel,hbody⟩ : Live cfg now e ∧ e.model = model ∧ e.body = body := by
    split at hif
    · cases hif
    · rename_i hage
      split at hif
      · cases hif
      · rename_i hmodel
        exact ⟨Nat.not_lt.mp hage,not_not.mp hmodel,Option.some.inj hif⟩
  obtain ⟨l₁,l₂,hsplit,-⟩ := List.lookup_eq_some_iff.mp he
  exact ⟨(id,e),by simp [hsplit],rfl,hlive,hmodel,hbody⟩

end SemanticCacheEngine

/-- An answer of the exact tier. -/
structure ExactAnswer where
  promptText : String
  model : String
  now : ℕ
  body : CachedBody

/-- A cache and the calls to it. Beside them: the latest time that was read, the entries as they were
stored, those whose store is done, the latest use of each, and the answers of the exact tier. -/
structure CacheRun where
  cache : SemanticCacheEngine
  tasks : List CacheTask
  clock : ℕ
  stored : List (ℕ × CachedEntry)
  settled : List ℕ
  lastUse : ℕ → ℕ
  answers : List ExactAnswer

inductive CacheEvent where
  | lookup (promptText model : String) (now : ℕ)
  | store (st : StoreCall)
  | reset
  | next (i : ℕ) (choice : CacheChoice)

namespace CacheRun
variable (cfg : SemanticCacheConfig) (hashPrompt : String → UInt64) (s : CacheRun)

def start : CacheRun := ⟨.new,[],0,[],[],fun _ => 0,[]⟩

/-- The run after a change of its cache. -/
def after (c : CacheChange) : CacheRun :=
  { s with
    cache := s.cache.change hashPrompt c
    stored :=
      match c with
      | .push st now => s.stored ++ [(s.cache.nextId,⟨st.body,st.model,now,now,st.promptText⟩)]
      | _ => s.stored
    settled :=
      match c with
      | .slot _ id => s.settled ++ [id]
      | _ => s.settled
    lastUse :=
      match c with
      | .hit _ _ now id _ => Function.update s.lastUse id (max (s.lastUse id) now)
      | .touch now id => Function.update s.lastUse id (max (s.lastUse id) now)
      | .push _ now => Function.update s.lastUse s.cache.nextId now
      | _ => s.lastUse
    answers :=
      match c with
      | .hit promptText model now _ body => s.answers ++ [⟨promptText,model,now,body⟩]
      | _ => s.answers }

/-- The time that is read for a choice. -/
def reads : CacheChoice → ℕ
  | .embedded (some now) => now
  | _ => 0

def step : CacheEvent → Option CacheRun
  | .lookup promptText model now =>
    some (if cfg.enabled then { s with tasks := s.tasks ++ [.reading promptText model now], clock := max s.clock now } else s)
  | .store st => some (if cfg.enabled then { s with tasks := s.tasks ++ [.counting st] } else s)
  | .reset => some { s with tasks := s.tasks ++ [.clearing] }
  | .next i choice =>
    (s.tasks[i]?).bind fun task => (s.cache.plan cfg hashPrompt task choice).bind fun p =>
      if p.1.writesSlots ∧ s.tasks.any (·.holdsSlots) then none
      else some { s.after hashPrompt p.1 with tasks := s.tasks.set i p.2, clock := max s.clock (reads choice) }

/-- What an event does to the cache. -/
def changeOf : CacheEvent → Option CacheChange
  | .next i choice => (s.tasks[i]?).bind fun task => (s.cache.plan cfg hashPrompt task choice).map (·.1)
  | _ => none

end CacheRun

/-- Calls to one cache, in all the orders in which they can take its locks. -/
def cacheRuns (cfg : SemanticCacheConfig) (hashPrompt : String → UInt64) : System CacheRun CacheEvent :=
  ⟨CacheRun.start,CacheRun.step cfg hashPrompt⟩

/-- The same entry, but for its last use. -/
def AsStored (e₀ e : CachedEntry) : Prop := e = { e₀ with lastAccessedMs := e.lastAccessedMs }

namespace CacheRun

/-- Where a change does no harm: no other prompt has the hash of one that is answered, and uses are
put down in the order of their times; what is evicted or cleared is not what the slot of another
entry needs; a store finds the room it looked for, and when it takes the slot of its prompt no
younger entry has it, nor one of another prompt. -/
def Allows (cfg : SemanticCacheConfig) (hashPrompt : String → UInt64) (s : CacheRun) : CacheChange → Prop
  | .keep => True
  | .hit promptText _ now id _ => ∀ x ∈ s.cache.entries, x.1 = id →
      x.2.lastAccessedMs ≤ now ∧ (hashPrompt x.2.promptText = hashPrompt promptText → x.2.promptText = promptText)
  | .touch now id => ∀ x ∈ s.cache.entries, x.1 = id → x.2.lastAccessedMs ≤ now
  | .drop id => ∀ x ∈ s.cache.entries, x.1 ≠ id → x.1 ∈ s.settled → Live cfg s.clock x.2 →
      s.cache.exactMatch (hashPrompt x.2.promptText) ≠ some id
  | .unslot _ promptText => ∀ x ∈ s.cache.entries, s.cache.exactMatch (hashPrompt promptText) ≠ some x.1
  | .push _ _ => s.cache.entries.length < cfg.maxEntries
  | .slot promptText id => ∀ x ∈ s.cache.entries, x.1 ∈ s.settled → Live cfg s.clock x.2 →
      hashPrompt x.2.promptText = hashPrompt promptText →
        x.2.promptText = promptText ∧ ∃ y ∈ s.cache.entries, y.1 = id ∧ x.2.storedAtMs ≤ y.2.storedAtMs
  | .clearEntries => True
  | .clearSlots => ∀ x ∈ s.cache.entries, x.1 ∈ s.settled → ¬ Live cfg s.clock x.2

instance (cfg : SemanticCacheConfig) (hashPrompt : String → UInt64) (s : CacheRun) : ∀ c, Decidable (s.Allows cfg hashPrompt c)
  | .keep => isTrue trivial
  | .hit _ _ _ _ _ => inferInstanceAs (Decidable (∀ x ∈ s.cache.entries, _))
  | .touch _ _ => inferInstanceAs (Decidable (∀ x ∈ s.cache.entries, _))
  | .drop _ => inferInstanceAs (Decidable (∀ x ∈ s.cache.entries, _))
  | .unslot _ _ => inferInstanceAs (Decidable (∀ x ∈ s.cache.entries, _))
  | .push _ _ => Nat.decLt _ _
  | .slot _ _ => inferInstanceAs (Decidable (∀ x ∈ s.cache.entries, _))
  | .clearEntries => isTrue trivial
  | .clearSlots => inferInstanceAs (Decidable (∀ x ∈ s.cache.entries, _))

def Harmless (cfg : SemanticCacheConfig) (hashPrompt : String → UInt64) (s : CacheRun) (ev : CacheEvent) : Prop :=
  ∀ c ∈ s.changeOf cfg hashPrompt ev, s.Allows cfg hashPrompt c

instance (cfg : SemanticCacheConfig) (hashPrompt : String → UInt64) (s : CacheRun) (ev : CacheEvent) : Decidable (s.Harmless cfg hashPrompt ev) :=
  inferInstanceAs (Decidable (∀ c ∈ s.changeOf cfg hashPrompt ev, _))

/-- What a call knows when it is given a lock. -/
def TaskFits (hashPrompt : String → UInt64) (stored : List (ℕ × CachedEntry)) : CacheTask → Prop
  | .validating promptText _ _ id => ∃ x ∈ stored, x.1 = id ∧ hashPrompt x.2.promptText = hashPrompt promptText
  | .slotting promptText id => ∃ x ∈ stored, x.1 = id ∧ x.2.promptText = promptText
  | _ => True

/-- What holds of a change when a call makes it. -/
def ChangeFits (cfg : SemanticCacheConfig) (hashPrompt : String → UInt64) (s : CacheRun) : CacheChange → Prop
  | .hit promptText model now id body => (∃ x ∈ s.stored, x.1 = id ∧ hashPrompt x.2.promptText = hashPrompt promptText) ∧
      ∃ x ∈ s.cache.entries, x.1 = id ∧ Live cfg now x.2 ∧ x.2.model = model ∧ x.2.body = body
  | .drop id => s.cache.IsLru id
  | .slot promptText id => ∃ x ∈ s.stored, x.1 = id ∧ x.2.promptText = promptText
  | _ => True

/-- The entry that the slot of a prompt points to is one of its entries that are live at a time,
and none of those is younger. -/
def SlotNewest (cfg : SemanticCacheConfig) (hashPrompt : String → UInt64) (s : CacheRun) (now : ℕ) : Prop :=
  ∀ x ∈ s.cache.entries, x.1 ∈ s.settled → Live cfg now x.2 →
    ∃ y ∈ s.cache.entries, s.cache.exactMatch (hashPrompt x.2.promptText) = some y.1 ∧ y.1 ∈ s.settled ∧
      y.2.promptText = x.2.promptText ∧ Live cfg now y.2 ∧ x.2.storedAtMs ≤ y.2.storedAtMs

instance (cfg : SemanticCacheConfig) (hashPrompt : String → UInt64) (s : CacheRun) (now : ℕ) : Decidable (s.SlotNewest cfg hashPrompt now) :=
  inferInstanceAs (Decidable (∀ x ∈ s.cache.entries, _))

/-- An answer is the body of an entry that was stored for this prompt and model, in its time. -/
def Answered (cfg : SemanticCacheConfig) (s : CacheRun) (a : ExactAnswer) : Prop :=
  ∃ x ∈ s.stored, x.2.promptText = a.promptText ∧ x.2.model = a.model ∧ x.2.body = a.body ∧ Live cfg a.now x.2

/-- What is evicted was used longest ago, no other entry goes with it, and the slots that point to
other entries stay. -/
def EvictsOldest (cfg : SemanticCacheConfig) (hashPrompt : String → UInt64) (s : CacheRun) (ev : CacheEvent) (s' : CacheRun) : Prop :=
  (∀ id, s.changeOf cfg hashPrompt ev = some (.drop id) →
    (∃ x ∈ s.cache.entries, x.1 = id) ∧ ∀ y ∈ s.cache.entries, s.lastUse id ≤ s.lastUse y.1 ∧ (y.1 ≠ id → y ∈ s'.cache.entries)) ∧
  ∀ id promptText, s.changeOf cfg hashPrompt ev = some (.drop id) ∨ s.changeOf cfg hashPrompt ev = some (.unslot id promptText) →
    ∀ y ∈ s'.cache.entries, ∀ hash, s.cache.exactMatch hash = some y.1 → s'.cache.exactMatch hash = some y.1

structure Kept (cfg : SemanticCacheConfig) (hashPrompt : String → UInt64) (s : CacheRun) : Prop where
  stored_lt : ∀ x ∈ s.stored, x.1 < s.cache.nextId
  stored_nodup : (s.stored.map (·.1)).Nodup
  settled_lt : ∀ id ∈ s.settled, id < s.cache.nextId
  entries_nodup : (s.cache.entries.map (·.1)).Nodup
  entry : ∀ x ∈ s.cache.entries, ∃ e₀, (x.1,e₀) ∈ s.stored ∧ AsStored e₀ x.2
  slot : ∀ hash id, s.cache.exactMatch hash = some id → ∃ x ∈ s.stored, x.1 = id ∧ hashPrompt x.2.promptText = hash
  task : ∀ t ∈ s.tasks, TaskFits hashPrompt s.stored t
  use : ∀ x ∈ s.cache.entries, x.2.lastAccessedMs = s.lastUse x.1
  room : s.cache.entries.length ≤ cfg.maxEntries
  newest : SlotNewest cfg hashPrompt s s.clock
  answered : ∀ a ∈ s.answers, Answered cfg s a

end CacheRun

private theorem nodup_ids_concat {xs : List (ℕ × CachedEntry)} {id : ℕ} {e : CachedEntry} (h : (xs.map (·.1)).Nodup)
    (hlt : ∀ x ∈ xs, x.1 < id) : ((xs ++ [(id,e)]).map (·.1)).Nodup := by
  have hfresh : id ∉ xs.map (·.1) := by
    intro hmem
    obtain ⟨x,hx,hid⟩ := List.mem_map.mp hmem
    exact absurd (hlt x hx) (Nat.not_lt.mpr hid.ge)
  rw [List.map_append,List.map_singleton,← List.concat_eq_append]
  exact h.concat hfresh

section Changes
variable {cfg : SemanticCacheConfig} {hashPrompt : String → UInt64} {s : CacheRun}

theorem kept_start : CacheRun.start.Kept cfg hashPrompt where
  stored_lt _ hx := by cases hx
  stored_nodup := List.nodup_nil
  settled_lt _ hid := by cases hid
  entries_nodup := List.nodup_nil
  entry _ hx := by cases hx
  slot _ _ h := by cases h
  task _ ht := by cases ht
  use _ hx := by cases hx
  room := Nat.zero_le _
  newest _ hx := by cases hx
  answered _ ha := by cases ha

namespace CacheRun

theorem Kept.eq_of_stored (h : s.Kept cfg hashPrompt) {x y : ℕ × CachedEntry} (hx : x ∈ s.stored) (hy : y ∈ s.stored)
    (hid : x.1 = y.1) : x = y :=
  List.inj_on_of_nodup_map h.stored_nodup hx hy hid

theorem Kept.entry_lt (h : s.Kept cfg hashPrompt) : ∀ x ∈ s.cache.entries, x.1 < s.cache.nextId := by
  intro x hx
  obtain ⟨e₀,hstored,-⟩ := h.entry x hx
  exact h.stored_lt (x.1,e₀) hstored

/-- An entry has the text that it was stored under. -/
theorem Kept.promptText_eq (h : s.Kept cfg hashPrompt) {x y : ℕ × CachedEntry} (hx : x ∈ s.cache.entries) (hy : y ∈ s.stored)
    (hid : y.1 = x.1) : x.2.promptText = y.2.promptText := by
  obtain ⟨e₀,hstored,hsame⟩ := h.entry x hx
  obtain rfl := h.eq_of_stored hstored hy hid.symm
  rw [hsame]

theorem SlotNewest.later {now later : ℕ} (h : s.SlotNewest cfg hashPrompt now) (hle : now ≤ later) : s.SlotNewest cfg hashPrompt later := by
  intro x hx hsettled hlive
  obtain ⟨y,hy,hslot,hysettled,htext,-,hage⟩ := h x hx hsettled (hlive.mono hle)
  exact ⟨y,hy,hslot,hysettled,htext,hlive.younger hage,hage⟩

theorem TaskFits.mono {stored stored' : List (ℕ × CachedEntry)} (hsub : stored ⊆ stored') {task : CacheTask}
    (h : TaskFits hashPrompt stored task) : TaskFits hashPrompt stored' task := by
  cases task with
  | validating promptText model now id =>
    obtain ⟨x,hx,hrest⟩ := h
    exact ⟨x,hsub hx,hrest⟩
  | slotting promptText id =>
    obtain ⟨x,hx,hrest⟩ := h
    exact ⟨x,hsub hx,hrest⟩
  | _ => trivial

theorem Answered.mono {s' : CacheRun} (hsub : s.stored ⊆ s'.stored) {a : ExactAnswer} (h : s.Answered cfg a) : s'.Answered cfg a := by
  obtain ⟨x,hx,hrest⟩ := h
  exact ⟨x,hsub hx,hrest⟩

theorem Kept.withTasks (h : s.Kept cfg hashPrompt) {tasks : List CacheTask} (htasks : ∀ t ∈ tasks, TaskFits hashPrompt s.stored t) :
    ({ s with tasks := tasks } : CacheRun).Kept cfg hashPrompt :=
  { h with task := htasks }

theorem Kept.later (h : s.Kept cfg hashPrompt) (now : ℕ) : ({ s with clock := max s.clock now } : CacheRun).Kept cfg hashPrompt :=
  { h with newest := h.newest.later (le_max_left s.clock now) }

theorem Kept.answering (h : s.Kept cfg hashPrompt) {a : ExactAnswer} (ha : s.Answered cfg a) :
    ({ s with answers := s.answers ++ [a] } : CacheRun).Kept cfg hashPrompt :=
  { h with
    answered := by
      intro b hb
      rcases List.mem_append.mp hb with hb | hb
      · exact h.answered b hb
      · obtain rfl := List.mem_singleton.mp hb
        exact ha }

/-- Uses put down in the order of their times. -/
theorem Kept.touching (h : s.Kept cfg hashPrompt) {now id : ℕ} (hallow : ∀ x ∈ s.cache.entries, x.1 = id → x.2.lastAccessedMs ≤ now) :
    (s.after hashPrompt (.touch now id)).Kept cfg hashPrompt where
  stored_lt := h.stored_lt
  stored_nodup := h.stored_nodup
  settled_lt := h.settled_lt
  entries_nodup := by
    have hids : (s.cache.touch id now).entries.map (·.1) = s.cache.entries.map (·.1) := by simp [SemanticCacheEngine.touch]
    exact hids ▸ h.entries_nodup
  entry x hx := by
    obtain ⟨w,hw,rfl⟩ := List.mem_map.mp hx
    obtain ⟨e₀,hstored,hsame⟩ := h.entry w hw
    refine ⟨e₀,hstored,?_⟩
    rw [AsStored] at hsame ⊢
    split
    · rw [hsame]
    · exact hsame
  slot := h.slot
  task := h.task
  use x hx := by
    obtain ⟨w,hw,rfl⟩ := List.mem_map.mp hx
    have huse := h.use w hw
    by_cases hid : w.1 = id
    · have hle := hallow w hw hid
      have hmax : max (s.lastUse id) now = now := max_eq_right (by rwa [← hid,← huse])
      simp [after,hid,hmax]
    · simp [after,hid,huse]
  room := by
    have hlen : (s.cache.touch id now).entries.length = s.cache.entries.length := by simp [SemanticCacheEngine.touch]
    exact hlen ▸ h.room
  newest x hx hsettled hlive := by
    obtain ⟨w,hw,rfl⟩ := List.mem_map.mp hx
    obtain ⟨y,hy,hslot,hysettled,htext,hylive,hage⟩ := h.newest w hw hsettled (by split at hlive <;> exact hlive)
    refine ⟨_,List.mem_map_of_mem hy,?_,hysettled,?_,?_,?_⟩
    · split <;> exact hslot
    · split <;> split <;> exact htext
    · split <;> exact hylive
    · split <;> split <;> exact hage
  answered := h.answered

theorem Kept.hitting (h : s.Kept cfg hashPrompt) {promptText model : String} {now id : ℕ} {body : CachedBody}
    (hallow : s.Allows cfg hashPrompt (.hit promptText model now id body)) (hfits : s.ChangeFits cfg hashPrompt (.hit promptText model now id body)) :
    (s.after hashPrompt (.hit promptText model now id body)).Kept cfg hashPrompt := by
  obtain ⟨⟨w,hw,hwid,hhash⟩,x,hx,hxid,hlive,hmodel,hbody⟩ := hfits
  obtain ⟨e₀,hstored,hsame⟩ := h.entry x hx
  have hxw := h.promptText_eq hx hw (hwid.trans hxid.symm)
  have htext : x.2.promptText = promptText := (hallow x hx hxid).2 (by rw [hxw,hhash])
  rw [AsStored] at hsame
  have hanswered : s.Answered cfg ⟨promptText,model,now,body⟩ := by
    rw [hsame] at htext hmodel hbody hlive
    exact ⟨_,hstored,htext,hmodel,hbody,hlive⟩
  exact (h.touching fun y hy hid => (hallow y hy hid).1).answering hanswered

theorem Kept.pushing (h : s.Kept cfg hashPrompt) (st : StoreCall) (now : ℕ) (hallow : s.cache.entries.length < cfg.maxEntries) :
    (s.after hashPrompt (.push st now)).Kept cfg hashPrompt where
  stored_lt x hx := by
    change x.1 < s.cache.nextId + 1
    rcases List.mem_append.mp hx with hx | hx
    · exact Nat.lt_succ_of_lt (h.stored_lt x hx)
    · obtain rfl := List.mem_singleton.mp hx
      exact Nat.lt_succ_self _
  stored_nodup := nodup_ids_concat h.stored_nodup h.stored_lt
  settled_lt id hid := Nat.lt_succ_of_lt (h.settled_lt id hid)
  entries_nodup := nodup_ids_concat h.entries_nodup h.entry_lt
  entry x hx := by
    rcases List.mem_append.mp hx with hx | hx
    · obtain ⟨e₀,hstored,hsame⟩ := h.entry x hx
      exact ⟨e₀,List.mem_append_left _ hstored,hsame⟩
    · obtain rfl := List.mem_singleton.mp hx
      exact ⟨_,List.mem_append_right _ (List.mem_singleton_self _),rfl⟩
  slot hash id hslot := by
    obtain ⟨x,hx,hrest⟩ := h.slot hash id hslot
    exact ⟨x,List.mem_append_left _ hx,hrest⟩
  task t ht := (h.task t ht).mono (List.subset_append_left _ _)
  use x hx := by
    change _ = Function.update s.lastUse s.cache.nextId now x.1
    rcases List.mem_append.mp hx with hx | hx
    · rw [Function.update_of_ne (h.entry_lt x hx).ne]
      exact h.use x hx
    · obtain rfl := List.mem_singleton.mp hx
      rw [Function.update_self]
  room := by
    rw [after,SemanticCacheEngine.change,List.length_append]
    exact hallow
  newest x hx hsettled hlive := by
    rcases List.mem_append.mp hx with hx | hx
    · obtain ⟨y,hy,hrest⟩ := h.newest x hx hsettled hlive
      exact ⟨y,List.mem_append_left _ hy,hrest⟩
    · obtain rfl := List.mem_singleton.mp hx
      exact absurd (h.settled_lt _ hsettled) (Nat.lt_irrefl _)
  answered a ha := (h.answered a ha).mono (List.subset_append_left _ _)

theorem Kept.slotting (h : s.Kept cfg hashPrompt) {promptText : String} {id : ℕ} (hallow : s.Allows cfg hashPrompt (.slot promptText id))
    (hfits : s.ChangeFits cfg hashPrompt (.slot promptText id)) : (s.after hashPrompt (.slot promptText id)).Kept cfg hashPrompt :=
  { h with
    settled_lt := by
      obtain ⟨w,hw,rfl,-⟩ := hfits
      intro k hk
      rcases List.mem_append.mp hk with hk | hk
      · exact h.settled_lt k hk
      · obtain rfl := List.mem_singleton.mp hk
        exact h.stored_lt w hw
    slot := by
      obtain ⟨w,hw,hwid,htext⟩ := hfits
      intro hash k hslot
      change Function.update _ _ _ hash = _ at hslot
      by_cases hhash : hash = hashPrompt promptText
      · rw [hhash,Function.update_self] at hslot
        exact ⟨w,hw,hwid.trans (Option.some.inj hslot),by rw [htext,hhash]⟩
      · rw [Function.update_of_ne hhash] at hslot
        exact h.slot hash k hslot
    newest := by
      obtain ⟨w,hw,hwid,htext⟩ := hfits
      have hentry : ∀ y ∈ s.cache.entries, y.1 = id → y.2.promptText = promptText := fun y hy hid =>
        (h.promptText_eq hy hw (hwid.trans hid.symm)).trans htext
      intro x hx hsettled hlive
      change ∃ y ∈ s.cache.entries, Function.update s.cache.exactMatch _ _ _ = _ ∧ y.1 ∈ s.settled ++ [id] ∧ _
      by_cases hhash : hashPrompt x.2.promptText = hashPrompt promptText
      · rw [hhash,Function.update_self]
        -- an entry whose store is done has the text and is no younger; the entry itself is the one that the slot gets
        obtain ⟨hxtext,y,hy,hyid,hage⟩ :
          x.2.promptText = promptText ∧ ∃ y ∈ s.cache.entries, y.1 = id ∧ x.2.storedAtMs ≤ y.2.storedAtMs := by
          rcases List.mem_append.mp hsettled with hold | hnew
          · exact hallow x hx hold hlive hhash
          · have hid := List.mem_singleton.mp hnew
            exact ⟨hentry x hx hid,x,hx,hid,le_refl _⟩
        refine ⟨y,hy,congrArg some hyid.symm,?_,(hentry y hy hyid).trans hxtext.symm,Live.younger hlive hage,hage⟩
        exact List.mem_append_right _ (List.mem_singleton.mpr hyid)
      · rw [Function.update_of_ne hhash]
        have hold : x.1 ∈ s.settled := by
          rcases List.mem_append.mp hsettled with hold | hnew
          · exact hold
          · exact absurd (congrArg hashPrompt (hentry x hx (List.mem_singleton.mp hnew))) hhash
        obtain ⟨y,hy,hslot,hysettled,hrest⟩ := h.newest x hx hold hlive
        exact ⟨y,hy,hslot,List.mem_append_left _ hysettled,hrest⟩ }

theorem Kept.dropping (h : s.Kept cfg hashPrompt) {id : ℕ} (hallow : s.Allows cfg hashPrompt (.drop id)) :
    (s.after hashPrompt (.drop id)).Kept cfg hashPrompt :=
  { h with
    entries_nodup := h.entries_nodup.sublist ((List.filter_sublist).map _)
    entry := fun x hx => h.entry x (List.mem_of_mem_filter hx)
    use := fun x hx => h.use x (List.mem_of_mem_filter hx)
    room := Nat.le_trans (List.length_filter_le _ _) h.room
    newest := by
      intro x hx hsettled hlive
      obtain ⟨hkept,hne⟩ := List.mem_filter.mp hx
      obtain ⟨y,hy,hslot,hrest⟩ := h.newest x hkept hsettled hlive
      have hyne : y.1 ≠ id := by
        rintro rfl
        exact hallow x hkept (of_decide_eq_true hne) hsettled hlive hslot
      exact ⟨y,List.mem_filter.mpr ⟨hy,decide_eq_true hyne⟩,hslot,hrest⟩ }

theorem Kept.unslotting (h : s.Kept cfg hashPrompt) {id : ℕ} {promptText : String} (hallow : s.Allows cfg hashPrompt (.unslot id promptText)) :
    (s.after hashPrompt (.unslot id promptText)).Kept cfg hashPrompt :=
  { h with
    slot := by
      intro hash k hslot
      change Function.update _ _ _ hash = _ at hslot
      by_cases hhash : hash = hashPrompt promptText
      · rw [hhash,Function.update_self] at hslot
        cases hslot
      · rw [Function.update_of_ne hhash] at hslot
        exact h.slot hash k hslot
    newest := by
      intro x hx hsettled hlive
      obtain ⟨y,hy,hslot,hrest⟩ := h.newest x hx hsettled hlive
      have hhash : hashPrompt x.2.promptText ≠ hashPrompt promptText := fun heq => hallow y hy (heq ▸ hslot)
      exact ⟨y,hy,(Function.update_of_ne hhash _ _).trans hslot,hrest⟩ }

theorem Kept.clearing (h : s.Kept cfg hashPrompt) : (s.after hashPrompt .clearEntries).Kept cfg hashPrompt :=
  { h with
    entries_nodup := List.nodup_nil
    entry := fun _ hx => by cases hx
    use := fun _ hx => by cases hx
    room := Nat.zero_le _
    newest := fun _ hx => by cases hx }

theorem Kept.clearingSlots (h : s.Kept cfg hashPrompt) (hallow : s.Allows cfg hashPrompt .clearSlots) :
    (s.after hashPrompt .clearSlots).Kept cfg hashPrompt :=
  { h with
    slot := fun _ _ hslot => by cases hslot
    newest := fun x hx hsettled hlive => absurd hlive (hallow x hx hsettled) }

/-- A change that is allowed keeps what holds. -/
theorem Kept.after (h : s.Kept cfg hashPrompt) {c : CacheChange} (hallow : s.Allows cfg hashPrompt c) (hfits : s.ChangeFits cfg hashPrompt c) :
    (s.after hashPrompt c).Kept cfg hashPrompt := by
  cases c with
  | keep => exact h
  | hit => exact h.hitting hallow hfits
  | touch => exact h.touching hallow
  | drop => exact h.dropping hallow
  | unslot => exact h.unslotting hallow
  | push => exact h.pushing _ _ hallow
  | slot => exact h.slotting hallow hfits
  | clearEntries => exact h.clearing
  | clearSlots => exact h.clearingSlots hallow

/-- A call does what fits, and goes on with what fits. -/
theorem Kept.plan_fits (h : s.Kept cfg hashPrompt) {task : CacheTask} (htask : TaskFits hashPrompt s.stored task) {choice : CacheChoice}
    {c : CacheChange} {task' : CacheTask} (hplan : s.cache.plan cfg hashPrompt task choice = some (c,task')) :
    s.ChangeFits cfg hashPrompt c ∧ TaskFits hashPrompt (s.after hashPrompt c).stored task' := by
  revert hplan
  fun_cases SemanticCacheEngine.plan cfg hashPrompt s.cache task choice <;> intro hplan
  -- the slot of the prompt has an id
  case case1 promptText model now id hslot =>
    obtain ⟨rfl,rfl⟩ := Prod.mk.inj (Option.some.inj hplan)
    exact ⟨trivial,h.slot _ id hslot⟩
  -- its entry answers
  case case3 promptText model now id body hvalid =>
    obtain ⟨rfl,rfl⟩ := Prod.mk.inj (Option.some.inj hplan)
    exact ⟨⟨htask,SemanticCacheEngine.mem_of_validateEntry hvalid⟩,trivial⟩
  case case8 st =>
    obtain ⟨rfl,rfl⟩ := Prod.mk.inj (Option.some.inj hplan)
    exact ⟨trivial,by split <;> trivial⟩
  -- an entry is evicted
  case case11 st id hlru =>
    obtain ⟨e,-,he⟩ := Option.map_eq_some_iff.mp hplan
    obtain ⟨rfl,rfl⟩ := Prod.mk.inj he
    exact ⟨hlru,trivial⟩
  -- an entry is inserted
  case case16 st now =>
    obtain ⟨rfl,rfl⟩ := Prod.mk.inj (Option.some.inj hplan)
    exact ⟨trivial,_,List.mem_append_right _ (List.mem_singleton_self _),rfl,rfl⟩
  case case17 promptText id =>
    obtain ⟨rfl,rfl⟩ := Prod.mk.inj (Option.some.inj hplan)
    exact ⟨htask,trivial⟩
  all_goals cases hplan
  all_goals exact ⟨trivial,trivial⟩

theorem exists_plan_of_step {i : ℕ} {choice : CacheChoice} {s' : CacheRun} (h : s.step cfg hashPrompt (.next i choice) = some s') :
    ∃ task c task', s.tasks[i]? = some task ∧ s.cache.plan cfg hashPrompt task choice = some (c,task') ∧
      s' = { s.after hashPrompt c with tasks := s.tasks.set i task', clock := max s.clock (reads choice) } := by
  obtain ⟨task,htask,h⟩ := Option.bind_eq_some_iff.mp h
  obtain ⟨⟨c,task'⟩,hplan,h⟩ := Option.bind_eq_some_iff.mp h
  dsimp only at h
  split at h
  · cases h
  · exact ⟨task,c,task',htask,hplan,(Option.some.inj h).symm⟩

theorem changeOf_next {i : ℕ} {choice : CacheChoice} {task task' : CacheTask} {c : CacheChange} (htask : s.tasks[i]? = some task)
    (hplan : s.cache.plan cfg hashPrompt task choice = some (c,task')) : s.changeOf cfg hashPrompt (.next i choice) = some c := by
  rw [changeOf,htask,Option.bind_some,hplan]
  rfl

theorem Kept.calling (h : s.Kept cfg hashPrompt) (task : CacheTask) (htask : TaskFits hashPrompt s.stored task) :
    ({ s with tasks := s.tasks ++ [task] } : CacheRun).Kept cfg hashPrompt := by
  refine h.withTasks fun t ht => ?_
  rcases List.mem_append.mp ht with ht | ht
  · exact h.task t ht
  · obtain rfl := List.mem_singleton.mp ht
    exact htask

theorem Kept.step {ev : CacheEvent} {s' : CacheRun} (h : s.Kept cfg hashPrompt) (hallow : s.Harmless cfg hashPrompt ev)
    (hstep : s.step cfg hashPrompt ev = some s') :
    s'.Kept cfg hashPrompt := by
  cases ev with
  | lookup promptText model now =>
    obtain rfl := Option.some.inj hstep
    split
    · exact (h.calling (.reading promptText model now) trivial).later now
    · exact h
  | store st =>
    obtain rfl := Option.some.inj hstep
    split
    · exact h.calling (.counting st) trivial
    · exact h
  | reset =>
    obtain rfl := Option.some.inj hstep
    exact h.calling .clearing trivial
  | next i choice =>
    obtain ⟨task,c,task',htask,hplan,rfl⟩ := exists_plan_of_step hstep
    obtain ⟨hchange,hnext⟩ := h.plan_fits (h.task task (List.mem_of_getElem? htask)) hplan
    have hafter := h.after (hallow c (changeOf_next htask hplan)) hchange
    refine (hafter.later (reads choice)).withTasks fun t ht => ?_
    rcases List.mem_or_eq_of_mem_set ht with ht | rfl
    · exact hafter.task t ht
    · exact hnext

theorem Kept.evicts_oldest {ev : CacheEvent} {s' : CacheRun} (h : s.Kept cfg hashPrompt) (hallow : s.Harmless cfg hashPrompt ev)
    (hstep : s.step cfg hashPrompt ev = some s') : s.EvictsOldest cfg hashPrompt ev s' := by
  cases ev with
  | lookup | store | reset =>
    constructor
    · intro _ hdrop
      cases hdrop
    · rintro _ _ (hdrop | hunslot)
      · cases hdrop
      · cases hunslot
  | next i choice =>
    obtain ⟨task,c,task',htask,hplan,rfl⟩ := exists_plan_of_step hstep
    obtain ⟨hchange,-⟩ := h.plan_fits (h.task task (List.mem_of_getElem? htask)) hplan
    rw [EvictsOldest,changeOf_next htask hplan]
    constructor
    · intro id hdrop
      obtain rfl := Option.some.inj hdrop
      obtain ⟨x,hx,rfl,holdest⟩ := hchange
      refine ⟨⟨x,hx,rfl⟩,fun y hy => ⟨?_,fun hne => List.mem_filter.mpr ⟨hy,decide_eq_true hne⟩⟩⟩
      rw [← h.use x hx,← h.use y hy]
      exact holdest y hy
    · intro id promptText hevict y hy hash hslot
      rcases hevict with hdrop | hunslot
      · obtain rfl := Option.some.inj hdrop
        exact hslot
      · obtain rfl := Option.some.inj hunslot
        have hhash : hash ≠ hashPrompt promptText := by
          rintro rfl
          exact hallow _ (changeOf_next htask hplan) y hy hslot
        exact (Function.update_of_ne hhash _ _).trans hslot

/-- Where no step does harm, the exact tier answers with what was stored for the same text and
model in its time, the slot of a prompt points to its youngest live entry, there are never more
entries than are allowed, and an eviction removes the oldest and no slot of another entry. -/
theorem exact_tier_sound {events : List CacheEvent} (hharmless : (cacheRuns cfg hashPrompt).Along (Harmless cfg hashPrompt) events)
    {s : CacheRun} (hrun : (cacheRuns cfg hashPrompt).run events = some s) :
    (∀ a ∈ s.answers, s.Answered cfg a) ∧ (∀ now, s.clock ≤ now → s.SlotNewest cfg hashPrompt now) ∧ s.cache.entries.length ≤ cfg.maxEntries ∧
      (cacheRuns cfg hashPrompt).Along (fun r ev => ∀ r', r.step cfg hashPrompt ev = some r' → r.EvictsOldest cfg hashPrompt ev r') events := by
  have hstep : ∀ s ev s', s.Kept cfg hashPrompt → s.Harmless cfg hashPrompt ev → (cacheRuns cfg hashPrompt).step s ev = some s' →
    s'.Kept cfg hashPrompt := fun _ _ _ hkept hallow hs => hkept.step hallow hs
  have hkept := System.guarded_inv (fun s => s.Kept cfg hashPrompt) kept_start hstep hharmless hrun
  refine ⟨hkept.answered,fun now hnow => hkept.newest.later hnow,hkept.room,?_⟩
  rintro pre ev post r rfl hpre r' hr'
  have hbefore := System.guarded_inv (fun s => s.Kept cfg hashPrompt) kept_start hstep hharmless.init hpre
  exact hbefore.evicts_oldest (hharmless pre ev post r rfl hpre) hr'

end CacheRun

end Changes

section Examples

private def hashByLength (text : String) : UInt64 := UInt64.ofNat text.length

/-- The steps of a store that finds room, as the `i`-th call. -/
private def storing (i : ℕ) (promptText : String) (now : ℕ) : List CacheEvent :=
  [.store ⟨promptText,.frames [promptText],"m"⟩,.next i .go,.next i (.embedded (some now)),.next i .go,.next i .go]

/-- The steps of a store that evicts an entry first. -/
private def evictingFor (i victim : ℕ) (promptText : String) (now : ℕ) : List CacheEvent :=
  [.store ⟨promptText,.frames [promptText],"m"⟩,.next i .go,.next i (.victim victim),.next i .go,.next i (.embedded (some now)),.next i .go,
    .next i .go]

private def answering (i : ℕ) (promptText : String) (now : ℕ) : List CacheEvent := [.lookup promptText "m" now,.next i .go,.next i .go]

private def oneAfterAnother : List CacheEvent :=
  storing 0 "p" 1000 ++ answering 1 "p" 2000 ++ evictingFor 2 0 "qq" 3000 ++ answering 3 "qq" 4000

/-- Each of two prompts is answered; the second takes the room of the first. -/
theorem exact_tier_sound_twice : ∃ s, (cacheRuns ⟨true,60,1⟩ hashByLength).run oneAfterAnother = some s ∧ s.answers.length = 2 ∧
    ∀ a ∈ s.answers, s.Answered ⟨true,60,1⟩ a := by
  have hsome : ((cacheRuns ⟨true,60,1⟩ hashByLength).run oneAfterAnother).map (·.answers.length) = some 2 := by decide +kernel
  have hharmless : (cacheRuns ⟨true,60,1⟩ hashByLength).Along (CacheRun.Harmless ⟨true,60,1⟩ hashByLength) oneAfterAnother :=
    System.along_of_alongFrom (by decide +kernel)
  obtain ⟨s,hrun,hlength⟩ := Option.map_eq_some_iff.mp hsome
  exact ⟨s,hrun,hlength,(CacheRun.exact_tier_sound hharmless hrun).1⟩

/-- A prompt is stored twice, and its older entry evicted: the slot that pointed to the younger is gone. -/
theorem twin_loses_slot : ¬ ∀ (cfg : SemanticCacheConfig) (hashPrompt : String → UInt64) (events : List CacheEvent) (s : CacheRun),
    (cacheRuns cfg hashPrompt).run events = some s →
    (∀ a ∈ s.answers, s.Answered cfg a) ∧ (∀ now, s.clock ≤ now → s.SlotNewest cfg hashPrompt now) ∧ s.cache.entries.length ≤ cfg.maxEntries ∧
      (cacheRuns cfg hashPrompt).Along (fun r ev => ∀ r', r.step cfg hashPrompt ev = some r' → r.EvictsOldest cfg hashPrompt ev r') events := by
  intro h
  have hlost : ((cacheRuns ⟨true,60,2⟩ hashByLength).run (storing 0 "p" 1000 ++ storing 1 "p" 2000 ++ evictingFor 2 0 "qq" 3000)).map
    (fun s => decide (s.SlotNewest ⟨true,60,2⟩ hashByLength s.clock)) = some false := by decide +kernel
  obtain ⟨s,hrun,hslot⟩ := Option.map_eq_some_iff.mp hlost
  exact absurd ((h _ _ _ s hrun).2.1 s.clock (le_refl _)) (of_decide_eq_false hslot)

end Examples

end Dwara.Ai
