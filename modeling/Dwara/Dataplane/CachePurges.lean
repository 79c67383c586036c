import Dwara.Dataplane.ResponseCache
import Dwara.Lib.Keyed

/-! The purges of the response cache by tag and by URL, and the indexes they go by. -/

namespace Dwara.Dataplane.CachePurges
open Dwara.Lib

/-- The path and the query of a request; a path is not empty. -/
abbrev RequestUrl := { url : String // url ≠ "" }

/-- What the purges have to do with a stored response: the tags and the URL it was stored with, and
when it was first stored. -/
structure Entry where
  storedAtMs : ℕ
  tags : Finset String
  url : RequestUrl
  born : ℕ

/-- A fetch under way, with the entry the lookup found. -/
structure MissFlow where
  key : String
  url : RequestUrl
  stored : Option Entry

/-- The whole URL, or the start of one up to a boundary. -/
def urlPrefixMatch (url start : String) : Bool :=
  url = start || (Text.afterStart start url).any fun after =>
    start.toList.getLast? = some '/' || Text.startsWith "/" after || Text.startsWith "?" after

inductive Target where
  | tag (tag : String)
  | url (url : String) (startOnly : Bool)

namespace Target

/-- The names of its index a purge takes. -/
def takes : Target → String → Bool
  | tag t, name => name == t
  | url u false, name => name == u
  | url u true, name => urlPrefixMatch name u

/-- The entry carries the tag, or has the URL. -/
def covers : Target → Entry → Prop
  | tag t, entry => t ∈ entry.tags
  | url u startOnly, entry => (url u startOnly).takes entry.url = true

/-- What the entry has in the index that is cleaned up behind the purge. -/
def otherNames : Target → Entry → Finset String
  | tag _, entry => {entry.url.val}
  | url _ _, entry => entry.tags

end Target

/-- A purge: the keys it has taken from its index, and those it has still to delete. -/
structure Purge where
  target : Target
  keys : Finset String
  pending : Finset String
  start : ℕ
  returned : Bool := false

structure Cache where
  clock : ℕ := 0
  store : String → Option Entry := fun _ => none
  tagIndex : PairIndex String String := ∅
  urlIndex : PairIndex String String := ∅
  flows : List (Option MissFlow) := []
  purges : List Purge := []

inductive CacheEvent where
  | lookup (key : String) (url : RequestUrl)
  | stored (i : ℕ) (tags : List String) (now : ℕ)
  | notModified (i : ℕ) (now : ℕ)
  | dropped (key : String)
  | purge (target : Target)
  | delete (j : ℕ) (key : String)
  | finish (j : ℕ)

namespace Cache

/-- The keys a purge takes. -/
def taken (s : Cache) (target : Target) : Finset String :=
  match target with
  | .tag _ => s.tagIndex.keysUnder target.takes
  | .url _ _ => s.urlIndex.keysUnder target.takes

/-- A new entry is written and both indexes list its key under what it has. -/
def recordStored (s : Cache) (flow : MissFlow) (tags : List String) (now : ℕ) : Cache :=
  { s with
    clock := s.clock + 1
    store := Function.update s.store flow.key (some ⟨now,tags.toFinset,flow.url,s.clock⟩)
    tagIndex := s.tagIndex.record flow.key tags.toFinset
    urlIndex := s.urlIndex.record flow.key {flow.url.val} }

/-- The index of the purge lets go of the keys before they are deleted. -/
def beginPurge (s : Cache) (target : Target) : Cache :=
  let purge : Purge := { target, keys := s.taken target, pending := s.taken target, start := s.clock }
  match target with
  | .tag _ => { s with clock := s.clock + 1, tagIndex := s.tagIndex.dropNames target.takes, purges := s.purges ++ [purge] }
  | .url _ _ => { s with clock := s.clock + 1, urlIndex := s.urlIndex.dropNames target.takes, purges := s.purges ++ [purge] }

/-- The other index lets go of the keys, and the purge returns. -/
def endPurge (s : Cache) (j : ℕ) (purge : Purge) : Cache :=
  let purges := s.purges.set j { purge with returned := true }
  match purge.target with
  | .tag _ => { s with urlIndex := s.urlIndex.dropKeys purge.keys, purges }
  | .url _ _ => { s with tagIndex := s.tagIndex.dropKeys purge.keys, purges }

/-- One step of a request or of a purge. A write the epoch check drops is none. -/
def step (s : Cache) : CacheEvent → Option Cache
  | .lookup key url => some { s with flows := s.flows ++ [some ⟨key,url,s.store key⟩] }
  | .stored i tags now =>
    match s.flows[i]? with
    | some (some flow) => some ({ s with flows := s.flows.set i none }.recordStored flow tags now)
    | _ => none
  | .notModified i now =>
    match s.flows[i]? with
    | some (some flow) => flow.stored.map fun entry =>
        { s with flows := s.flows.set i none, store := Function.update s.store flow.key (some { entry with storedAtMs := now }) }
    | _ => none
  | .dropped key => some { s with store := Function.update s.store key none }
  | .purge target => some (s.beginPurge target)
  | .delete j key =>
    match s.purges[j]? with
    | some purge =>
      if key ∈ purge.pending then
        some { s with
          store := Function.update s.store key none
          purges := s.purges.set j { purge with pending := purge.pending.erase key } }
      else none
    | none => none
  | .finish j =>
    match s.purges[j]? with
    | some purge => if purge.pending = ∅ ∧ purge.returned = false then some (s.endPurge j purge) else none
    | none => none

/-- A purge under way will delete what is under the key. -/
def Doomed (s : Cache) (key : String) : Prop := ∃ purge ∈ s.purges, key ∈ purge.pending

/-- The indexes list the key under the tags and the URL of the entry, and under no other. -/
def Listed (s : Cache) (key : String) (entry : Entry) : Prop :=
  s.tagIndex.Lists key entry.tags ∧ s.urlIndex.Lists key {entry.url.val}

/-- The indexes cover the store, and what was there before a purge is gone when it has returned. -/
structure Covered (s : Cache) : Prop where
  listed : ∀ key entry, s.store key = some entry → ¬ s.Doomed key → s.Listed key entry
  gone : ∀ purge ∈ s.purges, purge.returned = true → ∀ key entry, s.store key = some entry → purge.target.covers entry →
    purge.start ≤ entry.born

/-- Every purge that covers the entry and began after it was first stored will still delete what
is under the key. -/
def Due (s : Cache) (key : String) (entry : Entry) : Prop :=
  ∀ purge ∈ s.purges, purge.target.covers entry → entry.born < purge.start → key ∈ purge.pending

/-- What keeps a step from missing an entry: a 304 renews an entry the indexes still list and no
purge has passed; a purge finds every entry it covers; and behind it no key has a new entry. -/
def Careful (s : Cache) : CacheEvent → Prop
  | .notModified i _ => ∀ flow entry, s.flows[i]? = some (some flow) → flow.stored = some entry →
      (¬ s.Doomed flow.key → s.Listed flow.key entry) ∧ s.Due flow.key entry
  | .purge target => ∀ key entry, s.store key = some entry → target.covers entry → key ∈ s.taken target
  | .finish j => ∀ purge, s.purges[j]? = some purge → ∀ key ∈ purge.keys, ∀ entry, s.store key = some entry →
      s.Doomed key ∨ purge.target.otherNames entry = ∅
  | _ => True

end Cache

def system : System Cache CacheEvent where
  init := {}
  step := Cache.step

namespace Cache
variable {s s' : Cache} {event : CacheEvent}

/-- What holds between the steps of careful runs. -/
structure Inv (s : Cache) : Prop where
  listed : ∀ key entry, s.store key = some entry → ¬ s.Doomed key → s.Listed key entry
  due : ∀ key entry, s.store key = some entry → s.Due key entry
  returned : ∀ purge ∈ s.purges, purge.returned = true → purge.pending = ∅
  started : ∀ purge ∈ s.purges, purge.start < s.clock
  born : ∀ key entry, s.store key = some entry → entry.born < s.clock
  found : ∀ flow entry, some flow ∈ s.flows → flow.stored = some entry → entry.born < s.clock

theorem inv_init : Inv {} where
  listed _ _ h := nomatch h
  due _ _ h := nomatch h
  returned _ h := absurd h List.not_mem_nil
  started _ h := absurd h List.not_mem_nil
  born _ _ h := nomatch h
  found _ _ h := absurd h List.not_mem_nil

theorem Inv.covered (h : Inv s) : s.Covered where
  listed := h.listed
  gone purge hpurge hreturned key entry hentry hcovers := by
    by_contra hborn
    have hdue := h.due key entry hentry purge hpurge hcovers (by omega)
    rw [h.returned purge hpurge hreturned] at hdue
    exact absurd hdue (Finset.notMem_empty key)

/-- Entries may go at any time. -/
theorem Inv.dropped (h : Inv s) (key : String) : Inv { s with store := Function.update s.store key none } := by
  have hkept : ∀ key' entry, Function.update s.store key none key' = some entry → s.store key' = some entry := by
    intro key' entry hentry
    by_cases hk : key' = key
    · subst hk
      rw [Function.update_self] at hentry
      exact nomatch hentry
    · rwa [Function.update_of_ne hk] at hentry
  exact ⟨fun key' entry hentry hdoomed => h.listed key' entry (hkept key' entry hentry) hdoomed,
    fun key' entry hentry => h.due key' entry (hkept key' entry hentry),h.returned,h.started,
    fun key' entry hentry => h.born key' entry (hkept key' entry hentry),h.found⟩

theorem Inv.withFlows (h : Inv s) {flows : List (Option MissFlow)}
    (hfound : ∀ flow entry, some flow ∈ flows → flow.stored = some entry → entry.born < s.clock) : Inv { s with flows } :=
  ⟨h.listed,h.due,h.returned,h.started,h.born,hfound⟩

theorem Inv.endFlow (h : Inv s) (i : ℕ) : Inv { s with flows := s.flows.set i none } := by
  refine h.withFlows fun flow entry hflow hstored => ?_
  obtain hflow | hnone := List.mem_or_eq_of_mem_set hflow
  · exact h.found flow entry hflow hstored
  · exact nomatch hnone

/-- What is newly stored is listed, and no purge has begun since. -/
theorem Inv.recordStored (h : Inv s) (flow : MissFlow) (tags : List String) (now : ℕ) : Inv (s.recordStored flow tags now) where
  listed key entry hentry hdoomed := by
    change Function.update s.store flow.key _ key = some entry at hentry
    by_cases hk : key = flow.key
    · subst hk
      rw [Function.update_self] at hentry
      obtain rfl := Option.some.inj hentry
      exact ⟨PairIndex.lists_record_self,PairIndex.lists_record_self⟩
    · rw [Function.update_of_ne hk] at hentry
      obtain ⟨htags,hurl⟩ := h.listed key entry hentry hdoomed
      exact ⟨(PairIndex.lists_record_of_ne hk).mpr htags,(PairIndex.lists_record_of_ne hk).mpr hurl⟩
  due key entry hentry purge hpurge hcovers hborn := by
    change Function.update s.store flow.key _ key = some entry at hentry
    by_cases hk : key = flow.key
    · subst hk
      rw [Function.update_self] at hentry
      obtain rfl := Option.some.inj hentry
      have hstart := h.started purge hpurge
      change s.clock < purge.start at hborn
      omega
    · rw [Function.update_of_ne hk] at hentry
      exact h.due key entry hentry purge hpurge hcovers hborn
  returned := h.returned
  started purge hpurge := Nat.lt_succ_of_lt (h.started purge hpurge)
  born key entry hentry := by
    change Function.update s.store flow.key _ key = some entry at hentry
    by_cases hk : key = flow.key
    · subst hk
      rw [Function.update_self] at hentry
      obtain rfl := Option.some.inj hentry
      exact Nat.lt_succ_self s.clock
    · rw [Function.update_of_ne hk] at hentry
      exact Nat.lt_succ_of_lt (h.born key entry hentry)
  found flow' entry hflow hstored := Nat.lt_succ_of_lt (h.found flow' entry hflow hstored)

/-- A renewed entry stands as the one it renews did. -/
theorem Inv.renewed (h : Inv s) {key : String} {entry : Entry} {now : ℕ} (hlisted : ¬ s.Doomed key → s.Listed key entry)
    (hdue : s.Due key entry) (hborn : entry.born < s.clock) :
    Inv { s with store := Function.update s.store key (some { entry with storedAtMs := now }) } where
  listed key' entry' hentry hdoomed := by
    dsimp only at hentry
    by_cases hk : key' = key
    · subst hk
      rw [Function.update_self] at hentry
      obtain rfl := Option.some.inj hentry
      exact hlisted hdoomed
    · rw [Function.update_of_ne hk] at hentry
      exact h.listed key' entry' hentry hdoomed
  due key' entry' hentry purge hpurge hcovers hlt := by
    dsimp only at hentry
    by_cases hk : key' = key
    · subst hk
      rw [Function.update_self] at hentry
      obtain rfl := Option.some.inj hentry
      refine hdue purge hpurge ?_ hlt
      cases htarget : purge.target with
      | tag t =>
        rw [htarget] at hcovers
        exact hcovers
      | url u startOnly =>
        rw [htarget] at hcovers
        exact hcovers
    · rw [Function.update_of_ne hk] at hentry
      exact h.due key' entry' hentry purge hpurge hcovers hlt
  returned := h.returned
  started := h.started
  born key' entry' hentry := by
    dsimp only at hentry
    by_cases hk : key' = key
    · subst hk
      rw [Function.update_self] at hentry
      obtain rfl := Option.some.inj hentry
      exact hborn
    · rw [Function.update_of_ne hk] at hentry
      exact h.born key' entry' hentry
  found := h.found

/-- A purge that finds what it covers leaves what it does not take listed. -/
theorem Inv.beginPurge (h : Inv s) {target : Target}
    (hfinds : ∀ key entry, s.store key = some entry → target.covers entry → key ∈ s.taken target) : Inv (s.beginPurge target) := by
  have hpurges : (s.beginPurge target).purges = s.purges ++ [{ target, keys := s.taken target, pending := s.taken target, start := s.clock }] := by
    cases target <;> rfl
  have hclock : (s.beginPurge target).clock = s.clock + 1 := by cases target <;> rfl
  have hstore : (s.beginPurge target).store = s.store := by cases target <;> rfl
  have hflows : (s.beginPurge target).flows = s.flows := by cases target <;> rfl
  refine ⟨fun key entry hentry hdoomed => ?_,fun key entry hentry purge hpurge hcovers hborn => ?_,fun purge hpurge hreturned => ?_,
    fun purge hpurge => ?_,fun key entry hentry => ?_,fun flow entry hflow hstored => ?_⟩
  · rw [hstore] at hentry
    have hnot : key ∉ s.taken target := by
      intro htaken
      refine hdoomed ⟨{ target, keys := s.taken target, pending := s.taken target, start := s.clock },?_,htaken⟩
      rw [hpurges]
      exact List.mem_append_right _ (List.mem_singleton_self _)
    have hquiet : ¬ s.Doomed key := fun ⟨purge,hpurge,hkey⟩ => hdoomed ⟨purge,by rw [hpurges]; exact List.mem_append_left _ hpurge,hkey⟩
    obtain ⟨htags,hurl⟩ := h.listed key entry hentry hquiet
    cases target with
    | tag t =>
      refine ⟨htags.dropNames fun name hname => ?_,hurl⟩
      cases htakes : (Target.tag t).takes name with
      | false => rfl
      | true => exact absurd (htags.mem_keysUnder hname htakes) hnot
    | url u startOnly =>
      refine ⟨htags,hurl.dropNames fun name hname => ?_⟩
      cases htakes : (Target.url u startOnly).takes name with
      | false => rfl
      | true => exact absurd (hurl.mem_keysUnder hname htakes) hnot
  · rw [hstore] at hentry
    rw [hpurges] at hpurge
    obtain hpurge | hpurge := List.mem_append.mp hpurge
    · exact h.due key entry hentry purge hpurge hcovers hborn
    · obtain rfl := List.mem_singleton.mp hpurge
      exact hfinds key entry hentry hcovers
  · rw [hpurges] at hpurge
    obtain hpurge | hpurge := List.mem_append.mp hpurge
    · exact h.returned purge hpurge hreturned
    · obtain rfl := List.mem_singleton.mp hpurge
      exact nomatch hreturned
  · rw [hpurges] at hpurge
    rw [hclock]
    obtain hpurge | hpurge := List.mem_append.mp hpurge
    · exact Nat.lt_succ_of_lt (h.started purge hpurge)
    · obtain rfl := List.mem_singleton.mp hpurge
      exact Nat.lt_succ_self s.clock
  · rw [hstore] at hentry
    rw [hclock]
    exact Nat.lt_succ_of_lt (h.born key entry hentry)
  · rw [hflows] at hflow
    rw [hclock]
    exact Nat.lt_succ_of_lt (h.found flow entry hflow hstored)

/-- A deletion leaves the key without an entry and the other keys as they are. -/
theorem Inv.delete (h : Inv s) {j : ℕ} {purge : Purge} {key : String} (hj : s.purges[j]? = some purge) :
    Inv { s with store := Function.update s.store key none, purges := s.purges.set j { purge with pending := purge.pending.erase key } } := by
  have hmem : purge ∈ s.purges := List.mem_of_getElem? hj
  have hkept : ∀ key' entry, Function.update s.store key none key' = some entry → key' ≠ key ∧ s.store key' = some entry := by
    intro key' entry hentry
    by_cases hk : key' = key
    · subst hk
      rw [Function.update_self] at hentry
      exact nomatch hentry
    · exact ⟨hk,by rwa [Function.update_of_ne hk] at hentry⟩
  -- every purge is one of those before, with no more left to delete, and no less but the key
  have hback : ∀ p ∈ s.purges.set j { purge with pending := purge.pending.erase key },
      ∃ q ∈ s.purges, p.target = q.target ∧ p.start = q.start ∧ p.returned = q.returned ∧ p.pending ⊆ q.pending ∧
        ∀ key' ≠ key, key' ∈ q.pending → key' ∈ p.pending := by
    intro p hp
    obtain hp | rfl := List.mem_or_eq_of_mem_set hp
    · exact ⟨p,hp,rfl,rfl,rfl,Finset.Subset.refl _,fun _ _ h => h⟩
    · exact ⟨purge,hmem,rfl,rfl,rfl,Finset.erase_subset _ _,fun key' hk hkey => Finset.mem_erase.mpr ⟨hk,hkey⟩⟩
  refine ⟨fun key' entry hentry hdoomed => ?_,fun key' entry hentry p hp hcovers hborn => ?_,fun p hp hreturned => ?_,fun p hp => ?_,
    fun key' entry hentry => h.born key' entry (hkept key' entry hentry).2,h.found⟩
  · obtain ⟨hk,hentry⟩ := hkept key' entry hentry
    refine h.listed key' entry hentry ?_
    rintro ⟨q,hq,hkey⟩
    obtain ⟨i,hi⟩ := List.mem_iff_getElem?.mp hq
    by_cases hij : j = i
    · subst hij
      obtain rfl := Option.some.inj (hj.symm.trans hi)
      refine hdoomed ⟨{ purge with pending := purge.pending.erase key },?_,Finset.mem_erase.mpr ⟨hk,hkey⟩⟩
      exact List.mem_of_getElem? (List.getElem?_set_self (List.getElem?_eq_some_iff.mp hj).1)
    · exact hdoomed ⟨q,List.mem_of_getElem? ((List.getElem?_set_ne hij).trans hi),hkey⟩
  · obtain ⟨hk,hentry⟩ := hkept key' entry hentry
    obtain ⟨q,hq,htarget,hstart,-,-,hpending⟩ := hback p hp
    rw [htarget] at hcovers
    rw [hstart] at hborn
    exact hpending key' hk (h.due key' entry hentry q hq hcovers hborn)
  · obtain ⟨q,hq,-,-,hret,hsub,-⟩ := hback p hp
    rw [hret] at hreturned
    exact Finset.subset_empty.mp (h.returned q hq hreturned ▸ hsub)
  · obtain ⟨q,hq,-,hstart,-⟩ := hback p hp
    rw [hstart]
    exact h.started q hq

/-- A purge that returns unlists nothing the store still has. -/
theorem Inv.endPurge (h : Inv s) {j : ℕ} {purge : Purge} (hj : s.purges[j]? = some purge) (hpending : purge.pending = ∅)
    (hclean : ∀ key ∈ purge.keys, ∀ entry, s.store key = some entry → s.Doomed key ∨ purge.target.otherNames entry = ∅) :
    Inv (s.endPurge j purge) := by
  have hmem : purge ∈ s.purges := List.mem_of_getElem? hj
  have hpurges : (s.endPurge j purge).purges = s.purges.set j { purge with returned := true } := by
    rw [Cache.endPurge]
    split <;> rfl
  have hrest : (s.endPurge j purge).store = s.store ∧ (s.endPurge j purge).clock = s.clock ∧ (s.endPurge j purge).flows = s.flows := by
    rw [Cache.endPurge]
    split <;> exact ⟨rfl,rfl,rfl⟩
  obtain ⟨hstore,hclock,hflows⟩ := hrest
  have hback : ∀ p ∈ s.purges.set j { purge with returned := true },
      ∃ q ∈ s.purges, p.target = q.target ∧ p.start = q.start ∧ p.pending = q.pending ∧ (p.returned = q.returned ∨ p.pending = ∅) := by
    intro p hp
    obtain hp | rfl := List.mem_or_eq_of_mem_set hp
    · exact ⟨p,hp,rfl,rfl,rfl,.inl rfl⟩
    · exact ⟨purge,hmem,rfl,rfl,rfl,.inr hpending⟩
  have hdoomedIff : ∀ key, s.Doomed key → (s.endPurge j purge).Doomed key := by
    rintro key ⟨q,hq,hkey⟩
    obtain ⟨i,hi⟩ := List.mem_iff_getElem?.mp hq
    by_cases hij : j = i
    · subst hij
      obtain rfl := Option.some.inj (hj.symm.trans hi)
      rw [hpending] at hkey
      exact absurd hkey (Finset.notMem_empty key)
    · refine ⟨q,?_,hkey⟩
      rw [hpurges]
      exact List.mem_of_getElem? ((List.getElem?_set_ne hij).trans hi)
  refine ⟨fun key entry hentry hdoomed => ?_,fun key entry hentry p hp hcovers hborn => ?_,fun p hp hreturned => ?_,fun p hp => ?_,
    fun key entry hentry => ?_,fun flow entry hflow hstored => ?_⟩
  · rw [hstore] at hentry
    have hquiet : ¬ s.Doomed key := fun hd => hdoomed (hdoomedIff key hd)
    obtain ⟨htags,hurl⟩ := h.listed key entry hentry hquiet
    have hcleaned : key ∉ purge.keys ∨ purge.target.otherNames entry = ∅ := by
      by_cases hkey : key ∈ purge.keys
      · exact .inr ((hclean key hkey entry hentry).resolve_left hquiet)
      · exact .inl hkey
    rw [Listed,Cache.endPurge]
    split
    · rename_i t htarget
      rw [htarget] at hcleaned
      exact ⟨htags,hurl.dropKeys hcleaned⟩
    · rename_i u startOnly htarget
      rw [htarget] at hcleaned
      exact ⟨htags.dropKeys hcleaned,hurl⟩
  · rw [hstore] at hentry
    rw [hpurges] at hp
    obtain ⟨q,hq,htarget,hstart,hpend,-⟩ := hback p hp
    rw [htarget] at hcovers
    rw [hstart] at hborn
    rw [hpend]
    exact h.due key entry hentry q hq hcovers hborn
  · rw [hpurges] at hp
    obtain ⟨q,hq,-,-,hpend,hret⟩ := hback p hp
    obtain hret | hempty := hret
    · rw [hpend]
      exact h.returned q hq (hret ▸ hreturned)
    · exact hempty
  · rw [hpurges] at hp
    obtain ⟨q,hq,-,hstart,-⟩ := hback p hp
    rw [hstart,hclock]
    exact h.started q hq
  · rw [hstore] at hentry
    rw [hclock]
    exact h.born key entry hentry
  · rw [hflows] at hflow
    rw [hclock]
    exact h.found flow entry hflow hstored

/-- A careful step keeps what holds. -/
theorem Inv.step (h : Inv s) (hcareful : s.Careful event) (hs : s.step event = some s') : Inv s' := by
  cases event with
  | lookup key url =>
    obtain rfl := Option.some.inj hs
    refine h.withFlows fun flow entry hflow hstored => ?_
    obtain hflow | hflow := List.mem_append.mp hflow
    · exact h.found flow entry hflow hstored
    · obtain rfl := Option.some.inj (List.mem_singleton.mp hflow)
      exact h.born key entry hstored
  | stored i tags now =>
    rw [Cache.step] at hs
    split at hs
    · obtain rfl := Option.some.inj hs
      exact (h.endFlow i).recordStored _ tags now
    · exact nomatch hs
  | notModified i now =>
    rw [Cache.step] at hs
    split at hs
    · rename_i flow hflow
      obtain ⟨entry,hentry,rfl⟩ := Option.map_eq_some_iff.mp hs
      obtain ⟨hlisted,hdue⟩ := hcareful flow entry hflow hentry
      exact (h.endFlow i).renewed hlisted hdue (h.found flow entry (List.mem_of_getElem? hflow) hentry)
    · exact nomatch hs
  | dropped key =>
    obtain rfl := Option.some.inj hs
    exact h.dropped key
  | purge target =>
    obtain rfl := Option.some.inj hs
    exact h.beginPurge hcareful
  | delete j key =>
    rw [Cache.step] at hs
    split at hs
    · rename_i purge hj
      split_ifs at hs
      obtain rfl := Option.some.inj hs
      exact h.delete hj
    · exact nomatch hs
  | finish j =>
    rw [Cache.step] at hs
    split at hs
    · rename_i purge hj
      split_ifs at hs with hdone
      obtain rfl := Option.some.inj hs
      exact h.endPurge hj hdone.1 (hcareful purge hj)
    · exact nomatch hs

/-- In every careful run the indexes cover the store, and what a purge covered is gone. -/
theorem covered_of_careful {events : List CacheEvent} {s : Cache} (hcareful : system.Along Careful events)
    (hs : system.run events = some s) : s.Covered :=
  (System.guarded_inv Inv inv_init (fun _ _ _ h hg hstep => h.step hg hstep) hcareful hs).covered

instance (target : Target) (entry : Entry) : Decidable (target.covers entry) :=
  match target with
  | .tag t => inferInstanceAs (Decidable (t ∈ entry.tags))
  | .url _ _ => inferInstanceAs (Decidable (_ = true))

/-- A purge has returned that should have deleted what is under the key, or the URL index misses it. -/
def exposed (s : Cache) (key : String) : Bool :=
  (s.store key).any fun entry =>
    s.purges.any (fun purge => purge.returned && decide (purge.target.covers entry) && decide (entry.born < purge.start)) ||
      s.purges.all (fun purge => decide (key ∉ purge.pending)) && decide ((entry.url.val,key) ∉ s.urlIndex)

theorem not_covered_of_exposed {key : String} (h : s.exposed key = true) : ¬ s.Covered := by
  intro hcovered
  rw [exposed] at h
  cases hentry : s.store key with
  | none =>
    rw [hentry] at h
    exact nomatch h
  | some entry =>
    rw [hentry,Option.any_some,Bool.or_eq_true,Bool.and_eq_true] at h
    obtain hgone | ⟨hquiet,hurl⟩ := h
    · obtain ⟨purge,hpurge,hp⟩ := List.any_eq_true.mp hgone
      simp only [Bool.and_eq_true,decide_eq_true_eq] at hp
      have hle := hcovered.gone purge hpurge hp.1.1 key entry hentry hp.1.2
      omega
    · have hnot : ¬ s.Doomed key := by
        rintro ⟨purge,hpurge,hkey⟩
        exact of_decide_eq_true (List.all_eq_true.mp hquiet purge hpurge) hkey
      exact of_decide_eq_true hurl (((hcovered.listed key entry hentry hnot).2 _).mpr (Finset.mem_singleton_self _))

private theorem uncovered {events : List CacheEvent} (h : (system.run events).any (·.exposed "k") = true) :
    ∃ s, system.run events = some s ∧ ¬ s.Covered := by
  cases hs : system.run events with
  | none =>
    rw [hs] at h
    exact nomatch h
  | some s =>
    rw [hs] at h
    exact ⟨s,rfl,not_covered_of_exposed h⟩

def home : RequestUrl := ⟨"/a",by decide⟩

/-- A 304 renews what a purge has deleted; a response stored while a purge of its tag is under way
is not listed under its URL when the purge has returned; and of two purges of one tag the second
returns before the first has deleted anything. -/
theorem purges_miss :
    (∃ s, system.run [.lookup "k" home,.stored 0 ["t"] 0,.lookup "k" home,.purge (.tag "t"),.delete 0 "k",.finish 0,.notModified 1 1] = some s ∧
      ¬ s.Covered) ∧
    (∃ s, system.run [.lookup "k" home,.stored 0 ["t"] 0,.lookup "k" home,.purge (.tag "t"),.delete 0 "k",.stored 1 ["t"] 1,.finish 0] = some s ∧
      ¬ s.Covered) ∧
    ∃ s, system.run [.lookup "k" home,.stored 0 ["t"] 0,.purge (.tag "t"),.purge (.tag "t"),.finish 1] = some s ∧ ¬ s.Covered :=
  ⟨uncovered (by decide +kernel),uncovered (by decide +kernel),uncovered (by decide +kernel)⟩

def visit : List CacheEvent :=
  [.lookup "k" home,.stored 0 ["t"] 0,.lookup "k" home,.notModified 1 3,.purge (.tag "t"),.delete 0 "k",.finish 0]

theorem covered_visit : ∃ s, system.run visit = some s ∧ s.Covered := by
  have hsome : (system.run visit).isSome = true := by decide +kernel
  obtain ⟨s,hs⟩ := Option.isSome_iff_exists.mp hsome
  refine ⟨s,hs,covered_of_careful (System.along_of_alongFrom ?_) hs⟩
  refine ⟨trivial,trivial,trivial,?_,?_,trivial,?_,trivial⟩
  · intro flow entry hflow hentry
    cases hflow
    cases hentry
    exact ⟨fun _ => ⟨PairIndex.lists_record_self,PairIndex.lists_record_self⟩,fun purge hpurge => absurd hpurge List.not_mem_nil⟩
  · intro key entry hentry _
    by_cases hk : key = "k"
    · subst hk
      exact of_decide_eq_true (by decide +kernel)
    · change Function.update (Function.update (fun _ => none) "k" _) "k" _ key = some entry at hentry
      rw [Function.update_of_ne hk,Function.update_of_ne hk] at hentry
      exact nomatch hentry
  · intro purge _ key _ entry hentry
    change Function.update (Function.update (Function.update (fun _ => none) "k" _) "k" _) "k" none key = some entry at hentry
    by_cases hk : key = "k"
    · subst hk
      rw [Function.update_self] at hentry
      exact nomatch hentry
    · rw [Function.update_of_ne hk,Function.update_of_ne hk,Function.update_of_ne hk] at hentry
      exact nomatch hentry

end Cache

end Dwara.Dataplane.CachePurges
