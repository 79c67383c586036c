import Mathlib.Data.List.Nodup
import Mathlib.Data.List.Perm.Basic
import Mathlib.Logic.Function.Basic
import Mathlib.Data.Finset.Image

/-! Lists of rows with a key, and rows kept under names. -/

namespace Dwara.Lib.Keyed
variable {α κ : Type*} [DecidableEq κ]

/-- Where keys are distinct, a row is the only one with its key. -/
theorem filter_key_eq {f : α → κ} {l : List α} (h : (l.map f).Nodup) {a : α} (ha : a ∈ l) :
    (l.filter fun b => f b = f a) = [a] := by
  induction l with
  | nil => cases ha
  | cons b l ih =>
    obtain ⟨hnotin,hrest⟩ := List.nodup_cons.mp (List.map_cons (f := f) ▸ h)
    rcases List.mem_cons.mp ha with rfl | ha
    · rw [List.filter_cons_of_pos (by simp),List.filter_eq_nil_iff.mpr]
      intro c hc heq
      exact hnotin (of_decide_eq_true heq ▸ List.mem_map_of_mem hc)
    · have hne : f b ≠ f a := fun heq => hnotin (heq ▸ List.mem_map_of_mem ha)
      rw [List.filter_cons_of_neg (by simp [hne]),ih hrest ha]

theorem find?_key_eq {f : α → κ} {l : List α} (h : (l.map f).Nodup) {a : α} (ha : a ∈ l) : l.find? (fun b => f b = f a) = some a := by
  rw [← List.head?_filter,filter_key_eq h ha]
  rfl

/-- Rows added under one name are added to all rows. -/
theorem flatMap_update_append_perm {names : List κ} (h : names.Nodup) {a : κ} (ha : a ∈ names) (f : κ → List α) (more : List α) :
    (names.flatMap (Function.update f a (f a ++ more))).Perm (names.flatMap f ++ more) := by
  induction names with
  | nil => cases ha
  | cons b names ih =>
    obtain ⟨hb,hnames⟩ := List.nodup_cons.mp h
    rw [List.flatMap_cons,List.flatMap_cons]
    by_cases hab : a = b
    · have hsame : names.flatMap (Function.update f a (f a ++ more)) = names.flatMap f := by
        apply List.flatMap_congr
        intro c hc
        have hca : c ≠ a := by
          rintro rfl
          exact hb (hab ▸ hc)
        exact Function.update_of_ne hca _ _
      rw [hsame,← hab,Function.update_self,List.append_assoc,List.append_assoc]
      exact List.perm_append_comm.append_left (f a)
    · have hin : a ∈ names := (List.mem_cons.mp ha).resolve_left hab
      rw [Function.update_of_ne (Ne.symm hab),List.append_assoc]
      exact (ih hnames hin).append_left (f b)

section Lookup
variable {l : List (κ × α)} {key : κ}

theorem mem_keys_of_lookup {a : α} (h : l.lookup key = some a) : key ∈ l.map (·.1) := by
  induction l with
  | nil => simp at h
  | cons p l ih =>
    rw [List.lookup_cons] at h
    by_cases hp : key = p.1
    · simp [hp]
    · rw [beq_eq_false_iff_ne.mpr hp] at h
      exact List.mem_cons_of_mem _ (ih h)

theorem lookup_isSome_of_mem (h : key ∈ l.map (·.1)) : ∃ a, l.lookup key = some a := by
  induction l with
  | nil => simp at h
  | cons p l ih =>
    rw [List.lookup_cons]
    by_cases hp : key = p.1
    · exact ⟨p.2,by rw [beq_iff_eq.mpr hp]⟩
    · rw [beq_eq_false_iff_ne.mpr hp]
      exact ih ((List.mem_cons.mp h).resolve_left hp)

theorem lookup_split {pre post : List (κ × α)} {a : α} (hkey : key ∉ pre.map (·.1)) :
    (pre ++ (key,a) :: post).lookup key = some a := by
  induction pre with
  | nil => simp
  | cons p pre ih =>
    rw [List.map_cons,List.mem_cons,not_or] at hkey
    rw [List.cons_append,List.lookup_cons,beq_eq_false_iff_ne.mpr hkey.1]
    exact ih hkey.2

theorem split_of_lookup {a : α} (h : l.lookup key = some a) : ∃ pre post, l = pre ++ (key,a) :: post ∧ key ∉ pre.map (·.1) := by
  induction l with
  | nil => cases h
  | cons p l ih =>
    rw [List.lookup_cons] at h
    by_cases hp : key = p.1
    · rw [beq_iff_eq.mpr hp] at h
      obtain rfl := Option.some.inj h
      exact ⟨[],l,by rw [hp]; rfl,by simp⟩
    · rw [beq_eq_false_iff_ne.mpr hp] at h
      obtain ⟨pre,post,rfl,hpre⟩ := ih h
      exact ⟨p :: pre,post,rfl,by simp [hp, hpre]⟩

omit [DecidableEq κ] in
theorem notin_pre {pre post : List (κ × α)} {a : α} (h : ((pre ++ (key,a) :: post).map (·.1)).Nodup) : key ∉ pre.map (·.1) := by
  rw [List.map_append,List.map_cons] at h
  intro hkey
  exact (List.nodup_append.mp h).2.2 key hkey key List.mem_cons_self rfl

theorem lookup_eq_some_iff {a : α} (h : (l.map (·.1)).Nodup) : l.lookup key = some a ↔ (key,a) ∈ l := by
  constructor
  · intro ha
    obtain ⟨pre,post,rfl,-⟩ := split_of_lookup ha
    exact List.mem_append_right pre List.mem_cons_self
  · intro hmem
    obtain ⟨pre,post,rfl⟩ := List.append_of_mem hmem
    exact lookup_split (notin_pre h)

end Lookup

end Dwara.Lib.Keyed

/-! An index of keys under names, as the set of its pairs. -/

namespace Dwara.Lib

/-- The keys that are listed under each name. -/
abbrev PairIndex (α κ : Type*) := Finset (α × κ)

namespace PairIndex
variable {α κ : Type*}

/-- The key is listed under just these names. -/
def Lists (index : PairIndex α κ) (key : κ) (names : Finset α) : Prop := ∀ a, (a,key) ∈ index ↔ a ∈ names

/-- The index without the names that match. -/
def dropNames (index : PairIndex α κ) (p : α → Bool) : PairIndex α κ := {q ∈ index | p q.1 = false}

/-- What is listed under names none of which match stays so. -/
theorem Lists.dropNames {index : PairIndex α κ} {key : κ} {names : Finset α} {p : α → Bool} (h : index.Lists key names)
    (hnone : ∀ a ∈ names, p a = false) : (index.dropNames p).Lists key names := by
  intro a
  rw [PairIndex.dropNames,Finset.mem_filter]
  constructor
  · exact fun hmem => (h a).mp hmem.1
  · exact fun hmem => ⟨(h a).mpr hmem,hnone a hmem⟩

section Keys
variable [DecidableEq κ]

/-- The keys under the names that match. -/
def keysUnder (index : PairIndex α κ) (p : α → Bool) : Finset κ := {q ∈ index | p q.1 = true}.image Prod.snd

/-- The index without some keys. -/
def dropKeys (index : PairIndex α κ) (keys : Finset κ) : PairIndex α κ := {q ∈ index | q.2 ∉ keys}

variable {index : PairIndex α κ} {key : κ} {names : Finset α} {p : α → Bool} {keys : Finset κ}

theorem mem_keysUnder : key ∈ index.keysUnder p ↔ ∃ a, (a,key) ∈ index ∧ p a = true := by
  simp [keysUnder]

/-- A key that is listed under a name that matches is found. -/
theorem Lists.mem_keysUnder (h : index.Lists key names) {a : α} (ha : a ∈ names) (hp : p a = true) : key ∈ index.keysUnder p :=
  PairIndex.mem_keysUnder.mpr ⟨a,(h a).mpr ha,hp⟩

theorem Lists.dropKeys (h : index.Lists key names) (hkey : key ∉ keys ∨ names = ∅) : (index.dropKeys keys).Lists key names := by
  intro a
  rw [PairIndex.dropKeys,Finset.mem_filter]
  constructor
  · exact fun hmem => (h a).mp hmem.1
  · intro hmem
    obtain hkey | rfl := hkey
    · exact ⟨(h a).mpr hmem,hkey⟩
    · exact absurd hmem (Finset.notMem_empty a)

end Keys

section Record
variable [DecidableEq α] [DecidableEq κ]

/-- A key is listed under these names and no others. -/
def record (index : PairIndex α κ) (key : κ) (names : Finset α) : PairIndex α κ :=
  {p ∈ index | p.2 = key → p.1 ∈ names} ∪ names.image (·,key)

variable {index : PairIndex α κ} {key key' : κ} {names names' : Finset α}

theorem lists_record_self : (index.record key names).Lists key names := by
  intro a
  simp only [record,Finset.mem_union,Finset.mem_filter,Finset.mem_image,Prod.mk.injEq,and_true,exists_eq_right]
  tauto

theorem lists_record_of_ne (h : key' ≠ key) : (index.record key names).Lists key' names' ↔ index.Lists key' names' := by
  have hmem : ∀ a, (a,key') ∈ index.record key names ↔ (a,key') ∈ index := by
    intro a
    simp only [record,Finset.mem_union,Finset.mem_filter,Finset.mem_image,Prod.mk.injEq]
    constructor
    · rintro (⟨hmem,-⟩ | ⟨b,-,-,rfl⟩)
      · exact hmem
      · exact absurd rfl h
    · exact fun hmem => .inl ⟨hmem,fun heq => absurd heq h⟩
  rw [Lists,Lists]
  exact forall_congr' fun a => by rw [hmem]

end Record

end PairIndex
end Dwara.Lib
