import Dwara.Ai.Redaction

/-! What redaction leaves of a text, and of the strings of a document. -/

namespace Dwara.Ai
open Dwara.Lib

namespace Redactor

variable (r : Redactor) (text : List Char)

/-- Some pattern, by itself, has a match that `i` is within. -/
def Covered (i : ℕ) : Prop := ∃ p ∈ r.set, Spans.Has (p.allMatches text) i

/-- What no pattern matches by itself is left, in order, and the rest is replaced. -/
def RedactedAs (out : List Char) : Prop :=
  ∃ spans, Spans.Ordered 0 spans ∧ out = Spans.render text r.replacement 0 spans ∧
    ∀ i < text.length, Spans.Has spans i ↔ r.Covered text i

/-- A match no other match reaches across an end of. One that starts with it is of a pattern
behind it in the list, or is the same. -/
def Whole (m : ℕ × ℕ) : Prop :=
  ∃ before p after, r.set = before ++ p :: after ∧ m ∈ p.allMatches text ∧
    (∀ q ∈ before, ∀ m' ∈ q.allMatches text, m'.1 < m.1 ∧ m'.2 ≤ m.1 ∨ m.1 < m'.1 ∧ (m'.2 ≤ m.2 ∨ m.2 ≤ m'.1) ∨ m' = m) ∧
    ∀ q ∈ after, ∀ m' ∈ q.allMatches text, m'.1 < m.1 ∧ m'.2 ≤ m.1 ∨ m.1 ≤ m'.1 ∧ (m'.2 ≤ m.2 ∨ m.2 ≤ m'.1)

structure Separate : Prop where
  /-- Every match lies in a whole one. -/
  held : ∀ p ∈ r.set, ∀ m ∈ p.allMatches text, ∃ m₀, r.Whole text m₀ ∧ m₀.1 ≤ m.1 ∧ m.2 ≤ m₀.2 ∧ (m.1 < m₀.2 ∨ m = m₀)
  /-- A whole match is of some characters, or at the end of the text. -/
  advances : ∀ m, r.Whole text m → m.1 < m.2 ∨ m.1 = text.length
  /-- A pattern that matches behind a whole match is found in what is left from there. -/
  selected : ∀ m, r.Whole text m → ∀ p ∈ r.set, (p.findAt text m.2).isSome → p.isMatch (text.drop m.2)

section Separate
variable {r : Redactor} {text : List Char}

/-- Every match ends before the cursor or starts behind it. -/
def Clear (r : Redactor) (text : List Char) (cursor : ℕ) : Prop :=
  ∀ p ∈ r.set, ∀ m ∈ p.allMatches text, m.2 ≤ cursor ∨ cursor ≤ m.1

def Selects (r : Redactor) (text : List Char) (cursor : ℕ) : Prop :=
  ∀ p ∈ r.set, (p.findAt text cursor).isSome → p.isMatch (text.drop cursor)

theorem earliest_eq {cursor : ℕ} (h : r.Selects text cursor) : r.earliest text cursor = leftmost (r.set.filterMap fun p => p.findAt text cursor) := by
  rw [earliest,List.filterMap_filter]
  refine congrArg leftmost (List.filterMap_congr fun p hp => ?_)
  split
  · rfl
  · rename_i hnot
    cases hfind : p.findAt text cursor with
    | none => rfl
    | some m => exact absurd (h p hp (Option.isSome_of_eq_some hfind)) hnot

/-- What is found from a clear place on is a match the pattern has by itself. -/
theorem mem_of_findAt {cursor : ℕ} (hclear : r.Clear text cursor) {p : Pattern} (hp : p ∈ r.set) {m : ℕ × ℕ}
    (h : p.findAt text cursor = some m) : m ∈ p.allMatches text := by
  obtain ⟨hle,hmatch,hbefore⟩ := Pattern.findAt_eq_some h
  refine Pattern.mem_matchesFrom_of (by omega) (Nat.zero_le _) hmatch fun m' hm' hlt => ?_
  rcases hclear p hp m' hm' with hend | hstart
  · omega
  · cases (hbefore m'.1 hstart hlt).symm.trans (Pattern.matchAt_of_mem hm')

/-- A match that starts behind the cursor is not before the one found there. -/
theorem findAt_of_mem {cursor : ℕ} {q : Pattern} {m : ℕ × ℕ} (hm : m ∈ q.allMatches text) (hstart : cursor ≤ m.1) :
    ∃ m', q.findAt text cursor = some m' ∧ m'.1 ≤ m.1 := by
  have hsome := Option.isSome_of_eq_some (Pattern.matchAt_of_mem hm)
  obtain ⟨m',hfind⟩ := Option.isSome_iff_exists.mp (Pattern.isSome_findAt hstart hsome)
  exact ⟨m',hfind,Pattern.le_of_findAt hfind hstart hsome⟩

/-- Where the earliest match is found: by a pattern before which none finds one that starts as
early, and no match that is ahead starts before it. -/
theorem found_of_earliest {cursor : ℕ} (hselects : r.Selects text cursor) {s e : ℕ} (hearliest : r.earliest text cursor = some (s,e)) :
    (∃ before p after, r.set = before ++ p :: after ∧ p.findAt text cursor = some (s,e) ∧
      ∀ q ∈ before, ∀ m, q.findAt text cursor = some m → s < m.1) ∧
    ∀ q ∈ r.set, ∀ m ∈ q.allMatches text, cursor ≤ m.1 → s ≤ m.1 := by
  rw [earliest_eq hselects] at hearliest
  obtain ⟨found₁,found₂,hfound,hfound₁,hfound₂⟩ := leftmost_eq_some hearliest
  constructor
  · obtain ⟨set₁,rest,hset,hset₁,hrest⟩ := List.filterMap_eq_append_iff.mp hfound
    obtain ⟨skipped,p,set₂,rfl,hskipped,hfind,-⟩ := List.filterMap_eq_cons_iff.mp hrest
    refine ⟨set₁ ++ skipped,p,set₂,by rw [hset,List.append_assoc],hfind,fun q hq m hm => ?_⟩
    rcases List.mem_append.mp hq with hq | hq
    · exact hfound₁ m (hset₁ ▸ List.mem_filterMap.mpr ⟨q,hq,hm⟩)
    · cases (hskipped q hq).symm.trans hm
  · intro q hq m hm hstart
    obtain ⟨m',hfind,hle⟩ := findAt_of_mem hm hstart
    have hmem : m' ∈ found₁ ++ (s,e) :: found₂ := hfound ▸ List.mem_filterMap.mpr ⟨q,hq,hfind⟩
    rcases List.mem_append.mp hmem with hmem | hmem
    · exact (hfound₁ m' hmem).le.trans hle
    · rcases List.mem_cons.mp hmem with rfl | hmem
      · exact hle
      · exact (hfound₂ m' hmem).trans hle

/-- A match that is found first, within a whole one, is that one. -/
theorem eq_of_within_whole {cursor : ℕ} (hclear : r.Clear text cursor) {before after : List Pattern} {p : Pattern} {s e : ℕ}
    (hset : r.set = before ++ p :: after) (hfind : p.findAt text cursor = some (s,e))
    (hbefore : ∀ q ∈ before, ∀ m, q.findAt text cursor = some m → s < m.1)
    (hahead : ∀ q ∈ r.set, ∀ m ∈ q.allMatches text, cursor ≤ m.1 → s ≤ m.1)
    {m₀ : ℕ × ℕ} (hwhole : r.Whole text m₀) (hle : m₀.1 ≤ s) (hin : s < m₀.2) : (s,e) = m₀ := by
  obtain ⟨before₀,p₀,after₀,hset₀,hm₀,hbefore₀,-⟩ := hwhole
  have hp₀ : p₀ ∈ r.set := hset₀ ▸ List.mem_append_right _ List.mem_cons_self
  have hmem := mem_of_findAt hclear (hset ▸ List.mem_append_right _ List.mem_cons_self) hfind
  have hstart₀ : cursor ≤ m₀.1 := by
    rcases hclear p₀ hp₀ m₀ hm₀ with hend | hstart
    · exact absurd ((Pattern.findAt_eq_some hfind).1.trans_lt hin) (Nat.not_lt.mpr hend)
    · exact hstart
  have hstart : s = m₀.1 := Nat.le_antisymm (hahead p₀ hp₀ m₀ hm₀ hstart₀) hle
  have hsame : p = p₀ → (s,e) = m₀ := by
    rintro rfl
    have hmatch := (Pattern.matchAt_of_mem hmem).symm.trans (hstart ▸ Pattern.matchAt_of_mem hm₀)
    exact Prod.ext hstart (Option.some.inj hmatch)
  -- where `p` stands in the list, seen from the pattern of the whole match
  rw [hset] at hset₀
  rcases List.append_eq_append_iff.mp hset₀ with ⟨between,hbetween,htail⟩ | ⟨between,hbetween,htail⟩
  · cases between with
    | nil => exact hsame (List.cons.inj htail).1
    | cons q between =>
      obtain ⟨rfl,-⟩ := List.cons.inj htail
      have hrelation := hbefore₀ p (hbetween ▸ List.mem_append_right _ List.mem_cons_self) (s,e) hmem
      dsimp only at hrelation
      rcases hrelation with hlt | hlt | heq
      · omega
      · omega
      · exact heq
  · cases between with
    | nil => exact hsame (List.cons.inj htail).1.symm
    | cons q between =>
      obtain ⟨rfl,-⟩ := List.cons.inj htail
      obtain ⟨m',hfind',hle'⟩ := findAt_of_mem hm₀ hstart₀
      have hlt := hbefore p₀ (hbetween ▸ List.mem_append_right _ List.mem_cons_self) m' hfind'
      omega

/-- A match that does not start before a whole one is within it or behind it. -/
theorem Whole.within_or_behind {s e : ℕ} (h : r.Whole text (s,e)) {q : Pattern} (hq : q ∈ r.set) {m : ℕ × ℕ} (hm : m ∈ q.allMatches text)
    (hs : s ≤ m.1) : m.2 ≤ e ∨ e ≤ m.1 := by
  obtain ⟨before,p,after,hset,hmem,hbefore,hafter⟩ := h
  rw [hset] at hq
  rcases List.mem_append.mp hq with hq | hq
  · rcases hbefore q hq m hm with ⟨hlt,-⟩ | ⟨-,hends⟩ | rfl
    · exact absurd hs (Nat.not_le.mpr hlt)
    · exact hends
    · exact .inl (le_refl _)
  · rcases List.mem_cons.mp hq with rfl | hq
    · rcases Pattern.disjoint_of_mem hmem hm with rfl | hend | hend
      · exact .inl (le_refl _)
      · exact .inr hend
      · exact .inl (hend.trans (q.start_le (Pattern.matchAt_of_mem hmem)))
    · rcases hafter q hq m hm with ⟨hlt,-⟩ | ⟨-,hends⟩
      · exact absurd hs (Nat.not_le.mpr hlt)
      · exact hends

/-- The earliest match is whole, and every match that is still ahead is in it or behind it. -/
theorem earliest_spec {cursor : ℕ} (h : r.Separate text) (hclear : r.Clear text cursor) (hselects : r.Selects text cursor) {s e : ℕ}
    (hearliest : r.earliest text cursor = some (s,e)) :
    r.Whole text (s,e) ∧ cursor ≤ s ∧ ∀ q ∈ r.set, ∀ m ∈ q.allMatches text, m.2 ≤ cursor ∨ s ≤ m.1 ∧ (m.2 ≤ e ∨ e ≤ m.1) := by
  obtain ⟨⟨before,p,after,hset,hfind,hbefore⟩,hahead⟩ := found_of_earliest hselects hearliest
  have hp : p ∈ r.set := hset ▸ List.mem_append_right _ List.mem_cons_self
  obtain ⟨m₀,hwhole,hle,-,hin⟩ := h.held p hp (s,e) (mem_of_findAt hclear hp hfind)
  have hself : (s,e) = m₀ := by
    rcases hin with hin | heq
    · exact eq_of_within_whole hclear hset hfind hbefore hahead hwhole hle hin
    · exact heq
  rw [← hself] at hwhole
  refine ⟨hwhole,(Pattern.findAt_eq_some hfind).1,fun q hq m hm => ?_⟩
  rcases hclear q hq m hm with hend | hstart
  · exact .inl hend
  · have hs := hahead q hq m hm hstart
    exact .inr ⟨hs,hwhole.within_or_behind hq hm hs⟩

theorem mem_of_whole {m : ℕ × ℕ} (h : r.Whole text m) : ∃ p ∈ r.set, m ∈ p.allMatches text := by
  obtain ⟨before,p,after,hset,hm,-⟩ := h
  exact ⟨p,hset ▸ List.mem_append_right _ List.mem_cons_self,hm⟩

theorem not_covered {i : ℕ} (h : ∀ p ∈ r.set, ∀ m ∈ p.allMatches text, m.2 ≤ i ∨ i < m.1) : ¬ r.Covered text i := by
  rintro ⟨p,hp,m,hm,hle,hlt⟩
  rcases h p hp m hm with hend | hstart
  · omega
  · omega

/-- The loop, from a cursor no match reaches across. -/
theorem redactFrom_of_separate (h : r.Separate text) {n cursor : ℕ} (hcursor : cursor ≤ text.length) (hn : text.length < n + cursor)
    (hclear : r.Clear text cursor) (hselects : r.Selects text cursor) (out : List Char) :
    ∃ spans, Spans.Ordered cursor spans ∧ r.redactFrom text n cursor out = some (out ++ Spans.render text r.replacement cursor spans) ∧
      ∀ i < text.length, cursor ≤ i → (Spans.Has spans i ↔ r.Covered text i) := by
  induction n generalizing cursor out with
  | zero => omega
  | succ n ih =>
    rw [redactFrom]
    by_cases hlt : cursor < text.length
    · rw [if_pos hlt]
      cases hearliest : r.earliest text cursor with
      | none =>
        rw [earliest_eq hselects] at hearliest
        have hnone := List.filterMap_eq_nil_iff.mp (leftmost_eq_none hearliest)
        refine ⟨[],trivial,rfl,fun i _ hi => iff_of_false (Spans.not_has_nil i) ?_⟩
        refine not_covered fun p hp m hm => ?_
        rcases hclear p hp m hm with hend | hstart
        · exact .inl (hend.trans hi)
        · obtain ⟨m',hfind,-⟩ := findAt_of_mem hm hstart
          cases (hnone p hp).symm.trans hfind
      | some found =>
        obtain ⟨s,e⟩ := found
        obtain ⟨hwhole,hle,hothers⟩ := earliest_spec h hclear hselects hearliest
        obtain ⟨p,hp,hmem⟩ := mem_of_whole hwhole
        have hmatch := Pattern.matchAt_of_mem hmem
        have hend := p.start_le hmatch
        have hlength := p.le_length hmatch
        have hadvance := h.advances (s,e) hwhole
        dsimp only at hend hlength hadvance
        have hclear' : r.Clear text e := by
          intro q hq m hm
          rcases hothers q hq m hm with hbehind | ⟨-,hend | hstart⟩
          · exact .inl (by omega)
          · exact .inl hend
          · exact .inr hstart
        obtain ⟨spans,hordered,hloop,hspans⟩ := ih hlength (by omega) hclear' (h.selected (s,e) hwhole) (out ++ Spans.slice text cursor s ++ r.replacement)
        refine ⟨(s,e) :: spans,⟨hle,hend,hordered⟩,?_,fun i hi hpos => ?_⟩
        · dsimp only
          rw [hloop,Spans.render,List.append_assoc,List.append_assoc,List.append_assoc]
        · rw [Spans.has_cons]
          by_cases hbehind : e ≤ i
          · rw [← hspans i hi hbehind]
            exact or_iff_right fun hin => by omega
          · have hnot : ¬ Spans.Has spans i := fun hhas => hbehind (Spans.le_of_has hordered hhas)
            rw [or_iff_left hnot]
            by_cases hin : s ≤ i
            · exact iff_of_true ⟨hin,by omega⟩ ⟨p,hp,(s,e),hmem,hin,by omega⟩
            · refine iff_of_false (fun h => hin h.1) (not_covered fun q hq m hm => ?_)
              rcases hothers q hq m hm with hpassed | ⟨hstart,-⟩
              · exact .inl (hpassed.trans hpos)
              · exact .inr (by omega)
    · rw [if_neg hlt]
      refine ⟨[],trivial,?_,fun i hi hpos => by omega⟩
      rw [Spans.render,List.drop_of_length_le (by omega),List.append_nil]

theorem clear_zero : r.Clear text 0 := fun _ _ _ _ => .inr (Nat.zero_le _)

theorem selects_zero : r.Selects text 0 := fun p _ h => by
  rw [List.drop_zero]
  exact h

theorem redactedAs_self (h : ∀ i < text.length, ¬ r.Covered text i) : r.RedactedAs text text :=
  ⟨[],trivial,rfl,fun i hi => iff_of_false (Spans.not_has_nil i) (h i hi)⟩

theorem redact_of_separate (h : r.Separate text) : ∃ out, r.redact text = some out ∧ r.RedactedAs text out := by
  cases hset : r.set.isEmpty with
  | true =>
    refine ⟨text,by rw [redact,if_pos hset],redactedAs_self fun i _ ⟨p,hp,_⟩ => ?_⟩
    rw [List.isEmpty_iff.mp hset] at hp
    exact List.not_mem_nil hp
  | false =>
    obtain ⟨spans,hordered,hloop,hspans⟩ :=
      redactFrom_of_separate h (Nat.zero_le _) (Nat.lt_succ_self text.length) clear_zero selects_zero []
    exact ⟨_,(redact_eq_some hset).mpr ⟨_,hloop⟩,spans,hordered,rfl,fun i hi => hspans i hi (Nat.zero_le i)⟩

end Separate

section Document

mutual

/-- The string values of a document. -/
def values : Json → List String
  | .string s => [s]
  | .array items => itemValues items
  | .object fields => fieldValues fields
  | _ => []

def itemValues : List Json → List String
  | [] => []
  | v :: items => values v ++ itemValues items

def fieldValues : List (String × Json) → List String
  | [] => []
  | (_,v) :: fields => values v ++ fieldValues fields

end

mutual

/-- The names of the fields of a document's objects. -/
def keys : Json → List String
  | .array items => itemKeys items
  | .object fields => fieldKeys fields
  | _ => []

def itemKeys : List Json → List String
  | [] => []
  | v :: items => keys v ++ itemKeys items

def fieldKeys : List (String × Json) → List String
  | [] => []
  | (k,v) :: fields => k :: (keys v ++ fieldKeys fields)

end

mutual

/-- Two documents of one shape, every string of the second what redaction is to leave of the
first's. -/
inductive DocumentRedacted (r : Redactor) : Json → Json → Prop
  | null : DocumentRedacted r .null .null
  | bool (b : Bool) : DocumentRedacted r (.bool b) (.bool b)
  | int (n : ℤ) : DocumentRedacted r (.int n) (.int n)
  | float (text : String) : DocumentRedacted r (.float text) (.float text)
  | string {s t : String} (h : r.RedactedAs s.toList t.toList) : DocumentRedacted r (.string s) (.string t)
  | array {items items' : List Json} (h : ItemsRedacted r items items') : DocumentRedacted r (.array items) (.array items')
  | object {fields fields' : List (String × Json)} (h : FieldsRedacted r fields fields') : DocumentRedacted r (.object fields) (.object fields')

inductive ItemsRedacted (r : Redactor) : List Json → List Json → Prop
  | nil : ItemsRedacted r [] []
  | cons {v v' : Json} {items items' : List Json} (hv : DocumentRedacted r v v') (hitems : ItemsRedacted r items items') :
    ItemsRedacted r (v :: items) (v' :: items')

inductive FieldsRedacted (r : Redactor) : List (String × Json) → List (String × Json) → Prop
  | nil : FieldsRedacted r [] []
  | cons {k k' : String} {v v' : Json} {fields fields' : List (String × Json)} (hk : r.RedactedAs k.toList k'.toList)
    (hv : DocumentRedacted r v v') (hfields : FieldsRedacted r fields fields') : FieldsRedacted r ((k,v) :: fields) ((k',v') :: fields')

end

variable {r : Redactor}

/-- No match in a name. -/
def Clean (r : Redactor) (key : String) : Prop := ∀ i < key.toList.length, ¬ r.Covered key.toList i

mutual

theorem redactJson_spec (doc : Json) (hvalues : ∀ s ∈ values doc, r.Separate s.toList) (hkeys : ∀ k ∈ keys doc, r.Clean k) :
    ∃ out, r.redactJson doc = some out ∧ DocumentRedacted r doc out := by
  cases doc with
  | null => exact ⟨.null,by simp only [redactJson],.null⟩
  | bool b => exact ⟨.bool b,by simp only [redactJson],.bool b⟩
  | int n => exact ⟨.int n,by simp only [redactJson],.int n⟩
  | float text => exact ⟨.float text,by simp only [redactJson],.float text⟩
  | string s =>
    obtain ⟨out,hredact,has⟩ := redact_of_separate (hvalues s (by rw [values]; exact List.mem_singleton_self s))
    refine ⟨.string (String.ofList out),by rw [redactJson,hredact,Option.map_some],.string ?_⟩
    rw [String.toList_ofList]
    exact has
  | array items =>
    rw [values] at hvalues
    rw [keys] at hkeys
    obtain ⟨out,hredact,has⟩ := redactItems_spec items hvalues hkeys
    exact ⟨.array out,by rw [redactJson,hredact,Option.map_some],.array has⟩
  | object fields =>
    rw [values] at hvalues
    rw [keys] at hkeys
    obtain ⟨out,hredact,has⟩ := redactFields_spec fields hvalues hkeys
    exact ⟨.object out,by rw [redactJson,hredact,Option.map_some],.object has⟩

theorem redactItems_spec (items : List Json) (hvalues : ∀ s ∈ itemValues items, r.Separate s.toList) (hkeys : ∀ k ∈ itemKeys items, r.Clean k) :
    ∃ out, r.redactItems items = some out ∧ ItemsRedacted r items out := by
  cases items with
  | nil => exact ⟨[],by rw [redactItems],.nil⟩
  | cons v items =>
    rw [itemValues] at hvalues
    rw [itemKeys] at hkeys
    obtain ⟨v',hv,hvas⟩ := redactJson_spec v (fun s hs => hvalues s (List.mem_append_left _ hs)) (fun k hk => hkeys k (List.mem_append_left _ hk))
    obtain ⟨out,hitems,has⟩ := redactItems_spec items (fun s hs => hvalues s (List.mem_append_right _ hs)) (fun k hk => hkeys k (List.mem_append_right _ hk))
    exact ⟨v' :: out,by rw [redactItems,hv,hitems]; rfl,.cons hvas has⟩

theorem redactFields_spec (fields : List (String × Json)) (hvalues : ∀ s ∈ fieldValues fields, r.Separate s.toList) (hkeys : ∀ k ∈ fieldKeys fields, r.Clean k) :
    ∃ out, r.redactFields fields = some out ∧ FieldsRedacted r fields out := by
  cases fields with
  | nil => exact ⟨[],by rw [redactFields],.nil⟩
  | cons field fields =>
    obtain ⟨key,v⟩ := field
    rw [fieldValues] at hvalues
    rw [fieldKeys] at hkeys
    obtain ⟨v',hv,hvas⟩ := redactJson_spec v (fun s hs => hvalues s (List.mem_append_left _ hs))
      (fun k hk => hkeys k (List.mem_cons_of_mem _ (List.mem_append_left _ hk)))
    obtain ⟨out,hfields,has⟩ := redactFields_spec fields (fun s hs => hvalues s (List.mem_append_right _ hs))
      (fun k hk => hkeys k (List.mem_cons_of_mem _ (List.mem_append_right _ hk)))
    exact ⟨(key,v') :: out,by rw [redactFields,hv,hfields]; rfl,.cons (redactedAs_self (hkeys key List.mem_cons_self)) hvas has⟩

end

end Document

/-- The built-in patterns, as they match in the texts below. -/
def builtin : Redactor :=
  ⟨[.literal "alice@example.com".toList,.never,.literal "Bearer alice".toList,.never,.never],"[REDACTED]".toList⟩

theorem builtin_separate : builtin.Separate "write to alice@example.com".toList := by
  have honly : ∀ p ∈ builtin.set, ∀ m ∈ p.allMatches "write to alice@example.com".toList, m = (9,26) := by decide
  have hwhole : builtin.Whole "write to alice@example.com".toList (9,26) :=
    ⟨[],_,_,rfl,by decide,fun _ hq => (List.not_mem_nil hq).elim,by decide⟩
  have hone : ∀ m, builtin.Whole "write to alice@example.com".toList m → m = (9,26) := by
    intro m hm
    obtain ⟨p,hp,hmem⟩ := mem_of_whole hm
    exact honly p hp m hmem
  refine ⟨fun p hp m hm => ?_,fun m hm => ?_,fun m hm => ?_⟩
  · rw [honly p hp m hm]
    exact ⟨(9,26),hwhole,le_refl _,le_refl _,.inr rfl⟩
  · rw [hone m hm]
    decide
  · rw [hone m hm]
    decide

end Redactor

end Dwara.Ai
