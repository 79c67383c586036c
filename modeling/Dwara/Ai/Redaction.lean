import Dwara.Lib.Json
import Dwara.Lib.Matching
import Dwara.Lib.TextCursor
import Mathlib.Data.List.Induction

/-! Scrubbing of texts before they are stored. -/

namespace Dwara.Ai
open Dwara.Lib
open TextCursor (utf8Len utf8Len_append utf8Len_pos)

structure RedactionConfig where
  patterns : List String
  replacement : String

def BUILTIN_PATTERNS : List String :=
  ["[a-zA-Z0-9._%+-]+@[a-zA-Z0-9.-]+\\.[a-zA-Z]\x7b2,\x7d",
    "(?:sk|pk|sk-|pk-|AKIA|ghp|gho|xox[baprs])-[a-zA-Z0-9]\x7b20,\x7d",
    "Bearer [a-zA-Z0-9._-]+",
    "\\b\\d\x7b4\x7d[-\\s]?\\d\x7b4\x7d[-\\s]?\\d\x7b4\x7d[-\\s]?\\d\x7b4\x7d\\b",
    "\\+?\\d\x7b1,3\x7d[-.\\s]?\\(?\\d\x7b1,4\x7d\\)?[-.\\s]?\\d\x7b1,4\x7d[-.\\s]?\\d\x7b1,9\x7d"]

structure Redactor where
  set : List Pattern
  replacement : List Char

namespace Redactor

/-- Patterns that do not all compile redact nothing. `regex` is the pattern an expression
stands for. -/
def compile (regex : String → Option Pattern) (cfg : RedactionConfig) : Redactor where
  set := ((BUILTIN_PATTERNS ++ cfg.patterns).mapM regex).getD []
  replacement := if cfg.replacement = "" then "[REDACTED]".toList else cfg.replacement.toList

def inert : Redactor := ⟨[],"[REDACTED]".toList⟩

variable (r : Redactor) (text : List Char)

/-- The first of the leftmost matches. -/
def leftmost (found : List (ℕ × ℕ)) : Option (ℕ × ℕ) :=
  found.foldl (fun earliest m =>
    match earliest with
    | none => some m
    | some m' => if m.1 < m'.1 then some m else some m') none

/-- The earliest match from `cursor` on. The patterns tried are those that match what is left of
the text as a text of its own. -/
def earliest (cursor : ℕ) : Option (ℕ × ℕ) :=
  leftmost ((r.set.filter fun p => p.isMatch (text.drop cursor)).filterMap fun p => p.findAt text cursor)

/-- The loop, for at most so many rounds. -/
def redactFrom : ℕ → ℕ → List Char → Option (List Char)
  | 0, _, _ => none
  | n + 1, cursor, out =>
    if cursor < text.length then
      match r.earliest text cursor with
      | some (s,e) => redactFrom n e (out ++ Spans.slice text cursor s ++ r.replacement)
      | none => some (out ++ text.drop cursor)
    else some out

/-- The byte a place in the text is at. -/
def byteAt (i : ℕ) : ℕ := utf8Len (text.take i)

/-- The byte cursor at the ends of each of at most so many rounds. -/
def lapsFrom : ℕ → ℕ → List (ℕ × ℕ)
  | 0, _ => []
  | n + 1, cursor =>
    if cursor < text.length then
      match r.earliest text cursor with
      | some (_,e) => (byteAt text cursor,byteAt text e) :: lapsFrom n e
      | none => []
    else []

/-- The rounds of a call, as far as `n`. -/
def laps (n : ℕ) : List (ℕ × ℕ) := if r.set.isEmpty then [] else r.lapsFrom text n 0

/-- None stands for a loop without end. -/
def redact : Option (List Char) := if r.set.isEmpty then some text else r.redactFrom text (text.length + 1) 0 []

mutual

def redactJson : Json → Option Json
  | .string s => (r.redact s.toList).map fun out => .string (String.ofList out)
  | .array items => (redactItems items).map .array
  | .object fields => (redactFields fields).map .object
  | other => some other

def redactItems : List Json → Option (List Json)
  | [] => some []
  | v :: items => do return (← redactJson v) :: (← redactItems items)

def redactFields : List (String × Json) → Option (List (String × Json))
  | [] => some []
  | (k,v) :: fields => do return (k,← redactJson v) :: (← redactFields fields)

end

section Leftmost

theorem leftmost_concat (found : List (ℕ × ℕ)) (m : ℕ × ℕ) :
    leftmost (found ++ [m]) =
      match leftmost found with
      | none => some m
      | some m' => if m.1 < m'.1 then some m else some m' := by
  rw [leftmost,List.foldl_append]
  rfl

theorem leftmost_eq_none {found : List (ℕ × ℕ)} (h : leftmost found = none) : found = [] := by
  induction found using List.reverseRecOn with
  | nil => rfl
  | append_singleton found m _ =>
    rw [leftmost_concat] at h
    split at h
    · cases h
    · split at h
      · cases h
      · cases h

/-- The first of those that start first. -/
theorem leftmost_eq_some {found : List (ℕ × ℕ)} {m : ℕ × ℕ} (h : leftmost found = some m) :
    ∃ before after, found = before ++ m :: after ∧ (∀ m' ∈ before, m.1 < m'.1) ∧ ∀ m' ∈ after, m.1 ≤ m'.1 := by
  induction found using List.reverseRecOn generalizing m with
  | nil => cases h
  | append_singleton found x ih =>
    rw [leftmost_concat] at h
    split at h
    · rename_i hnone
      cases h
      exact ⟨[],[],by rw [leftmost_eq_none hnone],fun _ hm => (List.not_mem_nil hm).elim,fun _ hm => (List.not_mem_nil hm).elim⟩
    · rename_i m' hsome
      obtain ⟨before,after,rfl,hbefore,hafter⟩ := ih hsome
      split at h
      · rename_i hlt
        cases h
        refine ⟨_,[],rfl,fun y hy => ?_,fun _ hm => (List.not_mem_nil hm).elim⟩
        rcases List.mem_append.mp hy with hy | hy
        · exact hlt.trans (hbefore y hy)
        · rcases List.mem_cons.mp hy with rfl | hy
          · exact hlt
          · exact lt_of_lt_of_le hlt (hafter y hy)
      · rename_i hle
        cases h
        refine ⟨before,after ++ [x],by rw [List.append_assoc,List.cons_append],hbefore,fun y hy => ?_⟩
        rcases List.mem_append.mp hy with hy | hy
        · exact hafter y hy
        · rw [List.mem_singleton.mp hy]
          exact Nat.le_of_not_lt hle

end Leftmost

section Loop
variable {r : Redactor} {text : List Char}

theorem le_of_earliest {cursor s e : ℕ} (h : r.earliest text cursor = some (s,e)) : cursor ≤ e ∧ e ≤ text.length := by
  obtain ⟨before,after,hfound,-,-⟩ := leftmost_eq_some h
  have hmem : (s,e) ∈ before ++ (s,e) :: after := List.mem_append_right _ List.mem_cons_self
  rw [← hfound] at hmem
  obtain ⟨p,-,hfind⟩ := List.mem_filterMap.mp hmem
  obtain ⟨hle,hmatch,-⟩ := Pattern.findAt_eq_some hfind
  exact ⟨hle.trans (p.start_le hmatch),p.le_length hmatch⟩

/-- A match without characters at the cursor leaves the loop where it is. -/
theorem redactFrom_stuck {cursor s : ℕ} (hcursor : cursor < text.length) (h : r.earliest text cursor = some (s,cursor)) (n : ℕ) (out : List Char) :
    r.redactFrom text n cursor out = none := by
  induction n generalizing out with
  | zero => rfl
  | succ n ih =>
    rw [redactFrom,if_pos hcursor,h]
    exact ih _

/-- A loop that ends, ends within as many rounds as there are characters left, and one. -/
theorem redactFrom_of_some {n cursor : ℕ} {out result : List Char} (h : r.redactFrom text n cursor out = some result)
    (hcursor : cursor ≤ text.length) {k : ℕ} (hk : text.length < k + cursor) : r.redactFrom text k cursor out = some result := by
  induction n generalizing cursor out k with
  | zero => cases h
  | succ n ih =>
    cases k with
    | zero => omega
    | succ k =>
      by_cases hlt : cursor < text.length
      · rw [redactFrom,if_pos hlt] at h ⊢
        cases hearliest : r.earliest text cursor with
        | none => rw [hearliest] at h; exact h
        | some m =>
          obtain ⟨s,e⟩ := m
          rw [hearliest] at h
          obtain ⟨hle,hlength⟩ := le_of_earliest hearliest
          rcases Nat.lt_or_eq_of_le hle with hadvance | rfl
          · exact ih h hlength (by omega)
          · have hstuck := redactFrom_stuck hlt hearliest n (out ++ Spans.slice text cursor s ++ r.replacement)
            cases hstuck.symm.trans h
      · rw [redactFrom,if_neg hlt] at h ⊢
        exact h

theorem redact_eq_some {result : List Char} (hset : r.set.isEmpty = false) :
    r.redact text = some result ↔ ∃ n, r.redactFrom text n 0 [] = some result := by
  rw [redact,hset,if_neg Bool.false_ne_true]
  exact ⟨fun h => ⟨_,h⟩,fun ⟨_,h⟩ => redactFrom_of_some h (Nat.zero_le _) (by omega)⟩

end Loop

section Ends
variable (r : Redactor) (text : List Char)

/-- Some pattern that matches what is left from `cursor` on as a text of its own matches from `s`
to `e`; none of these matches from further left, and none before it in the list from there. -/
def IsFirst (cursor s e : ℕ) : Prop :=
  cursor ≤ s ∧
    (∀ s', cursor ≤ s' → s' < s → ∀ p ∈ r.set, p.isMatch (text.drop cursor) → p.matchAt text s' = none) ∧
    ∃ p, (r.set.filter fun p => p.isMatch (text.drop cursor)).find? (fun p => (p.matchAt text s).isSome) = some p ∧
      p.matchAt text s = some e

/-- The ends of the first match, of the first behind it, and so on; the start of the text before them. -/
inductive Resumes : ℕ → Prop where
  | start : Resumes 0
  | behind {cursor s e : ℕ} : Resumes cursor → cursor < text.length → r.IsFirst text cursor s e → Resumes e

/-- Somewhere before the end of the text, the first match from where another ended is empty and there. -/
def StandsStill : Prop := ∃ cursor, r.Resumes text cursor ∧ cursor < text.length ∧ r.IsFirst text cursor cursor cursor

def IsBoundary (pos : ℕ) : Prop := ∃ front rest, text = front ++ rest ∧ pos = utf8Len front

/-- The loop is left, and each of its rounds moves the cursor on, from one character's end to another's. -/
def Ends : Prop :=
  (r.redact text).isSome ∧ ∀ n, ∀ lap ∈ r.laps text n, lap.1 < lap.2 ∧ IsBoundary text lap.1 ∧ IsBoundary text lap.2

variable {r text}

private theorem IsFirst.unique {cursor s e s' e' : ℕ} (h : r.IsFirst text cursor s e) (h' : r.IsFirst text cursor s' e') : (s,e) = (s',e') := by
  obtain ⟨hle,hnone,p,hfind,hmatch⟩ := h
  obtain ⟨hle',hnone',p',hfind',hmatch'⟩ := h'
  have hmem : ∀ {q : Pattern} {k : ℕ}, (r.set.filter fun p => p.isMatch (text.drop cursor)).find? (fun p => (p.matchAt text k).isSome) = some q →
      q ∈ r.set ∧ q.isMatch (text.drop cursor) := fun hq => List.mem_filter.mp (List.mem_of_find?_eq_some hq)
  obtain hlt | rfl | hgt := Nat.lt_trichotomy s s'
  · rw [hnone' s hle hlt p (hmem hfind).1 (hmem hfind).2] at hmatch
    cases hmatch
  · rw [hfind] at hfind'
    obtain rfl := Option.some.inj hfind'
    rw [hmatch] at hmatch'
    rw [Option.some.inj hmatch']
  · rw [hnone s' hle' hgt p' (hmem hfind').1 (hmem hfind').2] at hmatch'
    cases hmatch'

private theorem isFirst_of_earliest {cursor s e : ℕ} (h : r.earliest text cursor = some (s,e)) : r.IsFirst text cursor s e := by
  obtain ⟨before,after,hfound,hbefore,hafter⟩ := leftmost_eq_some h
  obtain ⟨l₁,l₂,hset,hl₁,hl₂⟩ := List.filterMap_eq_append_iff.mp hfound
  obtain ⟨l₃,p,l₄,rfl,hl₃,hp,hl₄⟩ := List.filterMap_eq_cons_iff.mp hl₂
  obtain ⟨hle,hmatch,hleft⟩ := Pattern.findAt_eq_some hp
  have hmin : ∀ q ∈ r.set, q.isMatch (text.drop cursor) → ∀ m, q.findAt text cursor = some m → s ≤ m.1 := by
    intro q hq hsel m hm
    have hmem : m ∈ before ++ (s,e) :: after := by
      rw [← hfound]
      exact List.mem_filterMap.mpr ⟨q,List.mem_filter.mpr ⟨hq,hsel⟩,hm⟩
    rcases List.mem_append.mp hmem with hm | hm
    · exact Nat.le_of_lt (hbefore m hm)
    · rcases List.mem_cons.mp hm with rfl | hm
      · exact le_refl s
      · exact hafter m hm
  refine ⟨hle,fun s' hcursor hlt q hq hsel => ?_,p,?_,hmatch⟩
  · by_contra hsome
    obtain ⟨m,hm⟩ := Option.isSome_iff_exists.mp (Pattern.isSome_findAt hcursor (Option.isSome_iff_ne_none.mpr hsome))
    have hs := hmin q hq hsel m hm
    have hs' := Pattern.le_of_findAt hm hcursor (Option.isSome_iff_ne_none.mpr hsome)
    omega
  · refine List.find?_eq_some_iff_append.mpr ⟨by rw [hmatch]; rfl,l₁ ++ l₃,l₄,by rw [hset,List.append_assoc],fun q hq => ?_⟩
    have hnone : q.matchAt text s = none := by
      by_contra hsome
      have hsome' := Option.isSome_iff_ne_none.mpr hsome
      obtain ⟨m,hm⟩ := Option.isSome_iff_exists.mp (Pattern.isSome_findAt hle hsome')
      rcases List.mem_append.mp hq with hq | hq
      · have hlt := hbefore m (hl₁ ▸ List.mem_filterMap.mpr ⟨q,hq,hm⟩)
        have hles := Pattern.le_of_findAt hm hle hsome'
        omega
      · rw [hl₃ q hq] at hm
        cases hm
    rw [hnone]
    rfl

private theorem earliest_eq_some_iff {cursor s e : ℕ} : r.earliest text cursor = some (s,e) ↔ r.IsFirst text cursor s e := by
  refine ⟨isFirst_of_earliest,fun h => ?_⟩
  obtain ⟨hle,-,p,hfind,hmatch⟩ := id h
  cases hearliest : r.earliest text cursor with
  | none =>
    have hempty := List.filterMap_eq_nil_iff.mp (leftmost_eq_none hearliest) p (List.mem_of_find?_eq_some hfind)
    rw [Pattern.findAt_eq_none hempty hle] at hmatch
    cases hmatch
  | some m => rw [h.unique (isFirst_of_earliest hearliest)]

private theorem byteAt_lt {i j : ℕ} (h : i < j) (hj : j ≤ text.length) : byteAt text i < byteAt text j := by
  have hsplit : text.take j = text.take i ++ (text.drop i).take (j - i) := by
    rw [← List.take_add]
    congr 1
    omega
  have hpos := utf8Len_pos (w := (text.drop i).take (j - i)) (fun hnil => by
    have hlen := congrArg List.length hnil
    rw [List.length_take,List.length_drop,List.length_nil] at hlen
    omega)
  rw [byteAt,byteAt,hsplit,utf8Len_append]
  omega

private theorem isBoundary_byteAt (i : ℕ) : IsBoundary text (byteAt text i) :=
  ⟨text.take i,text.drop i,(List.take_append_drop i text).symm,rfl⟩

section Moves
variable (hmoves : ¬ r.StandsStill text)
include hmoves

/-- A round from where the loop resumes takes some characters. -/
private theorem lt_of_earliest {cursor s e : ℕ} (hcursor : r.Resumes text cursor) (hlt : cursor < text.length)
    (h : r.earliest text cursor = some (s,e)) : cursor < e := by
  have hfirst := isFirst_of_earliest h
  rcases Nat.lt_or_eq_of_le (le_of_earliest h).1 with hadvance | rfl
  · exact hadvance
  · obtain ⟨hle,-,p,-,hmatch⟩ := id hfirst
    obtain rfl := Nat.le_antisymm hle (p.start_le hmatch)
    exact absurd ⟨cursor,hcursor,hlt,hfirst⟩ hmoves

private theorem isSome_redactFrom {n cursor : ℕ} (hcursor : r.Resumes text cursor) (hn : text.length < n + cursor) (hle : cursor ≤ text.length)
    (out : List Char) : (r.redactFrom text n cursor out).isSome := by
  induction n generalizing cursor out with
  | zero => omega
  | succ n ih =>
    rw [redactFrom]
    split
    · rename_i hlt
      cases hearliest : r.earliest text cursor with
      | none => rfl
      | some m =>
        obtain ⟨s,e⟩ := m
        have hadvance := lt_of_earliest hmoves hcursor hlt hearliest
        exact ih (hcursor.behind hlt (isFirst_of_earliest hearliest)) (by omega) (le_of_earliest hearliest).2 _
    · rfl

private theorem forward_lapsFrom (n : ℕ) {cursor : ℕ} (hcursor : r.Resumes text cursor) :
    ∀ lap ∈ r.lapsFrom text n cursor, lap.1 < lap.2 ∧ IsBoundary text lap.1 ∧ IsBoundary text lap.2 := by
  induction n generalizing cursor with
  | zero => simp [lapsFrom]
  | succ n ih =>
    rw [lapsFrom]
    split
    · rename_i hlt
      cases hearliest : r.earliest text cursor with
      | none => simp
      | some m =>
        obtain ⟨s,e⟩ := m
        intro lap hlap
        rcases List.mem_cons.mp hlap with rfl | hlap
        · exact ⟨byteAt_lt (lt_of_earliest hmoves hcursor hlt hearliest) (le_of_earliest hearliest).2,isBoundary_byteAt _,isBoundary_byteAt _⟩
        · exact ih (hcursor.behind hlt (isFirst_of_earliest hearliest)) lap hlap
    · simp

end Moves

/-- The loop gets to where it resumes. -/
private theorem lapsFrom_resumes {cursor : ℕ} (h : r.Resumes text cursor) : ∃ k, ∀ n, ∀ lap ∈ r.lapsFrom text n cursor, lap ∈ r.lapsFrom text (k + n) 0 := by
  induction h with
  | start => exact ⟨0,fun n lap hlap => by rwa [Nat.zero_add]⟩
  | behind _ hlt hfirst ih =>
    obtain ⟨k,hk⟩ := ih
    refine ⟨k + 1,fun n lap hlap => ?_⟩
    rw [Nat.add_assoc,Nat.add_comm 1 n]
    refine hk (n + 1) lap ?_
    rw [lapsFrom,if_pos hlt,earliest_eq_some_iff.mpr hfirst]
    exact List.mem_cons_of_mem _ hlap

private theorem not_ends (h : r.StandsStill text) : ¬ r.Ends text := by
  rintro ⟨-,hlaps⟩
  obtain ⟨cursor,hcursor,hlt,hfirst⟩ := h
  obtain ⟨k,hk⟩ := lapsFrom_resumes hcursor
  have hset : r.set.isEmpty = false := by
    obtain ⟨-,-,p,hfind,-⟩ := hfirst
    have hmem := List.mem_of_mem_filter (List.mem_of_find?_eq_some hfind)
    cases hset : r.set with
    | nil =>
      rw [hset] at hmem
      cases hmem
    | cons q qs => rfl
  have hlap : (byteAt text cursor,byteAt text cursor) ∈ r.laps text (k + 1) := by
    rw [laps,hset,if_neg Bool.false_ne_true]
    refine hk 1 _ ?_
    rw [lapsFrom,if_pos hlt,earliest_eq_some_iff.mpr hfirst]
    exact List.mem_cons_self
  exact Nat.lt_irrefl _ (hlaps (k + 1) _ hlap).1

/-- Redaction ends, always moving on, exactly when it nowhere resumes at an empty first match. -/
theorem redact_ends_iff (r : Redactor) (text : List Char) : r.Ends text ↔ ¬ r.StandsStill text := by
  refine ⟨fun hends hstill => not_ends hstill hends,fun hmoves => ?_⟩
  cases hset : r.set.isEmpty with
  | true =>
    refine ⟨by rw [redact,hset]; rfl,fun n lap hlap => ?_⟩
    rw [laps,hset] at hlap
    cases hlap
  | false =>
    refine ⟨?_,fun n lap hlap => ?_⟩
    · rw [redact,hset,if_neg Bool.false_ne_true]
      exact isSome_redactFrom hmoves .start (by omega) (Nat.zero_le _) []
    · rw [laps,hset,if_neg Bool.false_ne_true] at hlap
      exact forward_lapsFrom hmoves n .start lap hlap

/-- The patterns as they match in a text of letters other than `x`. -/
def starRegex (source : String) : Option Pattern :=
  if source = "x*" then some (.literal []) else some .never

/-- The pattern `x*` matches no characters at the start of `a`, again and again. -/
theorem star_never_ends : ¬ ∀ (regex : String → Option Pattern) (cfg : RedactionConfig) (text : List Char),
    (∀ source ∈ BUILTIN_PATTERNS ++ cfg.patterns, (regex source).isSome) → (compile regex cfg).Ends text := by
  intro h
  have hstill : (compile starRegex ⟨["x*"],""⟩).StandsStill ['a'] := ⟨0,.start,by decide,earliest_eq_some_iff.mp (by decide)⟩
  refine not_ends hstill (h starRegex ⟨["x*"],""⟩ ['a'] (fun source _ => ?_))
  rw [starRegex]
  split
  · rfl
  · rfl

end Ends

end Redactor

end Dwara.Ai
