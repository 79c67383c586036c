import Dwara.Lib.Text

/-! Parsers that move a cursor over a text and go round loops: what they take of it, and
whether they come back. -/

namespace Dwara.Lib.TextCursor
open Text

def utf8Len : List Char → ℕ
  | [] => 0
  | c :: cs => c.utf8Size + utf8Len cs

/-- The front of `n` bytes and what follows it, when a character ends there. -/
def splitBytes : ℕ → List Char → Option (List Char × List Char)
  | 0, cs => some ([],cs)
  | _ + 1, [] => none
  | n + 1, c :: cs =>
    if c.utf8Size ≤ n + 1 then (splitBytes (n + 1 - c.utf8Size) cs).map fun (front,rest) => (c :: front,rest) else none

/-- The bytes from `i` to `j`, when characters end at both. -/
def slice (i j : ℕ) (cs : List Char) : Option (List Char) :=
  if i ≤ j then (splitBytes j cs).bind fun (front,_) => (splitBytes i front).map Prod.snd else none

/-- The byte the first occurrence of a pattern starts at. -/
def find (pattern cs : List Char) : Option ℕ := (splitOnceAt pattern cs).map fun parts => utf8Len parts.1

/-- A place in a text: what stands before it, and what stands behind it. -/
structure Cursor where
  read : List Char
  rest : List Char
  deriving DecidableEq, Repr

def Cursor.pos (p : Cursor) : ℕ := utf8Len p.read

/-- How a call ended: not yet within its budget of laps, by a panic, or by coming back. -/
inductive Ended (ε α : Type) where
  | running
  | panicked
  | failed (e : ε)
  | returned (a : α) (p : Cursor)

/-- A call, with where the cursor stood at the ends of each lap of its loops. -/
structure Parsed (ε α : Type) where
  laps : List (ℕ × ℕ)
  ended : Ended ε α

def Parser (ε α : Type) := Cursor → Parsed ε α

section Model
variable {ε α β σ : Type}

/-- Goes on where a call came back. -/
def Parsed.andThen (r : Parsed ε α) (k : α → Cursor → Parsed ε β) : Parsed ε β :=
  match r.ended with
  | .running => ⟨r.laps,.running⟩
  | .panicked => ⟨r.laps,.panicked⟩
  | .failed e => ⟨r.laps,.failed e⟩
  | .returned a p => ⟨r.laps ++ (k a p).laps,(k a p).ended⟩

instance : Monad (Parser ε) where
  pure a := fun p => ⟨[],.returned a p⟩
  bind m f := fun p => (m p).andThen f

def fail (e : ε) : Parser ε α := fun _ => ⟨[],.failed e⟩

def crash : Parser ε α := fun _ => ⟨[],.panicked⟩

def cursor : Parser ε Cursor := fun p => ⟨[],.returned p p⟩

def remaining : Parser ε (List Char) := fun p => ⟨[],.returned p.rest p⟩

def peek : Parser ε (Option Char) := fun p => ⟨[],.returned p.rest.head? p⟩

/-- Moves the cursor on by `n` bytes; the text cannot be cut within a character. -/
def advance (n : ℕ) : Parser ε Unit := fun p =>
  match splitBytes n p.rest with
  | some (front,rest) => ⟨[],.returned () ⟨p.read ++ front,rest⟩⟩
  | none => ⟨[],.panicked⟩

/-- Goes round with a new state, or leaves the loop; at most `n` laps. -/
def loop (body : σ → Parser ε (σ ⊕ α)) : ℕ → σ → Parser ε α
  | 0, _ => fun _ => ⟨[],.running⟩
  | n + 1, s => fun p => (body s p).andThen fun turn p' =>
    match turn with
    | .inl s' => ⟨(p.pos,p'.pos) :: (loop body n s' p').laps,(loop body n s' p').ended⟩
    | .inr a => ⟨[],.returned a p'⟩

/-- Moves the cursor on while the character at it is one to keep. -/
def skipWhile (keep : Char → Bool) (n : ℕ) : Parser ε Unit :=
  loop (fun _ => do
    match ← peek with
    | some c =>
      if keep c then
        advance c.utf8Size
        pure (.inl ())
      else pure (.inr ())
    | none => pure (.inr ())) n ()

end Model

section Reading
variable {ε α : Type}

theorem peek_bind (f : Option Char → Parser ε α) (p : Cursor) : (peek >>= f) p = f p.rest.head? p := rfl
theorem remaining_bind (f : List Char → Parser ε α) (p : Cursor) : (remaining >>= f) p = f p.rest p := rfl
theorem cursor_bind (f : Cursor → Parser ε α) (p : Cursor) : (cursor >>= f) p = f p p := rfl

end Reading

@[simp] theorem utf8Len_append (v w : List Char) : utf8Len (v ++ w) = utf8Len v + utf8Len w := by
  induction v with
  | nil => exact (Nat.zero_add _).symm
  | cons c v ih => rw [List.cons_append,utf8Len,ih,utf8Len,Nat.add_assoc]

theorem utf8Len_pos {w : List Char} (h : w ≠ []) : 0 < utf8Len w := by
  cases w with
  | nil => exact absurd rfl h
  | cons c w =>
    have hc := c.utf8Size_pos
    rw [utf8Len]
    omega

/-- A front that ends with a character is cut off. -/
theorem splitBytes_append (w rest : List Char) : splitBytes (utf8Len w) (w ++ rest) = some (w,rest) := by
  induction w with
  | nil =>
    cases rest with
    | nil => rfl
    | cons c rest => rfl
  | cons c w ih =>
    have hc := c.utf8Size_pos
    obtain ⟨n,hn⟩ : ∃ n, utf8Len (c :: w) = n + 1 := ⟨utf8Len (c :: w) - 1,by rw [utf8Len]; omega⟩
    have hrest : n + 1 - c.utf8Size = utf8Len w := by
      rw [← hn,utf8Len]
      omega
    rw [hn,List.cons_append,splitBytes,if_pos (by rw [← hn,utf8Len]; omega),hrest,ih]
    rfl

theorem slice_append (v w rest : List Char) : slice (utf8Len v) (utf8Len (v ++ w)) (v ++ (w ++ rest)) = some w := by
  rw [slice,if_pos (by rw [utf8Len_append]; omega),← List.append_assoc,splitBytes_append]
  show (splitBytes (utf8Len v) (v ++ w)).map Prod.snd = some w
  rw [splitBytes_append]
  rfl

section Occurrences
variable {pattern cs before after : List Char}

theorem eq_of_splitOnceAt (h : splitOnceAt pattern cs = some (before,after)) : cs = before ++ (pattern ++ after) := by
  induction cs generalizing before with
  | nil =>
    rw [splitOnceAt] at h
    split at h
    · rename_i hnil
      obtain ⟨rfl,rfl⟩ := Prod.mk.inj (Option.some.inj h)
      rw [hnil]
      rfl
    · cases h
  | cons c cs ih =>
    rw [splitOnceAt] at h
    split at h
    · rename_i hstart
      obtain ⟨rfl,rfl⟩ := Prod.mk.inj (Option.some.inj h)
      obtain ⟨rest,hrest⟩ := List.isPrefixOf_iff_prefix.mp hstart
      rw [← hrest,List.drop_left]
      rfl
    · obtain ⟨⟨b,a⟩,hcs,heq⟩ := Option.map_eq_some_iff.mp h
      obtain ⟨rfl,rfl⟩ := Prod.mk.inj heq
      rw [ih hcs]
      rfl

/-- The first occurrence is the first up to where it ends. -/
theorem splitOnceAt_cut (h : splitOnceAt pattern cs = some (before,after)) (hne : pattern ≠ []) :
    splitOnceAt pattern (before ++ pattern) = some (before,[]) := by
  induction cs generalizing before with
  | nil =>
    rw [splitOnceAt,if_neg hne] at h
    cases h
  | cons c cs ih =>
    have hcs := eq_of_splitOnceAt h
    rw [splitOnceAt] at h
    split at h
    · obtain ⟨rfl,rfl⟩ := Prod.mk.inj (Option.some.inj h)
      obtain ⟨a,as,rfl⟩ := List.exists_cons_of_ne_nil hne
      rw [List.nil_append,splitOnceAt,if_pos (List.isPrefixOf_iff_prefix.mpr (List.prefix_refl _)),List.drop_length]
    · rename_i hstart
      obtain ⟨⟨b,a⟩,hsplit,heq⟩ := Option.map_eq_some_iff.mp h
      obtain ⟨rfl,rfl⟩ := Prod.mk.inj heq
      have hnot : ¬ pattern.isPrefixOf (c :: (b ++ pattern)) := by
        intro hp
        refine hstart (List.isPrefixOf_iff_prefix.mpr ?_)
        rw [hcs,← List.append_assoc]
        exact (List.isPrefixOf_iff_prefix.mp hp).trans (List.prefix_append _ _)
      rw [List.cons_append,splitOnceAt,if_neg hnot,ih hsplit]
      rfl

/-- What follows the first occurrence does not matter for where it is. -/
theorem splitOnceAt_extend (h : splitOnceAt pattern cs = some (before,after)) (hne : pattern ≠ []) (rest : List Char) :
    splitOnceAt pattern (cs ++ rest) = some (before,after ++ rest) := by
  induction cs generalizing before with
  | nil =>
    rw [splitOnceAt,if_neg hne] at h
    cases h
  | cons c cs ih =>
    rw [splitOnceAt] at h
    split at h
    · rename_i hstart
      obtain ⟨rfl,rfl⟩ := Prod.mk.inj (Option.some.inj h)
      have hp := List.isPrefixOf_iff_prefix.mp hstart
      have hall : pattern.isPrefixOf (c :: (cs ++ rest)) = true :=
        List.isPrefixOf_iff_prefix.mpr (hp.trans (List.prefix_append (c :: cs) rest))
      rw [List.cons_append,splitOnceAt,if_pos hall,← List.cons_append,List.drop_append_of_le_length hp.length_le]
    · rename_i hstart
      obtain ⟨⟨b,a⟩,hsplit,heq⟩ := Option.map_eq_some_iff.mp h
      obtain ⟨rfl,rfl⟩ := Prod.mk.inj heq
      have hnot : ¬ pattern.isPrefixOf (c :: (cs ++ rest)) := by
        intro hp
        refine hstart (List.isPrefixOf_iff_prefix.mpr ?_)
        refine List.prefix_of_prefix_length_le (List.isPrefixOf_iff_prefix.mp hp) (List.prefix_append (c :: cs) rest) ?_
        have hlen := congrArg List.length (eq_of_splitOnceAt hsplit)
        simp only [List.length_append,List.length_cons] at hlen ⊢
        omega
      rw [List.cons_append,splitOnceAt,if_neg hnot,ih hsplit]
      rfl

end Occurrences

/-- The text `w` stands between one place and another. -/
def Leads (p : Cursor) (w : List Char) (p' : Cursor) : Prop := p'.read = p.read ++ w ∧ p.rest = w ++ p'.rest

theorem Leads.refl (p : Cursor) : Leads p [] p := ⟨(List.append_nil _).symm,rfl⟩

theorem Leads.trans {p q r : Cursor} {v w : List Char} (h : Leads p v q) (h' : Leads q w r) : Leads p (v ++ w) r :=
  ⟨by rw [h'.1,h.1,List.append_assoc],by rw [h.2,h'.2,List.append_assoc]⟩

theorem Leads.length_le {p q : Cursor} {w : List Char} (h : Leads p w q) : q.rest.length + w.length = p.rest.length := by
  rw [h.2,List.length_append,Nat.add_comm]

theorem Leads.text_eq {p q : Cursor} {w : List Char} (h : Leads p w q) : q.read ++ q.rest = p.read ++ p.rest := by
  rw [h.1,h.2,List.append_assoc]

/-- A lap over characters of the text, from the end of one to the end of another. -/
def Forward (text : List Char) (lap : ℕ × ℕ) : Prop :=
  ∃ v w rest, text = v ++ (w ++ rest) ∧ w ≠ [] ∧ lap = (utf8Len v,utf8Len (v ++ w))

theorem Leads.forward {p q : Cursor} {w : List Char} (h : Leads p w q) (hw : w ≠ []) :
    Forward (p.read ++ p.rest) (p.pos,q.pos) :=
  ⟨p.read,w,q.rest,by rw [h.2],hw,by rw [Cursor.pos,Cursor.pos,h.1]⟩

theorem Forward.lt {text : List Char} {lap : ℕ × ℕ} (h : Forward text lap) : lap.1 < lap.2 := by
  obtain ⟨v,w,rest,-,hw,rfl⟩ := h
  have hpos := utf8Len_pos hw
  simp only [utf8Len_append]
  omega

section Rules
variable {ε α β σ : Type}

/-- From `p`, with a budget of `n` laps for each loop: no panic, every lap goes forward, the
budget suffices when it exceeds the text, and what comes back is as `Q` says. -/
structure Safe (p : Cursor) (n : ℕ) (Q : α → List Char → Cursor → Prop) (r : Parsed ε α) : Prop where
  laps : ∀ lap ∈ r.laps, Forward (p.read ++ p.rest) lap
  panicked : r.ended ≠ .panicked
  running : (p.read ++ p.rest).length < n → r.ended ≠ .running
  returned : ∀ a q, r.ended = .returned a q → ∃ w, Leads p w q ∧ Q a w q

variable {p : Cursor} {n : ℕ} {Q : α → List Char → Cursor → Prop} {R : β → List Char → Cursor → Prop}

theorem safe_failed (e : ε) : Safe p n Q (⟨[],.failed e⟩ : Parsed ε α) :=
  ⟨by simp,by simp,by simp,by simp⟩

theorem safe_returned {a : α} {w : List Char} {q : Cursor} (h : Leads p w q) (hQ : Q a w q) :
    Safe p n Q (⟨[],.returned a q⟩ : Parsed ε α) :=
  ⟨by simp,by simp,by simp,fun a' q' he => by
    obtain ⟨rfl,rfl⟩ := Ended.returned.inj he
    exact ⟨w,h,hQ⟩⟩

theorem safe_pure {a : α} (hQ : Q a [] p) : Safe p n Q ((pure a : Parser ε α) p) := safe_returned (Leads.refl p) hQ

/-- What holds from a place further on holds from here. -/
theorem Safe.shift {q : Cursor} {w : List Char} {r : Parsed ε α} (hlead : Leads p w q)
    (h : Safe q n (fun a v => Q a (w ++ v)) r) : Safe p n Q r := by
  refine ⟨fun lap hlap => hlead.text_eq ▸ h.laps lap hlap,h.panicked,fun hn => h.running (hlead.text_eq ▸ hn),fun a q' he => ?_⟩
  obtain ⟨v,hv,hQ⟩ := h.returned a q' he
  exact ⟨w ++ v,hlead.trans hv,hQ⟩

theorem Safe.andThen {r : Parsed ε α} {k : α → Cursor → Parsed ε β} (h : Safe p n Q r)
    (hk : ∀ a w q, Leads p w q → Q a w q → Safe q n (fun b v => R b (w ++ v)) (k a q)) : Safe p n R (r.andThen k) := by
  rw [Parsed.andThen]
  cases he : r.ended with
  | running => exact ⟨h.laps,by simp,fun hn => absurd he (h.running hn),by simp⟩
  | panicked => exact absurd he h.panicked
  | failed e => exact ⟨h.laps,by simp,by simp,by simp⟩
  | returned a q =>
    obtain ⟨w,hlead,hQ⟩ := h.returned a q he
    have hrest := (hk a w q hlead hQ).shift hlead
    refine ⟨fun lap hlap => ?_,hrest.panicked,hrest.running,hrest.returned⟩
    rcases List.mem_append.mp hlap with hlap | hlap
    · exact h.laps lap hlap
    · exact hrest.laps lap hlap

theorem Safe.bind {m : Parser ε α} {f : α → Parser ε β} (h : Safe p n Q (m p))
    (hf : ∀ a w q, Leads p w q → Q a w q → Safe q n (fun b v => R b (w ++ v)) (f a q)) : Safe p n R ((m >>= f) p) :=
  h.andThen hf

theorem Safe.mono {Q' : α → List Char → Cursor → Prop} {r : Parsed ε α} (h : Safe p n Q r)
    (hQ : ∀ a w q, Leads p w q → Q a w q → Q' a w q) : Safe p n Q' r :=
  ⟨h.laps,h.panicked,h.running,fun a q he => by
    obtain ⟨w,hlead,hw⟩ := h.returned a q he
    exact ⟨w,hlead,hQ a w q hlead hw⟩⟩

theorem safe_advance {w rest : List Char} (h : p.rest = w ++ rest) :
    Safe p n (fun _ v q => v = w ∧ q.rest = rest) ((advance (utf8Len w) : Parser ε Unit) p) := by
  rw [advance,h,splitBytes_append]
  exact safe_returned ⟨rfl,h⟩ ⟨rfl,rfl⟩

section Loops
variable {body : σ → Parser ε (σ ⊕ α)} {I : σ → List Char → Cursor → Prop}
  (hbody : ∀ s w q, Leads p w q → I s w q →
    Safe q n (fun turn v q' => match turn with | .inl s' => v ≠ [] ∧ I s' (w ++ v) q' | .inr a => Q a (w ++ v) q') (body s q))
include hbody

private theorem safe_laps (m k : ℕ) {s : σ} {w : List Char} {q : Cursor} (hlead : Leads p w q) (hI : I s w q)
    (hk : (p.read ++ p.rest).length < k → (p.read ++ p.rest).length < n ∧ q.rest.length < m) :
    Safe q k (fun a v => Q a (w ++ v)) (loop body m s q) := by
  induction m generalizing s w q with
  | zero => exact ⟨by simp [loop],by simp [loop],fun hn => absurd (hk (hlead.text_eq ▸ hn)).2 (Nat.not_lt_zero _),by simp [loop]⟩
  | succ m ih =>
    have h := hbody s w q hlead hI
    have hbudget : Safe q k _ (body s q) :=
      ⟨h.laps,h.panicked,fun hn => h.running (hlead.text_eq ▸ (hk (hlead.text_eq ▸ hn)).1),h.returned⟩
    refine hbudget.andThen fun turn v q' hv hturn => ?_
    cases turn with
    | inr a =>
      refine safe_returned (Leads.refl q') ?_
      rw [List.append_nil]
      exact hturn
    | inl s' =>
      obtain ⟨hne,hI'⟩ := hturn
      have hpos := List.length_pos_iff.mpr hne
      have hle := hv.length_le
      have hrec := ih (hlead.trans hv) hI' fun hn => ⟨(hk hn).1,by have hm := (hk hn).2; omega⟩
      refine ⟨fun lap hlap => ?_,hrec.panicked,hrec.running,fun a q'' he => ?_⟩
      · rcases List.mem_cons.mp hlap with rfl | hlap
        · exact hv.text_eq ▸ hv.forward hne
        · exact hrec.laps lap hlap
      · obtain ⟨u,hu,hQ⟩ := hrec.returned a q'' he
        rw [List.append_assoc] at hQ
        exact ⟨u,hu,hQ⟩

/-- A loop keeps what each lap keeps, and comes back when every lap takes something. -/
theorem safe_loop {s : σ} (hinit : I s [] p) : Safe p n Q (loop body n s p) := by
  refine safe_laps hbody n n (Leads.refl p) hinit fun hn => ⟨hn,?_⟩
  rw [List.length_append] at hn
  omega

end Loops

private theorem advance_char {c : Char} {rest : List Char} (h : p.rest = c :: rest) :
    Safe p n (fun _ v q => v = [c] ∧ q.rest = rest) ((advance c.utf8Size : Parser ε Unit) p) :=
  safe_advance (w := [c]) h

/-- What is to be kept is skipped, up to the first character that is not. -/
theorem safe_skipWhile (keep : Char → Bool) :
    Safe p n (fun _ w q => w = p.rest.takeWhile keep ∧ q.rest = p.rest.dropWhile keep) ((skipWhile keep n : Parser ε Unit) p) := by
  refine safe_loop (I := fun _ w q => p.rest.takeWhile keep = w ++ q.rest.takeWhile keep ∧ p.rest.dropWhile keep = q.rest.dropWhile keep)
    (fun _ w q hlead hI => ?_) ⟨rfl,rfl⟩
  obtain ⟨htake,hdrop⟩ := hI
  rw [htake,hdrop]
  rw [peek_bind]
  cases hrest : q.rest with
  | nil => exact safe_pure ⟨rfl,hrest⟩
  | cons c cs =>
    rw [List.head?_cons]
    cases hkeep : keep c with
    | false =>
      simp only [hkeep,Bool.false_eq_true,if_false]
      exact safe_pure ⟨by simp [hkeep],by simp [hkeep,hrest]⟩
    | true =>
      simp only [hkeep,if_true]
      refine (advance_char hrest).bind fun _ v q' _ ⟨hv,hq'⟩ => safe_pure ?_
      subst hv
      exact ⟨by simp,by simp [hkeep,hq'],by simp [hkeep,hq']⟩

end Rules

section Runs
variable {ε α β σ : Type}

theorem ended_andThen {r : Parsed ε α} {a : α} {q : Cursor} (h : r.ended = .returned a q) (k : α → Cursor → Parsed ε β) :
    (r.andThen k).ended = (k a q).ended := by
  rw [Parsed.andThen,h]

theorem running_andThen {r : Parsed ε α} (h : r.ended = .running) (k : α → Cursor → Parsed ε β) : (r.andThen k).ended = .running := by
  rw [Parsed.andThen,h]

theorem ended_bind {m : Parser ε α} {f : α → Parser ε β} {p q : Cursor} {a : α} (h : (m p).ended = .returned a q) :
    ((m >>= f) p).ended = (f a q).ended :=
  ended_andThen h _

variable {body : σ → Parser ε (σ ⊕ α)} {n : ℕ} {s s' : σ} {p q : Cursor}

theorem ended_lap (h : (body s p).ended = .returned (.inl s') q) : (loop body (n + 1) s p).ended = (loop body n s' q).ended :=
  ended_andThen h _

theorem ended_leave {a : α} (h : (body s p).ended = .returned (.inr a) q) : (loop body (n + 1) s p).ended = .returned a q :=
  ended_andThen h _

/-- A lap that changes nothing is gone round for ever. -/
theorem running_of_stuck (h : (body s p).ended = .returned (.inl s) p) (n : ℕ) : (loop body n s p).ended = .running := by
  induction n with
  | zero => rfl
  | succ n ih => rw [ended_lap h,ih]

theorem ended_advance (before w rest : List Char) :
    ((advance (utf8Len w) : Parser ε Unit) ⟨before,w ++ rest⟩).ended = .returned () ⟨before ++ w,rest⟩ := by
  rw [advance,splitBytes_append]

theorem ended_skipWhile {keep : Char → Bool} {w rest : List Char} (hw : ∀ c ∈ w, keep c) (hrest : ∀ c ∈ rest.head?, keep c = false)
    {n : ℕ} (hn : w.length < n) (before : List Char) :
    ((skipWhile keep n : Parser ε Unit) ⟨before,w ++ rest⟩).ended = .returned () ⟨before ++ w,rest⟩ := by
  induction w generalizing before n with
  | nil =>
    cases n with
    | zero => exact absurd hn (Nat.not_lt_zero _)
    | succ n =>
      rw [List.append_nil,List.nil_append]
      refine ended_leave ?_
      rw [peek_bind]
      cases rest with
      | nil => rfl
      | cons c cs =>
        have hc := hrest c rfl
        simp only [List.head?_cons,hc]
        rfl
  | cons c w ih =>
    cases n with
    | zero => exact absurd hn (Nat.not_lt_zero _)
    | succ n =>
      have hc := hw c List.mem_cons_self
      have hrest' := ih (fun d hd => hw d (List.mem_cons_of_mem c hd)) (Nat.lt_of_succ_lt_succ hn) (before ++ [c])
      rw [List.append_assoc,List.singleton_append] at hrest'
      refine (ended_lap ?_).trans hrest'
      rw [peek_bind]
      simp only [List.cons_append,List.head?_cons,hc,if_true]
      exact ended_bind (ended_advance before [c] (w ++ rest))

end Runs
end Dwara.Lib.TextCursor
