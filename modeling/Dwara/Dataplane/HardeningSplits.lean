import Dwara.Dataplane.Hardening

/-! When the guard stops every first head with two framings, however the stream is read. -/

namespace Dwara.Dataplane.Hardening
open Dwara.Lib Dwara.Lib.HttpHead

/-- The reads of a stream: none is empty and none is more than a chunk. -/
structure IsSplit (chunks : List Bytes) (stream : Bytes) : Prop where
  flatten : chunks.flatten = stream
  chunk : ∀ c ∈ chunks, c ≠ [] ∧ c.length ≤ chunkSize

/-- The guard on a stream that is read in these chunks. -/
def guardChunks (maxBufSize : ℕ) (chunks : List Bytes) : Guarded := guardConnection maxBufSize (chunks.map .data)

/-- How far a stream has to be read to its first head's end. -/
def headLength (stream : Bytes) (head : Head) : ℕ := stream.length - head.rest.length

/-- A first head with two framings or a folded line that fits is refused, a stream that goes on is
whole, and how it is read does not decide. -/
structure Guards (maxBufSize : ℕ) (stream : Bytes) : Prop where
  refuses : ∀ head, firstHead stream = some head → head.carries = true → headLength stream head ≤ maxBufSize →
    ∀ chunks, IsSplit chunks stream → (guardChunks maxBufSize chunks).isRefused = true
  replays : ∀ chunks, IsSplit chunks stream → ∀ sniffed rest, guardChunks maxBufSize chunks = .passed sniffed rest →
    yielded sniffed rest = stream
  splitFree : ∀ chunks chunks', IsSplit chunks stream → IsSplit chunks' stream →
    (guardChunks maxBufSize chunks).isRefused = (guardChunks maxBufSize chunks').isRefused

/-- Where the guard has seen enough. -/
def decisionPoint (stream : Bytes) : Option ℕ := if stream.take 3 = pri then some 3 else headEnd stream

/-- What it makes of it. -/
def verdict (stream : Bytes) : Verdict :=
  if stream.take 3 = pri then .pass
  else if headHasObsFold stream then .refuse 400 else if headIsAmbiguous stream then .refuse 400 else .pass

/-- Where the guard lets a stream pass. -/
def clearedAt (stream : Bytes) : Option ℕ := if verdict stream = .pass then decisionPoint stream else none

section Judge
variable {maxBufSize k d : ℕ} {s sniffed : Bytes} {chunks : List Bytes} {reads : List Read}

private theorem headEnd_pri {e : ℕ} (hpri : s.take 3 = pri) (h : headEnd s = some e) : 3 ≤ e := by
  match s, hpri with
  | a :: b :: c :: s, hpri =>
    obtain ⟨rfl,rfl,rfl⟩ : a = 80 ∧ b = 82 ∧ c = 73 := by simpa [pri] using hpri
    rw [headEnd,if_neg (by simp [lf]),if_neg (by simp [lf])] at h
    obtain ⟨e₁,h₁,rfl⟩ := Option.map_eq_some_iff.mp h
    have hle := two_le_headEnd h₁
    omega

theorem decisionPoint_le (h : decisionPoint s = some d) : d ≤ s.length := by
  rw [decisionPoint] at h
  split at h
  · rename_i hpri
    obtain rfl := Option.some.inj h
    have hlen := congrArg List.length hpri
    rw [List.length_take] at hlen
    change _ = 3 at hlen
    omega
  · exact headEnd_le h

theorem judge_decided (maxBufSize : ℕ) (h : decisionPoint s = some d) (hk : d ≤ k) : judge maxBufSize (s.take k) = some (verdict s) := by
  rw [decisionPoint] at h
  rw [judge,verdict]
  split at h
  · rename_i hpri
    obtain rfl := Option.some.inj h
    rw [if_pos ((take_take_eq 3 rfl).mpr ⟨hk,hpri⟩),if_pos hpri]
  · rename_i hpri
    have hend : headEnd (s.take k) = some d := by
      rw [headEnd_take,h,Option.filter_some,if_pos (by simpa using hk)]
    have hhead : headOf (s.take k) = headOf s := (headOf_take h hk).trans (headOf_eq h).symm
    rw [if_neg fun hp => hpri ((take_take_eq 3 rfl).mp hp).2,if_neg hpri,if_pos (by rw [hend]; rfl),headHasObsFold,headHasObsFold,hhead,
      headIsAmbiguous,headIsAmbiguous,hhead]
    split_ifs <;> rfl

theorem judge_open (maxBufSize : ℕ) (h : ∀ d, decisionPoint s = some d → k < d) (hk : k ≤ s.length) :
    judge maxBufSize (s.take k) = if maxBufSize < k then some (.refuse 431) else none := by
  have hpri : ¬ (s.take k).take 3 = pri := by
    intro hp
    obtain ⟨hle,hp⟩ := (take_take_eq 3 rfl).mp hp
    have hlt := h 3 (if_pos hp)
    omega
  have hend : headEnd (s.take k) = none := by
    rw [headEnd_take]
    cases hs : headEnd s with
    | none => rfl
    | some e =>
      have hlt : k < e := by
        by_cases hp : s.take 3 = pri
        · have hlt := h 3 (if_pos hp)
          have hle := headEnd_pri hp hs
          omega
        · exact h e ((if_neg hp).trans hs)
      rw [Option.filter_some,if_neg (by simpa using hlt)]
  rw [judge,if_neg hpri,hend,if_neg (by simp),List.length_take,Nat.min_eq_left hk]

/-- What is judged ends the loop. -/
theorem isRefused_of_judge {v : Verdict} (h : judge maxBufSize sniffed = some v) :
    (guardFrom maxBufSize sniffed reads).isRefused = (v ≠ .pass : Bool) := by
  cases reads with
  | nil =>
    rw [guardFrom,h]
    cases v <;> rfl
  | cons read reads =>
    rw [guardFrom,h]
    cases v <;> rfl

theorem guardFrom_next {c : Bytes} (h : judge maxBufSize sniffed = none) (hc : c ≠ []) :
    guardFrom maxBufSize sniffed (.data c :: reads) = guardFrom maxBufSize (sniffed ++ c) reads := by
  rw [guardFrom,h]
  exact if_neg hc

end Judge

section Splits
variable {maxBufSize d : ℕ} {s sniffed : Bytes} {chunks : List Bytes}

private theorem take_length (h : sniffed ++ chunks.flatten = s) : s.take sniffed.length = sniffed := by
  rw [← h,List.take_left]

private theorem length_le (h : sniffed ++ chunks.flatten = s) : sniffed.length ≤ s.length := by
  rw [← h,List.length_append]
  exact Nat.le_add_right _ _

/-- Chunks are read on as long as the decision is ahead and the buffer is not full. -/
theorem guardFrom_skip (maxBufSize : ℕ) (sniffed : Bytes) (chunks : List Bytes) (rest : List Read)
    (hnonempty : ∀ c ∈ chunks, c ≠ []) (hs : sniffed ++ chunks.flatten <+: s)
    (hpoint : ∀ d, decisionPoint s = some d → (sniffed ++ chunks.flatten).length ≤ d)
    (hcap : (sniffed ++ chunks.flatten).length ≤ maxBufSize + 1) :
    guardFrom maxBufSize sniffed (chunks.map .data ++ rest) = guardFrom maxBufSize (sniffed ++ chunks.flatten) rest := by
  induction chunks generalizing sniffed with
  | nil => simp
  | cons c chunks ih =>
    rw [List.flatten_cons,← List.append_assoc] at hs hpoint hcap ⊢
    have hc := List.length_pos_iff.mpr (hnonempty c List.mem_cons_self)
    obtain ⟨t,ht⟩ := hs
    have hlen : sniffed.length < (sniffed ++ c ++ chunks.flatten).length := by
      rw [List.length_append,List.length_append]
      omega
    have htake : s.take sniffed.length = sniffed := by
      rw [← ht,List.append_assoc,List.append_assoc,List.take_left]
    have hle : sniffed.length ≤ s.length := by
      have hls := congrArg List.length ht
      rw [List.length_append] at hls
      omega
    have hjudge : judge maxBufSize sniffed = none := by
      have hopen := judge_open maxBufSize (fun d hd => Nat.lt_of_lt_of_le hlen (hpoint d hd)) hle
      rw [htake,if_neg (by omega)] at hopen
      exact hopen
    rw [List.map_cons,List.cons_append,guardFrom_next hjudge (hnonempty c List.mem_cons_self),
      ih (sniffed ++ c) (fun x hx => hnonempty x (List.mem_cons_of_mem c hx)) ⟨t,ht⟩ hpoint hcap]

/-- A decision within the buffer is made however the stream is read. -/
theorem isRefused_decided (hd : decisionPoint s = some d) (hcap : d ≤ maxBufSize + 1) (hchunks : ∀ c ∈ chunks, c ≠ [])
    (hs : sniffed ++ chunks.flatten = s) :
    (guardFrom maxBufSize sniffed (chunks.map .data)).isRefused = (verdict s ≠ .pass : Bool) := by
  induction chunks generalizing sniffed with
  | nil =>
    apply isRefused_of_judge
    have hjudge := judge_decided maxBufSize hd (decisionPoint_le hd)
    rw [List.take_length] at hjudge
    rw [List.flatten_nil,List.append_nil] at hs
    rw [hs]
    exact hjudge
  | cons c chunks ih =>
    have htake := take_length hs
    by_cases hk : d ≤ sniffed.length
    · apply isRefused_of_judge
      have hjudge := judge_decided maxBufSize hd hk
      rwa [htake] at hjudge
    · have hjudge := judge_open maxBufSize (s := s) (k := sniffed.length)
        (fun d' hd' => by
          obtain rfl := Option.some.inj (hd.symm.trans hd')
          omega) (length_le hs)
      rw [htake,if_neg (by omega)] at hjudge
      rw [List.map_cons,guardFrom_next hjudge (hchunks c List.mem_cons_self)]
      exact ih (fun x hx => hchunks x (List.mem_cons_of_mem c hx)) (by rw [← hs,List.flatten_cons,List.append_assoc])

/-- What the guard refuses it refuses however the stream is read: at the head's end or before. -/
theorem isRefused_refuse (hd : decisionPoint s = some d) (hverdict : verdict s ≠ .pass) (hchunks : ∀ c ∈ chunks, c ≠ [])
    (hs : sniffed ++ chunks.flatten = s) : (guardFrom maxBufSize sniffed (chunks.map .data)).isRefused = true := by
  induction chunks generalizing sniffed with
  | nil =>
    have hjudge := judge_decided maxBufSize hd (decisionPoint_le hd)
    rw [List.take_length] at hjudge
    rw [List.flatten_nil,List.append_nil] at hs
    rw [isRefused_of_judge (by rw [hs]; exact hjudge)]
    exact decide_eq_true hverdict
  | cons c chunks ih =>
    have htake := take_length hs
    by_cases hk : d ≤ sniffed.length
    · have hjudge := judge_decided maxBufSize hd hk
      rw [htake] at hjudge
      rw [isRefused_of_judge hjudge]
      exact decide_eq_true hverdict
    · have hjudge := judge_open maxBufSize (s := s) (k := sniffed.length)
        (fun d' hd' => by
          obtain rfl := Option.some.inj (hd.symm.trans hd')
          omega) (length_le hs)
      rw [htake] at hjudge
      split at hjudge
      · rw [isRefused_of_judge hjudge]
        rfl
      · rw [List.map_cons,guardFrom_next hjudge (hchunks c List.mem_cons_self)]
        exact ih (fun x hx => hchunks x (List.mem_cons_of_mem c hx)) (by rw [← hs,List.flatten_cons,List.append_assoc])

/-- A stream that decides nothing within the buffer and one chunk more is refused, when it is
longer than the buffer. -/
theorem isRefused_over (hd : ∀ d, decisionPoint s = some d → maxBufSize + chunkSize < d) (hlen : maxBufSize < s.length)
    (hchunks : ∀ c ∈ chunks, c ≠ [] ∧ c.length ≤ chunkSize) (hs : sniffed ++ chunks.flatten = s)
    (hsniffed : sniffed.length ≤ maxBufSize + chunkSize) : (guardFrom maxBufSize sniffed (chunks.map .data)).isRefused = true := by
  induction chunks generalizing sniffed with
  | nil =>
    rw [List.flatten_nil,List.append_nil] at hs
    have hjudge := judge_open maxBufSize (s := s) (k := s.length)
      (fun d hd' => by
        have hlt := hd d hd'
        rw [hs] at hsniffed
        omega) (Nat.le_refl _)
    rw [List.take_length,if_pos hlen] at hjudge
    rw [isRefused_of_judge (by rw [hs]; exact hjudge)]
    rfl
  | cons c chunks ih =>
    have hjudge := judge_open maxBufSize (s := s) (k := sniffed.length)
      (fun d hd' => Nat.lt_of_le_of_lt hsniffed (hd d hd')) (length_le hs)
    rw [take_length hs] at hjudge
    split at hjudge
    · rw [isRefused_of_judge hjudge]
      rfl
    · rename_i hk
      obtain ⟨hc,hsize⟩ := hchunks c List.mem_cons_self
      rw [List.map_cons,guardFrom_next hjudge hc]
      refine ih (fun x hx => hchunks x (List.mem_cons_of_mem c hx)) (by rw [← hs,List.flatten_cons,List.append_assoc]) ?_
      rw [List.length_append]
      omega

/-- A short stream that decides nothing passes. -/
theorem isRefused_short (hd : decisionPoint s = none) (hlen : s.length ≤ maxBufSize) (hchunks : ∀ c ∈ chunks, c ≠ [])
    (hs : sniffed ++ chunks.flatten = s) : (guardFrom maxBufSize sniffed (chunks.map .data)).isRefused = false := by
  have hjudge := judge_open maxBufSize (s := s) (k := sniffed.length)
    (fun d hd' => nomatch hd.symm.trans hd') (length_le hs)
  rw [take_length hs,if_neg (by have hle := length_le hs; omega)] at hjudge
  induction chunks generalizing sniffed with
  | nil =>
    rw [List.map_nil,guardFrom,hjudge]
    rfl
  | cons c chunks ih =>
    rw [List.map_cons,guardFrom_next hjudge (hchunks c List.mem_cons_self)]
    have hs' : sniffed ++ c ++ chunks.flatten = s := by rw [← hs,List.flatten_cons,List.append_assoc]
    apply ih (fun x hx => hchunks x (List.mem_cons_of_mem c hx)) hs'
    have hnext := judge_open maxBufSize (s := s) (k := (sniffed ++ c).length)
      (fun d hd' => nomatch hd.symm.trans hd') (length_le hs')
    rwa [take_length hs',if_neg (by have hle := length_le hs'; omega)] at hnext

/-- A stream that goes on is whole. -/
theorem yielded_guardFrom {reads : List Read} {out : Bytes} {rest : List Read} (h : guardFrom maxBufSize sniffed reads = .passed out rest) :
    yielded out rest = yielded sniffed reads := by
  induction reads generalizing sniffed with
  | nil =>
    rw [guardFrom] at h
    split at h
    · exact nomatch h
    · obtain ⟨rfl,rfl⟩ := Guarded.passed.inj h
      rfl
  | cons read reads ih =>
    rw [guardFrom] at h
    split at h
    · obtain ⟨rfl,rfl⟩ := Guarded.passed.inj h
      rfl
    · exact nomatch h
    · split_ifs at h with hempty
      · obtain ⟨rfl,rfl⟩ := Guarded.passed.inj h
        rw [yielded,yielded,List.flatMap_cons,hempty,List.nil_append]
      · rw [ih h,yielded,yielded,List.flatMap_cons,List.append_assoc]

end Splits

section Iff
variable {maxBufSize : ℕ} {s : Bytes}

/-- The reads of one byte each. -/
private def singles (s : Bytes) : List Bytes := s.map fun b => [b]

private theorem flatten_singles (s : Bytes) : (singles s).flatten = s := by
  induction s with
  | nil => rfl
  | cons b s ih => exact congrArg (b :: ·) ih

private theorem mem_singles {s c : Bytes} (h : c ∈ singles s) : c ≠ [] ∧ c.length ≤ chunkSize := by
  obtain ⟨b,-,rfl⟩ := List.mem_map.mp h
  exact ⟨List.cons_ne_nil b [],by simp [chunkSize]⟩

private theorem isSplit_singles (s : Bytes) : IsSplit (singles s) s := ⟨flatten_singles s,fun _ => mem_singles⟩

/-- What the code sees of a head in whole lines. -/
private theorem headOf_terminated (lines : List Bytes) (rest : Bytes) {e : ℕ} (hs : s = terminated lines ++ rest) (hend : headEnd s = some e)
    (he : e = (terminated lines).length) (hlines : ∀ l ∈ lines, lf ∉ l) : (headOf s).splitOn lf = lines ++ [[]] := by
  rw [headOf_eq hend,hs,he,List.take_left,splitOn_terminated hlines]

private theorem notMem_of_isBlank {l : Bytes} (h : isBlank l = true) : lf ∉ l := by
  obtain rfl | rfl := isBlank_eq_true.mp h
  · exact List.not_mem_nil
  · decide

/-- The guard sees the head of a stream with no more than one empty line before it. -/
private theorem verdict_of_carries {head : Head} (h : firstHead s = some head) (hcarries : head.carries = true) (hempties : head.empties ≤ 1)
    (hpri : s.take 3 ≠ pri) : (∃ d, decisionPoint s = some d) ∧ verdict s ≠ .pass := by
  obtain ⟨empties,blank,hlen,hall,hblank,hlines,hs⟩ := firstHead_eq h
  obtain ⟨first,lines,hfirst,hsplit,htail,hfields⟩ : ∃ first lines, lf ∉ first ∧ empties ++ head.request :: head.fields = first :: lines ∧
      (∀ l ∈ lines, IsLine l) ∧ ∀ l ∈ head.fields, l ∈ lines := by
    match empties, hlen with
    | [], _ =>
      exact ⟨head.request,head.fields,(hlines _ List.mem_cons_self).notMem,rfl,fun l hl => hlines l (List.mem_cons_of_mem _ hl),
        fun l hl => hl⟩
    | [l], _ =>
      exact ⟨l,head.request :: head.fields,notMem_of_isBlank (hall l List.mem_cons_self),rfl,hlines,fun x hx => List.mem_cons_of_mem _ hx⟩
    | _ :: _ :: _, hlen =>
      rw [← hlen] at hempties
      simp at hempties
  rw [hsplit] at hs
  have hend := headEnd_terminated _ head.rest hfirst htail hblank
  rw [← hs] at hend
  have hsplitOn := headOf_terminated (s := s) (first :: lines ++ [blank]) head.rest
    (by rw [hs,terminated_append]; simp) hend (by rw [terminated_append]; simp; omega) (by
      intro l hl
      obtain hl | hl := List.mem_append.mp hl
      · obtain rfl | hl := List.mem_cons.mp hl
        · exact hfirst
        · exact (htail l hl).notMem
      · obtain rfl := List.mem_singleton.mp hl
        exact notMem_of_isBlank hblank)
  refine ⟨⟨_,(if_neg hpri).trans hend⟩,?_⟩
  have hbad : headHasObsFold s = true ∨ headIsAmbiguous s = true := by
    rw [headHasObsFold,headIsAmbiguous,hsplitOn]
    rw [Head.carries,Bool.or_eq_true,Bool.and_eq_true] at hcarries
    obtain ⟨hcl,hte⟩ | hfold := hcarries
    · right
      have hany : ∀ p : Bytes → Bool, head.fields.any p = true → (first :: lines ++ [blank] ++ [[]]).any p = true := by
        intro p hp
        obtain ⟨l,hl,hpl⟩ := List.any_eq_true.mp hp
        exact List.any_eq_true.mpr ⟨l,by simp [hfields l hl],hpl⟩
      rw [hany _ hcl,hany _ hte]
      rfl
    · left
      obtain ⟨l,hl,hpl⟩ := List.any_eq_true.mp hfold
      exact List.any_eq_true.mpr ⟨l,by simp [hfields l hl],hpl⟩
  rw [verdict,if_neg hpri]
  split_ifs with hfold hambiguous
  · exact nofun
  · exact nofun
  · simp [hfold,hambiguous] at hbad

theorem headLength_eq {head : Head} {lines : List Bytes} {blank : Bytes} (hs : s = terminated lines ++ (blank ++ lf :: head.rest)) :
    headLength s head = (terminated lines).length + blank.length + 1 := by
  rw [headLength,hs]
  simp only [List.length_append,List.length_cons]
  omega

/-- The guard takes a second empty line for the end of the head. -/
private theorem verdict_of_empties {head : Head} (h : firstHead s = some head) (hempties : 2 ≤ head.empties) :
    (∃ d, decisionPoint s = some d ∧ d ≤ headLength s head) ∧ verdict s = .pass := by
  obtain ⟨empties,blank,hlen,hall,hblank,hlines,hs⟩ := firstHead_eq h
  rw [headLength_eq hs]
  match empties, hlen, hall with
  | [], hlen, _ =>
    rw [← hlen] at hempties
    exact absurd hempties (by simp)
  | [_], hlen, _ =>
    rw [← hlen] at hempties
    exact absurd hempties (by simp)
  | l₁ :: l₂ :: more, _, hall =>
    have h₁ := hall l₁ (by simp)
    have h₂ := hall l₂ (by simp)
    obtain ⟨rest,hrest⟩ : ∃ rest, s = terminated [l₁] ++ (l₂ ++ lf :: rest) := ⟨_,by
      rw [hs]
      simp only [List.cons_append,terminated_cons,List.append_assoc,terminated_nil,List.nil_append]
      rfl⟩
    have hend := headEnd_terminated [] rest (notMem_of_isBlank h₁) (fun l hl => absurd hl List.not_mem_nil) h₂
    rw [← hrest] at hend
    have hsplitOn := headOf_terminated (s := s) [l₁,l₂] rest (by rw [hrest]; simp) hend (by simp; omega) (by
      intro l hl
      exact notMem_of_isBlank (hall l (by simp at hl ⊢; tauto)))
    have hnone : headHasObsFold s = false ∧ headIsAmbiguous s = false := by
      rw [headHasObsFold,headIsAmbiguous,hsplitOn]
      obtain rfl | rfl := isBlank_eq_true.mp h₁ <;> obtain rfl | rfl := isBlank_eq_true.mp h₂ <;> decide
    constructor
    · rw [decisionPoint]
      split
      · refine ⟨3,rfl,?_⟩
        simp only [List.cons_append,terminated_cons,terminated_append,List.length_append,List.length_cons]
        omega
      · refine ⟨_,hend,?_⟩
        simp only [List.cons_append,terminated_cons,terminated_nil,List.length_append,List.length_cons,List.length_nil]
        omega
    · rw [verdict,hnone.1,hnone.2]
      split <;> rfl

/-- What two framings need to be seen. -/
theorem refuses_iff : (∀ head, firstHead s = some head → head.carries = true → headLength s head ≤ maxBufSize →
      ∀ chunks, IsSplit chunks s → (guardChunks maxBufSize chunks).isRefused = true) ↔
    ∀ head, firstHead s = some head → head.carries = true → headLength s head ≤ maxBufSize → head.empties ≤ 1 ∧ s.take 3 ≠ pri := by
  constructor
  · intro h head hhead hcarries hfits
    have hrefused := h head hhead hcarries hfits (singles s) (isSplit_singles s)
    have hnot : ∀ d, decisionPoint s = some d → d ≤ maxBufSize + 1 → verdict s ≠ .pass := by
      intro d hd hcap hpass
      have hpassed := isRefused_decided hd hcap (fun c hc => (mem_singles hc).1) (show [] ++ (singles s).flatten = s from flatten_singles s)
      rw [guardChunks,guardConnection,hpassed,hpass] at hrefused
      exact nomatch hrefused
    constructor
    · by_contra hempties
      obtain ⟨⟨d,hd,hle⟩,hpass⟩ := verdict_of_empties hhead (by omega)
      exact hnot d hd (by omega) hpass
    · intro hpri
      have hthree : 3 ≤ headLength s head := by
        obtain ⟨empties,blank,-,-,-,hlines,hs⟩ := firstHead_eq hhead
        have hrequest := (hlines head.request List.mem_cons_self).notBlank
        have hpos : 0 < head.request.length := by
          cases hreq : head.request with
          | nil =>
            rw [hreq] at hrequest
            exact nomatch hrequest
          | cons b bs => exact Nat.succ_pos _
        rw [headLength_eq hs,terminated_append,terminated_cons]
        simp only [List.length_append,List.length_cons]
        omega
      exact hnot 3 (if_pos hpri) (by omega) (if_pos hpri)
  · intro h head hhead hcarries hfits chunks hsplit
    obtain ⟨hempties,hpri⟩ := h head hhead hcarries hfits
    obtain ⟨⟨d,hd⟩,hverdict⟩ := verdict_of_carries hhead hcarries hempties hpri
    exact isRefused_refuse hd hverdict (fun c hc => (hsplit.chunk c hc).1) hsplit.flatten

/-- Where a stream is let pass decides whether it is however it is read. -/
theorem splitFree_iff : (∀ chunks chunks', IsSplit chunks s → IsSplit chunks' s →
      (guardChunks maxBufSize chunks).isRefused = (guardChunks maxBufSize chunks').isRefused) ↔
    ∀ d, clearedAt s = some d → d ≤ maxBufSize + 1 ∨ maxBufSize + chunkSize < d := by
  constructor
  · intro h d hd
    have hpass : verdict s = .pass ∧ decisionPoint s = some d := by
      rw [clearedAt] at hd
      split at hd
      · rename_i hpass
        exact ⟨hpass,hd⟩
      · exact nomatch hd
    by_contra hbetween
    obtain ⟨hlow,hhigh⟩ : maxBufSize + 1 < d ∧ d ≤ maxBufSize + chunkSize := by omega
    have hle := decisionPoint_le hpass.2
    have hpoint : ∀ k, k ≤ d → ∀ d', decisionPoint s = some d' → k ≤ d' := by
      intro k hk d' hd'
      obtain rfl := Option.some.inj (hpass.2.symm.trans hd')
      exact hk
    -- read byte by byte the buffer is full before the head ends
    have hfull : (guardChunks maxBufSize (singles s)).isRefused = true := by
      have hsplit : singles s = singles (s.take (maxBufSize + 1)) ++ singles (s.drop (maxBufSize + 1)) := by
        rw [singles,singles,singles,← List.map_append,List.take_append_drop]
      have hskip := guardFrom_skip (s := s) maxBufSize [] (singles (s.take (maxBufSize + 1)))
        ((singles (s.drop (maxBufSize + 1))).map .data) (fun c hc => (mem_singles hc).1)
        (by rw [List.nil_append,flatten_singles]; exact List.take_prefix _ _)
        (by rw [List.nil_append,flatten_singles,List.length_take]; exact hpoint _ (by omega))
        (by rw [List.nil_append,flatten_singles,List.length_take]; omega)
      rw [List.nil_append,flatten_singles,← List.map_append,← hsplit] at hskip
      have hjudge := judge_open maxBufSize (s := s) (k := maxBufSize + 1)
        (fun d' hd' => Nat.lt_of_lt_of_le hlow (hpoint d (Nat.le_refl d) d' hd')) (by omega)
      rw [if_pos (Nat.lt_succ_self _)] at hjudge
      rw [guardChunks,guardConnection,hskip,isRefused_of_judge hjudge]
      rfl
    -- read up to the buffer's size, the rest of the head may come as one chunk
    have hclear : ∃ chunks, IsSplit chunks s ∧ (guardChunks maxBufSize chunks).isRefused = false := by
      have hmid : ((s.drop maxBufSize).take (d - maxBufSize)).length = d - maxBufSize := by
        rw [List.length_take,List.length_drop]
        omega
      have hread : s.take maxBufSize ++ (s.drop maxBufSize).take (d - maxBufSize) = s.take d := by
        rw [← List.take_add]
        congr 1
        omega
      have hmidNe : (s.drop maxBufSize).take (d - maxBufSize) ≠ [] := by
        intro hnil
        rw [hnil,List.length_nil] at hmid
        omega
      refine ⟨singles (s.take maxBufSize) ++ (s.drop maxBufSize).take (d - maxBufSize) :: singles (s.drop d),⟨?_,?_⟩,?_⟩
      · rw [List.flatten_append,List.flatten_cons,flatten_singles,flatten_singles,← List.append_assoc,hread,List.take_append_drop]
      · intro c hc
        obtain hc | hc := List.mem_append.mp hc
        · exact mem_singles hc
        obtain rfl | hc := List.mem_cons.mp hc
        · exact ⟨hmidNe,by omega⟩
        · exact mem_singles hc
      · have hskip := guardFrom_skip (s := s) maxBufSize [] (singles (s.take maxBufSize))
          (.data ((s.drop maxBufSize).take (d - maxBufSize)) :: (singles (s.drop d)).map .data) (fun c hc => (mem_singles hc).1)
          (by rw [List.nil_append,flatten_singles]; exact List.take_prefix _ _)
          (by rw [List.nil_append,flatten_singles,List.length_take]; exact hpoint _ (by omega))
          (by rw [List.nil_append,flatten_singles,List.length_take]; omega)
        rw [List.nil_append,flatten_singles] at hskip
        have hopen := judge_open maxBufSize (s := s) (k := maxBufSize)
          (fun d' hd' => Nat.lt_of_lt_of_le (by omega) (hpoint d (Nat.le_refl d) d' hd')) (by omega)
        rw [if_neg (Nat.lt_irrefl _)] at hopen
        rw [guardChunks,guardConnection,List.map_append,List.map_cons,hskip,guardFrom_next hopen hmidNe,hread,
          isRefused_of_judge (judge_decided maxBufSize hpass.2 (Nat.le_refl d)),hpass.1]
        rfl
    obtain ⟨chunks,hchunks,hpassed⟩ := hclear
    rw [h _ _ (isSplit_singles s) hchunks,hpassed] at hfull
    exact nomatch hfull
  · intro h
    have hvalue : ∃ b, ∀ chunks, IsSplit chunks s → (guardChunks maxBufSize chunks).isRefused = b := by
      cases hd : decisionPoint s with
      | none =>
        by_cases hlen : s.length ≤ maxBufSize
        · exact ⟨false,fun chunks hsplit => isRefused_short hd hlen (fun c hc => (hsplit.chunk c hc).1) hsplit.flatten⟩
        · exact ⟨true,fun chunks hsplit => isRefused_over (fun d hd' => nomatch hd.symm.trans hd') (Nat.lt_of_not_le hlen) hsplit.chunk
            hsplit.flatten (Nat.zero_le _)⟩
      | some d =>
        by_cases hcap : d ≤ maxBufSize + 1
        · exact ⟨_,fun chunks hsplit => isRefused_decided hd hcap (fun c hc => (hsplit.chunk c hc).1) hsplit.flatten⟩
        · refine ⟨true,fun chunks hsplit => ?_⟩
          by_cases hpass : verdict s = .pass
          · have hover := (h d ((if_pos hpass).trans hd)).resolve_left hcap
            refine isRefused_over (fun d' hd' => ?_) ?_ hsplit.chunk hsplit.flatten (Nat.zero_le _)
            · obtain rfl := Option.some.inj (hd.symm.trans hd')
              exact hover
            · have hle := decisionPoint_le hd
              omega
          · exact isRefused_refuse hd hpass (fun c hc => (hsplit.chunk c hc).1) hsplit.flatten
    obtain ⟨b,hb⟩ := hvalue
    intro chunks chunks' hsplit hsplit'
    rw [hb chunks hsplit,hb chunks' hsplit']

/-- The guard is complete for a stream just when a first head it should refuse neither starts with
`PRI` nor has two empty lines before it, and a stream it lets pass is decided within the buffer or
beyond one chunk more. -/
theorem guards_iff (maxBufSize : ℕ) (s : Bytes) :
    Guards maxBufSize s ↔
      (∀ head, firstHead s = some head → head.carries = true → headLength s head ≤ maxBufSize → head.empties ≤ 1 ∧ s.take 3 ≠ pri) ∧
        ∀ d, clearedAt s = some d → d ≤ maxBufSize + 1 ∨ maxBufSize + chunkSize < d := by
  constructor
  · intro h
    exact ⟨refuses_iff.mp h.refuses,splitFree_iff.mp h.splitFree⟩
  · rintro ⟨hrefuses,hsplit⟩
    refine ⟨refuses_iff.mpr hrefuses,?_,splitFree_iff.mpr hsplit⟩
    intro chunks hchunks sniffed rest hpassed
    rw [yielded_guardFrom hpassed,yielded,List.nil_append,← hchunks.flatten,List.flatMap_map]
    exact List.flatMap_id

end Iff

def ascii (s : String) : Bytes := s.toList.map fun c => UInt8.ofNat c.toNat

def framed : String := "Content-Length: 4\r\nTransfer-Encoding: chunked\r\n\r\n"

private theorem not_guards_of {maxBufSize : ℕ} {s : Bytes}
    (h : ((firstHead s).any fun head =>
      head.carries && decide (headLength s head ≤ maxBufSize) && (decide (2 ≤ head.empties) || s.take 3 == pri)) = true) :
    ¬ Guards maxBufSize s := by
  intro hguards
  cases hhead : firstHead s with
  | none =>
    rw [hhead] at h
    exact nomatch h
  | some head =>
    rw [hhead] at h
    simp only [Option.any_some,Bool.and_eq_true,Bool.or_eq_true,decide_eq_true_eq,beq_iff_eq] at h
    obtain ⟨⟨hcarries,hfits⟩,hmissed⟩ := h
    obtain ⟨hempties,hpri⟩ := refuses_iff.mp hguards.refuses head hhead hcarries hfits
    obtain htwo | hstart := hmissed
    · omega
    · exact hpri hstart

/-- Two empty lines before the request line, a method that starts with `PRI`, and a head of 1049
bytes for a buffer of 1024. -/
theorem not_guards :
    ¬ Guards 65536 (ascii ("\r\n\r\nPOST / HTTP/1.1\r\n" ++ framed)) ∧ ¬ Guards 65536 (ascii ("PRINT / HTTP/1.1\r\n" ++ framed)) ∧
      ¬ Guards 1024 (ascii "GET /" ++ List.replicate 1031 97 ++ ascii " HTTP/1.1\r\n\r\n") := by
  refine ⟨not_guards_of (by decide +kernel),not_guards_of (by decide +kernel),fun h => ?_⟩
  have hclear := splitFree_iff.mp h.splitFree 1049 (by decide +kernel)
  exact absurd hclear (by decide)

end Dwara.Dataplane.Hardening
