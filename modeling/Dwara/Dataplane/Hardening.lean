import Dwara.Lib.HttpHead

/-! The guard in front of the HTTP/1 parser: the first bytes of a connection are read ahead until
they show a request head. -/

namespace Dwara.Dataplane.Hardening
open Dwara.Lib Dwara.Lib.HttpHead

/-- The length of the head with its blank line. -/
def headEnd : Bytes → Option ℕ
  | [] => none
  | b :: rest =>
    if b = lf ∧ rest.head? = some lf then some 2
    else if b = lf ∧ rest.take 2 = [cr,lf] then some 3
    else (headEnd rest).map (· + 1)

/-- The head alone, when it is whole. -/
def headOf (sniffed : Bytes) : Bytes :=
  match headEnd sniffed with
  | some e => sniffed.take e
  | none => sniffed

/-- Both framings stand in the head. -/
def headIsAmbiguous (sniffed : Bytes) : Bool :=
  let lines := (headOf sniffed).splitOn lf
  lines.any (isNamed contentLength) && lines.any (isNamed transferEncoding)

/-- A line behind the first one is folded. -/
def headHasObsFold (sniffed : Bytes) : Bool := (((headOf sniffed).splitOn lf).drop 1).any isFolded

/-- `PRI` -/
def pri : Bytes := [80,82,73]

/-- One read of the stream: bytes, no more than a chunk of them, or none in time. -/
inductive Read where
  | data (bytes : Bytes)
  | elapsed
  deriving DecidableEq, Repr

def Read.bytes : Read → Bytes
  | data bytes => bytes
  | elapsed => []

def chunkSize : ℕ := 4096

/-- What becomes of a connection: it goes on, with the sniffed bytes in front of what is not read
yet, or it is answered. -/
inductive Guarded where
  | passed (sniffed : Bytes) (rest : List Read)
  | refused (status : ℕ)
  deriving DecidableEq, Repr

inductive Verdict where
  | pass
  | refuse (status : ℕ)
  deriving DecidableEq, Repr

/-- What the bytes read so far decide, if anything. -/
def judge (maxBufSize : ℕ) (sniffed : Bytes) : Option Verdict :=
  if sniffed.take 3 = pri then some .pass
  else if (headEnd sniffed).isSome then
    if headHasObsFold sniffed then some (.refuse 400) else if headIsAmbiguous sniffed then some (.refuse 400) else some .pass
  else if maxBufSize < sniffed.length then some (.refuse 431)
  else none

/-- The loop of reads. The stream ends with the list, or with a read of no bytes. -/
def guardFrom (maxBufSize : ℕ) : Bytes → List Read → Guarded
  | sniffed, [] =>
    match judge maxBufSize sniffed with
    | some (.refuse status) => .refused status
    | _ => .passed sniffed []
  | sniffed, read :: rest =>
    match judge maxBufSize sniffed with
    | some .pass => .passed sniffed (read :: rest)
    | some (.refuse status) => .refused status
    | none => if read.bytes = [] then .passed sniffed rest else guardFrom maxBufSize (sniffed ++ read.bytes) rest

def guardConnection (maxBufSize : ℕ) (reads : List Read) : Guarded := guardFrom maxBufSize [] reads

/-- What a stream yields that goes on. -/
def yielded (sniffed : Bytes) (rest : List Read) : Bytes := sniffed ++ rest.flatMap Read.bytes

namespace Guarded

def isRefused : Guarded → Bool
  | passed _ _ => false
  | refused _ => true

end Guarded

section HeadEnd

theorem two_le_headEnd {s : Bytes} {e : ℕ} (h : headEnd s = some e) : 2 ≤ e := by
  induction s generalizing e with
  | nil => exact nomatch h
  | cons b s ih =>
    rw [headEnd] at h
    split_ifs at h
    · cases h
      decide
    · cases h
      decide
    · obtain ⟨e',he',rfl⟩ := Option.map_eq_some_iff.mp h
      exact Nat.le_succ_of_le (ih he')

private theorem head_take {s : Bytes} {k : ℕ} {b : UInt8} : (s.take k).head? = some b ↔ 0 < k ∧ s.head? = some b := by
  cases s <;> cases k <;> simp

theorem take_take_eq (n : ℕ) {s t : Bytes} {k : ℕ} (ht : t.length = n) : (s.take k).take n = t ↔ n ≤ k ∧ s.take n = t := by
  rw [List.take_take]
  constructor
  · intro h
    have hlen := congrArg List.length h
    rw [List.length_take,ht] at hlen
    have hk : n ≤ k := by omega
    rw [Nat.min_eq_left hk] at h
    exact ⟨hk,h⟩
  · rintro ⟨hk,h⟩
    rw [Nat.min_eq_left hk]
    exact h

/-- The head ends where it does in the whole stream, once it is read so far. -/
theorem headEnd_take (s : Bytes) (k : ℕ) : headEnd (s.take k) = (headEnd s).filter (· ≤ k) := by
  induction s generalizing k with
  | nil => simp [headEnd]
  | cons b s ih =>
    cases k with
    | zero =>
      cases hend : headEnd (b :: s) with
      | none => rfl
      | some e =>
        have he := two_le_headEnd hend
        rw [List.take_zero,Option.filter_some,if_neg (by simpa using by omega)]
        rfl
    | succ k =>
      rw [List.take_succ_cons,headEnd,headEnd]
      by_cases hlf : b = lf ∧ s.head? = some lf
      · rw [if_pos hlf]
        by_cases hk : 0 < k
        · rw [if_pos ⟨hlf.1,head_take.mpr ⟨hk,hlf.2⟩⟩,Option.filter_some,if_pos (by simpa using Nat.succ_le_of_lt hk)]
        · obtain rfl : k = 0 := by omega
          rw [Option.filter_some,if_neg (by simp),List.take_zero,if_neg (by simp),if_neg (by simp)]
          rfl
      · rw [if_neg hlf,if_neg fun h => hlf ⟨h.1,(head_take.mp h.2).2⟩]
        by_cases hcr : b = lf ∧ s.take 2 = [cr,lf]
        · rw [if_pos hcr]
          by_cases hk : 2 ≤ k
          · rw [if_pos ⟨hcr.1,(take_take_eq 2 rfl).mpr ⟨hk,hcr.2⟩⟩,Option.filter_some,if_pos (by simpa using hk)]
          · rw [if_neg fun h => hk ((take_take_eq 2 rfl).mp h.2).1,ih,Option.filter_some,if_neg (by simpa using hk)]
            cases hend : headEnd s with
            | none => rfl
            | some e =>
              have he := two_le_headEnd hend
              rw [Option.filter_some,if_neg (by simpa using by omega)]
              rfl
        · rw [if_neg hcr,if_neg fun h => hcr ⟨h.1,((take_take_eq 2 rfl).mp h.2).2⟩,ih]
          cases headEnd s with
          | none => rfl
          | some e =>
            rw [Option.filter_some,Option.map_some,Option.filter_some]
            by_cases hk : e ≤ k
            · rw [if_pos (by simpa using hk),if_pos (by simpa using hk)]
              rfl
            · rw [if_neg (by simpa using hk),if_neg (by simpa using hk)]
              rfl

/-- The head of a stream is that of what is read of it. -/
theorem headOf_take {s : Bytes} {e k : ℕ} (h : headEnd s = some e) (hk : e ≤ k) : headOf (s.take k) = s.take e := by
  rw [headOf,headEnd_take,h,Option.filter_some,if_pos (by simpa using hk)]
  dsimp only
  rw [List.take_take,Nat.min_eq_left hk]

theorem headOf_eq {s : Bytes} {e : ℕ} (h : headEnd s = some e) : headOf s = s.take e := by rw [headOf,h]

theorem headEnd_le {s : Bytes} {e : ℕ} (h : headEnd s = some e) : e ≤ s.length := by
  have htake := headEnd_take s s.length
  rw [List.take_length,h,Option.filter_some] at htake
  by_contra hle
  rw [if_neg (by simpa using hle)] at htake
  exact nomatch htake

/-- Where the first line ends, the head does when an empty line is next. -/
private theorem headEnd_line {line : Bytes} (hline : lf ∉ line) (rest : Bytes) :
    headEnd (line ++ lf :: rest) = (headEnd (lf :: rest)).map (· + line.length) := by
  induction line with
  | nil => simp
  | cons b line ih =>
    have hb : b ≠ lf := fun heq => hline (heq ▸ List.mem_cons_self)
    rw [List.cons_append,headEnd,if_neg fun h => hb h.1,if_neg fun h => hb h.1,ih fun hmem => hline (List.mem_cons_of_mem b hmem),
      Option.map_map]
    rfl

/-- Of a first line and others that are not empty the head ends behind the next empty line. -/
theorem headEnd_terminated {first blank : Bytes} (lines : List Bytes) (rest : Bytes) (hfirst : lf ∉ first)
    (hlines : ∀ l ∈ lines, IsLine l) (hblank : isBlank blank = true) :
    headEnd (terminated (first :: lines) ++ (blank ++ lf :: rest)) = some ((terminated (first :: lines)).length + blank.length + 1) := by
  induction lines generalizing first with
  | nil =>
    rw [terminated_cons,terminated_nil,List.append_assoc,List.cons_append,List.nil_append,headEnd_line hfirst]
    obtain rfl | rfl := isBlank_eq_true.mp hblank
    · rw [List.nil_append,headEnd,if_pos ⟨rfl,rfl⟩]
      simp
      omega
    · rw [headEnd,if_neg (by simp [lf,cr]),if_pos ⟨rfl,rfl⟩]
      simp
      omega
  | cons line lines ih =>
    obtain ⟨hmem,hnot⟩ := hlines line List.mem_cons_self
    have hrest := ih hmem fun l hl => hlines l (List.mem_cons_of_mem line hl)
    -- neither form of an empty line starts here
    have hnone : headEnd (lf :: (terminated (line :: lines) ++ (blank ++ lf :: rest))) =
        (headEnd (terminated (line :: lines) ++ (blank ++ lf :: rest))).map (· + 1) := by
      match line, hmem, hnot with
      | [], _, hnot => exact nomatch hnot
      | [c], hmem, hnot =>
        have hc : c ≠ lf := fun heq => hmem (by simp [heq])
        have hcr : c ≠ cr := fun heq => absurd hnot (by simp [isBlank,heq])
        rw [headEnd,if_neg (by simp [hc]),if_neg (by simp [hcr])]
      | c :: d :: line, hmem, _ =>
        have hc : c ≠ lf := fun heq => hmem (by simp [heq])
        have hd : d ≠ lf := fun heq => hmem (by simp [heq])
        rw [headEnd,if_neg (by simp [hc]),if_neg (by simp [hd])]
    rw [terminated_cons,List.append_assoc,List.cons_append,headEnd_line hfirst,hnone,hrest,Option.map_some,Option.map_some,
      List.length_append,List.length_cons]
    exact congrArg some (by omega)

end HeadEnd

end Dwara.Dataplane.Hardening
