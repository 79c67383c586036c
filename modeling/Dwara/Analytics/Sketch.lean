import Dwara.Lib.Histogram
import Dwara.Lib.Keyed
import Mathlib.Algebra.Group.Nat.Defs
import Mathlib.Data.Int.Order.Basic
import Mathlib.Data.Finset.Card
import Mathlib.Data.Finset.Dedup

/-! The quantile sketch of latencies: counts under bucket indices, of which a bounded number is
kept. Values are dealt with by the indices of their buckets. -/

namespace Dwara.Analytics.Sketch
open Lib Histogram

/-- The buckets in ascending order, each with its count. -/
structure DDSketch where
  maxBuckets : ℕ
  buckets : List (ℤ × ℕ)
  totalCount : ℕ
  deriving DecidableEq, Repr

namespace DDSketch

def new (maxBuckets : ℕ) : DDSketch := ⟨maxBuckets,[],0⟩

/-- The adjacent buckets with the smallest combined count, of several the first. Sums stop at the
largest number of 64 bits, and a sum that reached it is never the smallest. -/
def leastPair : List (ℤ × ℕ) → ℕ → Option (ℤ × ℤ) → Option (ℤ × ℤ)
  | (lower,a) :: (higher,b) :: rest, minSum, mergeKey =>
    let combined := min (a + b) (2^64 - 1)
    if combined < minSum then leastPair ((higher,b) :: rest) combined (some (lower,higher))
    else leastPair ((higher,b) :: rest) minSum mergeKey
  | _, _, mergeKey => mergeKey

/-- The lower of the two goes into the higher one. -/
def collapse (buckets : List (ℤ × ℕ)) : List (ℤ × ℕ) :=
  match leastPair buckets (2^64 - 1) none with
  | none => buckets
  | some (lower,higher) => Histogram.add higher ((buckets.lookup lower).getD 0) (remove lower buckets)

/-- `bucket_index` of the value is `idx`. -/
def add (s : DDSketch) (idx : ℤ) : DDSketch :=
  let buckets := Histogram.add idx 1 s.buckets
  { s with buckets := if s.maxBuckets < buckets.length then collapse buckets else buckets, totalCount := s.totalCount + 1 }

/-- Until the buckets fit, or for ever. -/
def shrink (maxBuckets : ℕ) : ℕ → List (ℤ × ℕ) → Option (List (ℤ × ℕ))
  | 0, _ => none
  | fuel + 1, buckets => if maxBuckets < buckets.length then shrink maxBuckets fuel (collapse buckets) else some buckets

def merge (s other : DDSketch) : Option DDSketch :=
  let buckets := addAll s.buckets other.buckets
  (shrink s.maxBuckets (buckets.length + 1) buckets).map fun buckets =>
    { s with buckets := buckets, totalCount := s.totalCount + other.totalCount }

def reset (s : DDSketch) : DDSketch := { s with buckets := [], totalCount := 0 }

/-- The bucket that a quantile falls into, for the rank of it. -/
def quantileBucket (s : DDSketch) (target : ℕ) : Option ℤ := reach target 0 s.buckets

end DDSketch

section Collapse
variable {m : List (ℤ × ℕ)} {minSum : ℕ} {key : Option (ℤ × ℤ)} {lower higher : ℤ}

/-- A pair that is found is a pair of neighbours. -/
theorem leastPair_eq_some (h : DDSketch.leastPair m minSum key = some (lower,higher)) :
    key = some (lower,higher) ∨ ∃ a b, [(lower,a),(higher,b)] <:+: m := by
  induction m generalizing minSum key with
  | nil => exact .inl h
  | cons p m ih =>
    cases m with
    | nil => exact .inl h
    | cons q m =>
      have hneighbours : ∀ {l : List (ℤ × ℕ)}, l <:+: q :: m → l <:+: p :: q :: m := fun hl => hl.trans (List.suffix_cons p _).isInfix
      simp only [DDSketch.leastPair] at h
      split at h
      · rcases ih h with hpair | ⟨a,b,hab⟩
        · obtain ⟨rfl,rfl⟩ := Prod.mk.inj (Option.some.inj hpair)
          exact .inr ⟨p.2,q.2,⟨[],m,rfl⟩⟩
        · exact .inr ⟨a,b,hneighbours hab⟩
      · exact (ih h).imp_right fun ⟨a,b,hab⟩ => ⟨a,b,hneighbours hab⟩

theorem leastPair_isSome (h : key.isSome) : (DDSketch.leastPair m minSum key).isSome := by
  induction m generalizing minSum key with
  | nil => exact h
  | cons p m ih =>
    cases m with
    | nil => exact h
    | cons q m =>
      simp only [DDSketch.leastPair]
      split
      · exact ih rfl
      · exact ih h

/-- Two buckets that do not hold as much as 64 bits count have a smallest pair. -/
theorem leastPair_first (m : List (ℤ × ℕ)) {p q : ℤ × ℕ} (hsum : p.2 + q.2 < 2^64 - 1) :
    (DDSketch.leastPair (p :: q :: m) (2^64 - 1) none).isSome := by
  simp only [DDSketch.leastPair]
  rw [if_pos (by omega)]
  exact leastPair_isSome rfl

/-- A collapse is the move of one bucket into the next. -/
theorem collapse_eq (hsorted : Sorted m) (hlen : 2 ≤ m.length) (htotal : total m < 2^64 - 1) :
    ∃ lower a higher, (lower,a) ∈ m ∧ higher ∈ m.map (·.1) ∧ lower < higher ∧
      DDSketch.collapse m = Histogram.add higher a (remove lower m) := by
  obtain ⟨p,q,rest,rfl⟩ : ∃ p q rest, m = p :: q :: rest := by
    match m, hlen with
    | p :: q :: rest, _ => exact ⟨p,q,rest,rfl⟩
  have hsum : p.2 + q.2 < 2^64 - 1 := by
    simp only [total_cons] at htotal
    omega
  obtain ⟨⟨lower,higher⟩,hpair⟩ := Option.isSome_iff_exists.mp (leastPair_first rest hsum)
  obtain ⟨a,b,hneighbours⟩ := (leastPair_eq_some hpair).resolve_left (by simp)
  have hlower : (lower,a) ∈ p :: q :: rest := hneighbours.subset (by simp)
  have hhigher : (higher,b) ∈ p :: q :: rest := hneighbours.subset (by simp)
  have hlt : lower < higher := by
    have hpairwise := hsorted.sublist hneighbours.sublist
    exact (List.pairwise_cons.mp hpairwise).1 (higher,b) (by simp)
  refine ⟨lower,a,higher,hlower,List.mem_map_of_mem hhigher,hlt,?_⟩
  have hlookup := (Keyed.lookup_eq_some_iff (nodup_keys hsorted)).mpr hlower
  rw [DDSketch.collapse,hpair]
  simp only [hlookup, Option.getD_some]

/-- A collapse keeps the total, loses one bucket, and counts nothing earlier than before. -/
structure Collapsed (m m' : List (ℤ × ℕ)) : Prop where
  sorted : Sorted m'
  length : m'.length + 1 = m.length
  total : total m' = total m
  upTo : ∀ i, upTo m' i ≤ upTo m i
  keys : ∀ i ∈ m'.map (·.1), i ∈ m.map (·.1)

theorem collapsed (hsorted : Sorted m) (hlen : 2 ≤ m.length) (htotal : total m < 2^64 - 1) : Collapsed m (DDSketch.collapse m) := by
  obtain ⟨lower,a,higher,hlower,hhigher,hlt,heq⟩ := collapse_eq hsorted hlen htotal
  have hkept : higher ∈ (remove lower m).map (·.1) := by
    obtain ⟨p,hp,rfl⟩ := List.mem_map.mp hhigher
    exact List.mem_map_of_mem (List.mem_filter.mpr ⟨hp,by simpa using ne_of_gt hlt⟩)
  rw [heq]
  refine ⟨sorted_add (sorted_remove hsorted lower) higher a,?_,?_,?_,?_⟩
  · rw [length_add_of_mem (sorted_remove hsorted lower) hkept,length_remove hsorted (List.mem_map_of_mem hlower)]
  · rw [total_add,total_remove hsorted hlower]
  · intro i
    rw [upTo_add,← upTo_remove hsorted hlower i]
    by_cases hi : higher ≤ i
    · rw [if_pos hi,if_pos (hlt.le.trans hi)]
    · rw [if_neg hi]
      omega
  · intro i hi
    rcases mem_keys_add.mp hi with rfl | hi
    · exact hhigher
    · obtain ⟨p,hp,rfl⟩ := List.mem_map.mp hi
      exact List.mem_map_of_mem (List.mem_of_mem_filter hp)

end Collapse

section Histories

/-- How a sketch came about: samples added by the indices of their buckets, sketches merged into it. -/
inductive History where
  | new
  | add (h : History) (idx : ℤ)
  | merge (h other : History)
  | reset (h : History)

namespace History

/-- The sketch of a history. Every sketch has the same bound. -/
def sketch (maxBuckets : ℕ) : History → Option DDSketch
  | new => some (.new maxBuckets)
  | add h idx => (h.sketch maxBuckets).map (·.add idx)
  | merge h other =>
    match h.sketch maxBuckets, other.sketch maxBuckets with
    | some s, some t => s.merge t
    | _, _ => none
  | reset h => (h.sketch maxBuckets).map (·.reset)

/-- The samples that were added since the last reset. -/
def samples : History → List ℤ
  | new => []
  | add h idx => h.samples ++ [idx]
  | merge h other => h.samples ++ other.samples
  | reset _ => []

/-- No sketch on the way held as many samples as 64 bits count. -/
def Counts : History → Prop
  | new => True
  | add h idx => h.Counts ∧ (h.samples ++ [idx]).length < 2^64 - 1
  | merge h other => h.Counts ∧ other.Counts ∧ (h.samples ++ other.samples).length < 2^64 - 1
  | reset h => h.Counts

/-- No sketch on the way, since the last reset, had more distinct samples than the bound. -/
def Fits (maxBuckets : ℕ) : History → Prop
  | new => True
  | add h idx => h.Fits maxBuckets ∧ (h.samples ++ [idx]).toFinset.card ≤ maxBuckets
  | merge h other => h.Fits maxBuckets ∧ other.Fits maxBuckets ∧ (h.samples ++ other.samples).toFinset.card ≤ maxBuckets
  | reset _ => True

end History

/-- The sketch counts every sample, none before its own bucket, and only in buckets of samples. -/
structure Sound (s : DDSketch) (xs : List ℤ) : Prop where
  sorted : Sorted s.buckets
  total : total s.buckets = xs.length
  count : s.totalCount = xs.length
  keys : ∀ i ∈ s.buckets.map (·.1), i ∈ xs
  lags : ∀ i, upTo s.buckets i ≤ xs.countP (· ≤ i)
  length : s.buckets.length ≤ s.maxBuckets

/-- The sketch is the histogram of the samples. -/
def Exact (s : DDSketch) (xs : List ℤ) : Prop := ∀ i, upTo s.buckets i = xs.countP (· ≤ i)

end Histories

section Run
variable {m : List (ℤ × ℕ)} {s t : DDSketch} {xs ys : List ℤ} {idx : ℤ} {maxBuckets : ℕ}

/-- Buckets of samples are no more than the distinct samples. -/
theorem length_le_card (hsorted : Sorted m) (hkeys : ∀ i ∈ m.map (·.1), i ∈ xs) : m.length ≤ xs.toFinset.card := by
  have hsubset : (m.map (·.1)).toFinset ⊆ xs.toFinset := fun i hi => List.mem_toFinset.mpr (hkeys i (List.mem_toFinset.mp hi))
  have hcard := Finset.card_le_card hsubset
  rwa [List.toFinset_card_of_nodup (nodup_keys hsorted),List.length_map] at hcard

/-- Collapsing ends, with as many buckets as are allowed. -/
theorem shrunk (hmax : 1 ≤ maxBuckets) (fuel : ℕ) (hfuel : m.length < fuel) (hsorted : Sorted m) (htotal : total m < 2^64 - 1) :
    ∃ m', DDSketch.shrink maxBuckets fuel m = some m' ∧ Sorted m' ∧ m'.length ≤ maxBuckets ∧ total m' = total m ∧
      (∀ i, upTo m' i ≤ upTo m i) ∧ (∀ i ∈ m'.map (·.1), i ∈ m.map (·.1)) ∧ (m.length ≤ maxBuckets → m' = m) := by
  induction fuel generalizing m with
  | zero => exact absurd hfuel (Nat.not_lt_zero _)
  | succ fuel ih =>
    rw [DDSketch.shrink]
    by_cases hlen : maxBuckets < m.length
    · rw [if_pos hlen]
      have hc := collapsed hsorted (by omega) htotal
      have hless := hc.length
      obtain ⟨m',hrun,hsorted',hlen',htotal',hlag',hkeys',-⟩ := ih (by omega) hc.sorted (hc.total ▸ htotal)
      refine ⟨m',hrun,hsorted',hlen',htotal'.trans hc.total,fun i => (hlag' i).trans (hc.upTo i),fun i hi => hc.keys i (hkeys' i hi),?_⟩
      intro hfits
      omega
    · rw [if_neg hlen]
      exact ⟨m,rfl,hsorted,Nat.le_of_not_lt hlen,rfl,fun _ => Nat.le_refl _,fun _ hi => hi,fun _ => rfl⟩

theorem Sound.empty (hbuckets : s.buckets = []) (hcount : s.totalCount = 0) : Sound s [] := by
  refine ⟨?_,?_,hcount,?_,?_,?_⟩
  · rw [hbuckets]
    exact List.Pairwise.nil
  · rw [hbuckets]
    rfl
  · rw [hbuckets]
    exact fun _ hi => hi
  · intro i
    rw [hbuckets]
    exact Nat.le_refl _
  · rw [hbuckets]
    exact Nat.zero_le _

theorem Sound.add (hmax : 1 ≤ s.maxBuckets) (h : Sound s xs) (hcount : (xs ++ [idx]).length < 2^64 - 1) :
    Sound (s.add idx) (xs ++ [idx]) := by
  have hsorted := sorted_add h.sorted idx 1
  have htotal : Histogram.total (Histogram.add idx 1 s.buckets) = (xs ++ [idx]).length := by
    rw [total_add,h.total,List.length_append,List.length_singleton]
  have hkeys : ∀ i ∈ (Histogram.add idx 1 s.buckets).map (·.1), i ∈ xs ++ [idx] := by
    intro i hi
    rcases mem_keys_add.mp hi with rfl | hi
    · simp
    · exact List.mem_append_left _ (h.keys i hi)
  have hlags : ∀ i, Histogram.upTo (Histogram.add idx 1 s.buckets) i ≤ (xs ++ [idx]).countP (· ≤ i) := by
    intro i
    have := h.lags i
    rw [upTo_add,List.countP_append]
    simp only [List.countP_singleton, decide_eq_true_eq]
    omega
  have hlen := length_add_le idx 1 s.buckets
  have hold := h.length
  unfold DDSketch.add
  by_cases hover : s.maxBuckets < (Histogram.add idx 1 s.buckets).length
  · simp only [if_pos hover]
    have hc := collapsed hsorted (by omega) (htotal ▸ hcount)
    have hless := hc.length
    refine ⟨hc.sorted,hc.total.trans htotal,?_,fun i hi => hkeys i (hc.keys i hi),fun i => (hc.upTo i).trans (hlags i),?_⟩
    · simp only [h.count, List.length_append, List.length_singleton]
    · simp only
      omega
  · simp only [if_neg hover]
    refine ⟨hsorted,htotal,?_,hkeys,hlags,Nat.le_of_not_lt hover⟩
    simp only [h.count, List.length_append, List.length_singleton]

theorem Exact.add (h : Sound s xs) (hexact : Exact s xs) (hfits : (xs ++ [idx]).toFinset.card ≤ s.maxBuckets) :
    Exact (s.add idx) (xs ++ [idx]) := by
  have hlen : (Histogram.add idx 1 s.buckets).length ≤ (xs ++ [idx]).toFinset.card := by
    refine length_le_card (sorted_add h.sorted idx 1) ?_
    intro i hi
    rcases mem_keys_add.mp hi with rfl | hi
    · simp
    · exact List.mem_append_left _ (h.keys i hi)
  intro i
  unfold DDSketch.add
  simp only [if_neg (Nat.not_lt.mpr (hlen.trans hfits))]
  rw [upTo_add,hexact i,List.countP_append]
  simp only [List.countP_singleton, decide_eq_true_eq]

/-- A merge ends and is as good as the two sketches were. -/
theorem Sound.merge (hmax : 1 ≤ s.maxBuckets) (h : Sound s xs) (ht : Sound t ys) (hcount : (xs ++ ys).length < 2^64 - 1) :
    ∃ u, s.merge t = some u ∧ u.maxBuckets = s.maxBuckets ∧ Sound u (xs ++ ys) ∧
      (Exact s xs → Exact t ys → (xs ++ ys).toFinset.card ≤ s.maxBuckets → Exact u (xs ++ ys)) := by
  have hsorted := sorted_addAll h.sorted t.buckets
  have htotal : Histogram.total (addAll s.buckets t.buckets) = (xs ++ ys).length := by
    rw [total_addAll,h.total,ht.total,List.length_append]
  have hkeys : ∀ i ∈ (addAll s.buckets t.buckets).map (·.1), i ∈ xs ++ ys := by
    intro i hi
    rcases mem_keys_addAll.mp hi with hi | hi
    · exact List.mem_append_left _ (h.keys i hi)
    · exact List.mem_append_right _ (ht.keys i hi)
  obtain ⟨m',hrun,hsorted',hlen',htotal',hlag',hkeys',hsame⟩ :=
    shrunk hmax _ (Nat.lt_succ_self (addAll s.buckets t.buckets).length) hsorted (htotal ▸ hcount)
  have hmerge : s.merge t = some { s with buckets := m', totalCount := s.totalCount + t.totalCount } := by
    simp only [DDSketch.merge, hrun, Option.map_some]
  refine ⟨_,hmerge,rfl,⟨hsorted',htotal'.trans htotal,?_,fun i hi => hkeys i (hkeys' i hi),?_,hlen'⟩,?_⟩
  · simp only [h.count, ht.count, List.length_append]
  · intro i
    have := h.lags i
    have := ht.lags i
    have := hlag' i
    rw [upTo_addAll] at this
    rw [List.countP_append]
    simp only
    omega
  · intro hs ht' hfits i
    simp only [hsame ((length_le_card hsorted hkeys).trans hfits)]
    rw [upTo_addAll,hs i,ht' i,List.countP_append]

/-- Every sketch counts all its samples, in buckets that do not exceed the bound. -/
theorem sound (hmax : 1 ≤ maxBuckets) (h : History) (hcounts : h.Counts) :
    ∃ s, h.sketch maxBuckets = some s ∧ s.maxBuckets = maxBuckets ∧ Sound s h.samples ∧ (h.Fits maxBuckets → Exact s h.samples) := by
  induction h with
  | new => exact ⟨_,rfl,rfl,Sound.empty rfl rfl,fun _ _ => rfl⟩
  | add h idx ih =>
    obtain ⟨s,hs,rfl,hsound,hexact⟩ := ih hcounts.1
    exact ⟨s.add idx,by rw [History.sketch,hs]; rfl,rfl,hsound.add hmax hcounts.2,fun hf => (hexact hf.1).add hsound hf.2⟩
  | merge h other ih ih' =>
    obtain ⟨s,hs,hsmax,hsound,hexact⟩ := ih hcounts.1
    obtain ⟨t,ht,-,htsound,htexact⟩ := ih' hcounts.2.1
    subst hsmax
    obtain ⟨u,hu,humax,husound,huexact⟩ := hsound.merge hmax htsound hcounts.2.2
    refine ⟨u,?_,humax,husound,fun hf => huexact (hexact hf.1) (htexact hf.2.1) hf.2.2⟩
    simp only [History.sketch, hs, ht]
    exact hu
  | reset h ih =>
    obtain ⟨s,hs,rfl,-,-⟩ := ih hcounts
    exact ⟨s.reset,by rw [History.sketch,hs]; rfl,rfl,Sound.empty rfl rfl,fun _ _ => rfl⟩

/-- The bucket of a quantile is never before the one of the sample of that rank, and is that one
as long as the distinct samples did not exceed the bound. -/
theorem quantile_rank (hmax : 1 ≤ maxBuckets) (h : History) (hcounts : h.Counts) (target : ℕ) (hpos : 0 < target)
    (htarget : target ≤ h.samples.length) :
    ∃ s r idx, h.sketch maxBuckets = some s ∧ s.totalCount = h.samples.length ∧ s.buckets.length ≤ maxBuckets ∧
      NearestRank h.samples target r ∧ s.quantileBucket target = some idx ∧ idx ∈ h.samples ∧ r ≤ idx ∧
      (h.Fits maxBuckets → idx = r) := by
  obtain ⟨s,hs,rfl,hsound,hexact⟩ := sound hmax h hcounts
  obtain ⟨r,hr⟩ := exists_nearestRank hpos htarget
  obtain ⟨idx,hidx⟩ : ∃ idx, s.quantileBucket target = some idx := exists_reach hpos (by rwa [Nat.zero_add,hsound.total])
  exact ⟨s,r,idx,hs,hsound.count,hsound.length,hr,hidx,hsound.keys idx (reach_eq_some hsound.sorted hpos hidx).1,
    hr.le_of_reach hsound.sorted hpos hsound.lags hidx,fun hf => hr.eq_of_reach hsound.sorted hpos (hexact hf) hidx⟩

/-- Two buckets for three samples, of two sketches. -/
def threeSamples : History := .merge (.add (.add .new 1) 5) (.add .new 9)

theorem quantile_rank_three :
    ∃ s r idx, threeSamples.sketch 2 = some s ∧ s.totalCount = 3 ∧ s.buckets.length ≤ 2 ∧ NearestRank [1,5,9] 1 r ∧
      s.quantileBucket 1 = some idx ∧ idx ∈ threeSamples.samples ∧ r ≤ idx ∧ (threeSamples.Fits 2 → idx = r) :=
  quantile_rank (by decide) threeSamples ⟨⟨⟨trivial,by decide⟩,by decide⟩,⟨trivial,by decide⟩,by decide⟩ 1 (by decide) (by decide)

/-- The least sample has gone into the bucket of the next. -/
example : (threeSamples.sketch 2).map (·.buckets) = some [(5,2),(9,1)] := by decide

end Run
end Dwara.Analytics.Sketch
