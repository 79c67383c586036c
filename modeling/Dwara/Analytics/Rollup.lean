import Dwara.Analytics.Schema
import Dwara.Lib.GroupBy
import Dwara.Lib.System
import Mathlib.Algebra.Group.Pi.Basic
import Mathlib.Algebra.GroupWithZero.Nat
import Mathlib.Algebra.Order.Ring.Rat
import Mathlib.Data.Int.Notation
import Mathlib.Order.WithBot
import Mathlib.Order.Monotone.Basic

/-! The rollup cascade: raw rows into minutes, each granularity into the next, and the sweep of
what has expired. Every stage is a transaction. -/

namespace Dwara.Analytics
open Dwara.Lib GroupBy

/-- A granularity by its place in the cascade. -/
def granularityMs : ℕ → ℤ
  | 0 => 60000
  | 1 => 300000
  | 2 => 3600000
  | _ => 86400000

def rollupGraceMs : ℤ := 60000

def windowOf (tsMs granMs : ℤ) : ℤ := tsMs.tdiv granMs * granMs

def msBuckets : List ℚ := [1,2,5,10,25,50,100,250,500,1000,2500,5000]

def bucketOf (durationMs : ℚ) : ℕ := (msBuckets.findIdx? (durationMs ≤ ·)).getD msBuckets.length

/-- What a rollup row is keyed by, its window apart: the columns of `rollup_fixed`, or a custom
dimension with its value. -/
inductive RollupKey where
  | fixed (listener route upstream consumer method statusClass : String)
  | dim (name value : String)
  deriving DecidableEq, Repr

/-- The columns that merge by sum, and the one that merges by maximum. A row of `rollup_dim`
lacks three of them. -/
@[ext]
structure RollupCounts where
  requests : ℕ
  errors : ℕ
  rateLimited : ℕ
  shed : ℕ
  durationSumMs : ℚ
  durationMaxMs : WithBot ℚ
  buckets : ℕ → ℕ

namespace RollupCounts

instance : Zero RollupCounts := ⟨0,0,0,0,0,⊥,0⟩

instance : Add RollupCounts :=
  ⟨fun a b => ⟨a.requests + b.requests,a.errors + b.errors,a.rateLimited + b.rateLimited,a.shed + b.shed,
    a.durationSumMs + b.durationSumMs,max a.durationMaxMs b.durationMaxMs,a.buckets + b.buckets⟩⟩

theorem zero_def : (0 : RollupCounts) = ⟨0,0,0,0,0,⊥,0⟩ := rfl

theorem add_def (a b : RollupCounts) :
    a + b = ⟨a.requests + b.requests,a.errors + b.errors,a.rateLimited + b.rateLimited,a.shed + b.shed,
      a.durationSumMs + b.durationSumMs,max a.durationMaxMs b.durationMaxMs,a.buckets + b.buckets⟩ := rfl

instance : AddCommMonoid RollupCounts where
  add_assoc a b c := by simp only [add_def,add_assoc,max_assoc]
  zero_add a := by simp only [add_def,zero_def,zero_add,bot_le,max_eq_right]
  add_zero a := by simp only [add_def,zero_def,add_zero,bot_le,max_eq_left]
  add_comm a b := by simp only [add_def,add_comm,max_comm]
  nsmul := nsmulRec

end RollupCounts

/-- A window with its key, and what was counted. -/
abbrev RollupRow := (ℤ × RollupKey) × RollupCounts

section Raw
variable (r : AccessRow)

def fixedCounts : RollupCounts where
  requests := 1
  errors := if 500 ≤ r.status then 1 else 0
  rateLimited := r.rateLimited.toNat
  shed := r.shed.toNat
  durationSumMs := r.durationMs
  durationMaxMs := r.durationMs
  buckets i := if i = bucketOf r.durationMs then 1 else 0

def dimCounts : RollupCounts := { fixedCounts r with rateLimited := 0,shed := 0,durationMaxMs := ⊥ }

/-- What one raw row is counted as, at its own time. `dimsOf` reads the text members of the
`dims` object, and nothing from a text that is not one. -/
def rollupItems (dimsOf : String → List (String × String)) : List RollupRow :=
  ((r.tsMs,.fixed r.listener r.route r.upstream r.consumer r.method r.statusClass),fixedCounts r) ::
    (dimsOf r.dims).map fun d => ((r.tsMs,.dim d.1 d.2),dimCounts r)

end Raw

/-- The `GROUP BY` of every stage. -/
def rollInto (granMs : ℤ) (rows : List RollupRow) : List RollupRow :=
  groupBy (fun row => (windowOf row.1.1 granMs,row.1.2)) Prod.snd rows

def within (lo hi tsMs : ℤ) : Bool := lo ≤ tsMs && tsMs < hi

/-- The store as the cascade sees it: what `raw_all` reads, the rollup rows and the cursor of
each granularity, and the last clock reading. `counted` are the rows written before their
minute was rolled, `swept` is where the rows of each granularity that are still kept begin. -/
structure Rollups where
  clock : ℤ
  raw : List AccessRow
  tables : ℕ → List RollupRow
  cursors : ℕ → ℤ
  counted : List AccessRow
  swept : ℕ → ℤ

/-- One transaction of the writer or of a maintenance pass. A stage that fails is rolled back:
it is a label that is not there. -/
inductive RollupLabel where
  | write (row : AccessRow)
  | rollRawTo1m (nowMs : ℤ)
  | rollCascade (stage : ℕ) (nowMs : ℤ)
  | sweepRetention (nowMs : ℤ) (partitioned : AccessRow → Bool)
  | dropExpiredPartitions (nowMs : ℤ) (dropped : AccessRow → Bool)

namespace Rollups
variable (dimsOf : String → List (String × String)) (s : Rollups)

def rollRawRange (lo hi : ℤ) : Rollups :=
  let new := rollInto (granularityMs 0) ((s.raw.filter fun r => within lo hi r.tsMs).flatMap (rollupItems · dimsOf))
  { s with tables := Function.update s.tables 0 (replaceInto new (s.tables 0)) }

def rollRawTo1m (nowMs : ℤ) : Rollups :=
  let frontier := windowOf (nowMs - rollupGraceMs) (granularityMs 0)
  if frontier ≤ s.cursors 0 then s
  else { s.rollRawRange dimsOf (s.cursors 0) frontier with cursors := Function.update s.cursors 0 frontier }

def cascadeRange (stage : ℕ) (lo hi : ℤ) : Rollups :=
  let new := rollInto (granularityMs (stage + 1)) ((s.tables stage).filter fun row => within lo hi row.1.1)
  { s with tables := Function.update s.tables (stage + 1) (replaceInto new (s.tables (stage + 1))) }

def cascadeFrontier (stage : ℕ) (nowMs : ℤ) : ℤ := windowOf (nowMs - rollupGraceMs) (granularityMs (stage + 1))

def rollCascade (stage : ℕ) (nowMs : ℤ) : Rollups :=
  let frontier := cascadeFrontier stage nowMs
  if frontier ≤ s.cursors (stage + 1) then s
  else { s.cascadeRange stage (s.cursors (stage + 1)) frontier with
    cursors := Function.update s.cursors (stage + 1) frontier }

/-- Raw rows in a dated partition are not swept. Above the cursor of a granularity there is
nothing to sweep yet. -/
def sweepRetention (rawKeepMs : ℤ) (granKeepMs : ℕ → ℤ) (nowMs : ℤ) (partitioned : AccessRow → Bool) : Rollups :=
  { s with
    raw := s.raw.filter fun r => nowMs - rawKeepMs ≤ r.tsMs || partitioned r
    tables := fun gran => (s.tables gran).filter fun row => nowMs - granKeepMs gran ≤ row.1.1
    swept := fun gran => max (s.swept gran) (min (nowMs - granKeepMs gran) (s.cursors gran)) }

def write (row : AccessRow) : Rollups :=
  { s with
    raw := s.raw ++ [row]
    counted := if s.cursors 0 ≤ row.tsMs then s.counted ++ [row] else s.counted }

/-- A stage of a pass, on a clock that does not run backwards. -/
def pass (nowMs : ℤ) (stage : Rollups → Rollups) : Option Rollups :=
  if s.clock ≤ nowMs then some { stage s with clock := nowMs } else none

def step (rawKeepMs : ℤ) (granKeepMs : ℕ → ℤ) (s : Rollups) : RollupLabel → Option Rollups
  | .write row => some (s.write row)
  | .rollRawTo1m nowMs => s.pass nowMs (rollRawTo1m dimsOf · nowMs)
  | .rollCascade stage nowMs => if stage < 3 then s.pass nowMs (rollCascade · stage nowMs) else none
  | .sweepRetention nowMs partitioned => s.pass nowMs (sweepRetention · rawKeepMs granKeepMs nowMs partitioned)
  | .dropExpiredPartitions nowMs dropped => s.pass nowMs fun s => { s with raw := s.raw.filter (!dropped ·) }

end Rollups

/-- An empty store, with the clock after 1970-01-01. -/
def rollups (dimsOf : String → List (String × String)) (rawKeepMs : ℤ) (granKeepMs : ℕ → ℤ) : System Rollups RollupLabel :=
  ⟨⟨0,[],fun _ => [],fun _ => 0,[],fun _ => 0⟩,Rollups.step dimsOf rawKeepMs granKeepMs⟩

end Dwara.Analytics

/-! Windows of granularities that divide each other, and the rows rolled into them. -/

namespace Dwara.Analytics
open Dwara.Lib GroupBy

theorem granularityMs_pos : ∀ gran, 0 < granularityMs gran
  | 0 | 1 | 2 => by decide
  | _ + 3 => show (0 : ℤ) < 86400000 by decide

theorem granularityMs_dvd : ∀ gran, granularityMs gran ∣ granularityMs (gran + 1)
  | 0 | 1 | 2 => by decide
  | _ + 3 => Int.dvd_refl _

section Windows
variable {tsMs granMs lo hi : ℤ}

theorem windowOf_eq (hts : 0 ≤ tsMs) : windowOf tsMs granMs = tsMs / granMs * granMs := by
  rw [windowOf,Int.tdiv_eq_ediv_of_nonneg hts]

theorem dvd_windowOf : granMs ∣ windowOf tsMs granMs := Dvd.intro_left _ rfl

theorem windowOf_nonneg (hpos : 0 < granMs) (hts : 0 ≤ tsMs) : 0 ≤ windowOf tsMs granMs := by
  rw [windowOf_eq hts]
  exact Int.mul_nonneg (Int.ediv_nonneg hts hpos.le) hpos.le

theorem le_windowOf (hpos : 0 < granMs) (hts : 0 ≤ tsMs) (hlo : granMs ∣ lo) : lo ≤ windowOf tsMs granMs ↔ lo ≤ tsMs := by
  obtain ⟨k,rfl⟩ := hlo
  rw [windowOf_eq hts,mul_comm granMs k,Int.mul_le_mul_right hpos,Int.le_ediv_iff_mul_le hpos]

theorem within_windowOf (hpos : 0 < granMs) (hts : 0 ≤ tsMs) (hlo : granMs ∣ lo) (hhi : granMs ∣ hi) :
    within lo hi (windowOf tsMs granMs) = within lo hi tsMs := by
  have hhi' : windowOf tsMs granMs < hi ↔ tsMs < hi := not_le.symm.trans ((not_congr (le_windowOf hpos hts hhi)).trans not_le)
  simp only [within,le_windowOf hpos hts hlo,hhi']

theorem windowOf_windowOf {coarseMs : ℤ} (hpos : 0 < granMs) (hts : 0 ≤ tsMs) (hdvd : granMs ∣ coarseMs) :
    windowOf (windowOf tsMs granMs) coarseMs = windowOf tsMs coarseMs := by
  obtain ⟨k,rfl⟩ := hdvd
  rw [windowOf_eq (windowOf_nonneg hpos hts),windowOf_eq hts,windowOf_eq hts,mul_comm (tsMs / granMs),
    Int.mul_ediv_mul_of_pos _ _ hpos,Int.ediv_ediv_of_nonneg hpos.le]

theorem within_of_within {lo' hi' : ℤ} (hlo : lo' ≤ lo) (hhi : hi ≤ hi') :
    (within lo hi tsMs && within lo' hi' tsMs) = within lo hi tsMs := by
  simp only [within]
  grind

end Windows

section Rows
variable {granMs lo hi : ℤ} {rows : List RollupRow}

theorem filter_rollInto (granMs : ℤ) (rows : List RollupRow) (p : ℤ × RollupKey → Bool) :
    ((rollInto granMs rows).filter (p ·.1)).Perm (rollInto granMs (rows.filter fun row => p (windowOf row.1.1 granMs,row.1.2))) :=
  filter_groupBy _ Prod.snd rows p

/-- Rolling the rows of a range is rolling all, for the windows of the range. -/
theorem rollInto_within (hpos : 0 < granMs) (hrows : ∀ row ∈ rows, 0 ≤ row.1.1) (hlo : granMs ∣ lo) (hhi : granMs ∣ hi) :
    (rollInto granMs (rows.filter fun row => within lo hi row.1.1)).Perm
      ((rollInto granMs rows).filter fun row => within lo hi row.1.1) := by
  have hfilter : rows.filter (fun row => within lo hi (windowOf row.1.1 granMs)) = rows.filter fun row => within lo hi row.1.1 :=
    List.filter_congr fun row hrow => within_windowOf hpos (hrows row hrow) hlo hhi
  exact hfilter ▸ (filter_rollInto granMs rows fun k => within lo hi k.1).symm

/-- What two stages roll is what one would. -/
theorem rollInto_rollInto {coarseMs : ℤ} (hpos : 0 < granMs) (hdvd : granMs ∣ coarseMs) (hrows : ∀ row ∈ rows, 0 ≤ row.1.1) :
    (rollInto coarseMs (rollInto granMs rows)).Perm (rollInto coarseMs rows) := by
  have htwo := groupBy_groupBy (fun k : ℤ × RollupKey => (windowOf k.1 coarseMs,k.2))
    (fun row : RollupRow => (windowOf row.1.1 granMs,row.1.2)) Prod.snd rows
  refine htwo.trans (.of_eq ?_)
  apply groupBy_congr
  intro row hrow
  rw [windowOf_windowOf hpos (hrows row hrow) hdvd]

theorem time_of_mem_rollupItems {r : AccessRow} {dimsOf : String → List (String × String)} {row : RollupRow}
    (h : row ∈ rollupItems r dimsOf) : row.1.1 = r.tsMs := by
  rw [rollupItems,List.mem_cons,List.mem_map] at h
  obtain rfl | ⟨d,_,rfl⟩ := h <;> rfl

theorem flatMap_rollupItems_filter (dimsOf : String → List (String × String)) (p : ℤ → Bool) (raw : List AccessRow) :
    (raw.filter (p ·.tsMs)).flatMap (rollupItems · dimsOf) = (raw.flatMap (rollupItems · dimsOf)).filter (p ·.1.1) := by
  induction raw with
  | nil => rfl
  | cons r raw ih =>
    rw [List.flatMap_cons,List.filter_append,← ih]
    cases hp : p r.tsMs with
    | true =>
      have hall : (rollupItems r dimsOf).filter (p ·.1.1) = rollupItems r dimsOf :=
        List.filter_eq_self.mpr fun row hrow => by rw [time_of_mem_rollupItems hrow,hp]
      rw [List.filter_cons,if_pos hp,List.flatMap_cons,hall]
    | false =>
      have hnone : (rollupItems r dimsOf).filter (p ·.1.1) = [] :=
        List.filter_eq_nil_iff.mpr fun row hrow => by rw [time_of_mem_rollupItems hrow,hp]; exact Bool.false_ne_true
      rw [List.filter_cons,if_neg (by rw [hp]; exact Bool.false_ne_true),hnone,List.nil_append]

end Rows

end Dwara.Analytics
