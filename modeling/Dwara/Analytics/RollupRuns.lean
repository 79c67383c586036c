import Dwara.Analytics.Rollup

/-! What every transaction of the cascade keeps: each table holds the groups of the rows
counted, between where it is swept and its cursor. -/

namespace Dwara.Analytics
open Dwara.Lib GroupBy

namespace Rollups
variable (dimsOf : String → List (String × String)) (s : Rollups)

/-- The counted rows, each at its own time. -/
def items : List RollupRow := s.counted.flatMap (rollupItems · dimsOf)

/-- The counted rows rolled into a granularity at once. -/
def rolled (gran : ℕ) : List RollupRow := rollInto (granularityMs gran) (s.items dimsOf)

/-- Rows leave only after the next stage has read them, and a stage rolls only what the finer
one has. -/
def Guard (rawKeepMs : ℤ) (granKeepMs : ℕ → ℤ) (s : Rollups) : RollupLabel → Prop
  | .write _ | .rollRawTo1m _ => True
  | .rollCascade stage nowMs => cascadeFrontier stage nowMs ≤ s.cursors stage
  | .sweepRetention nowMs partitioned =>
    (∀ r ∈ s.raw, r.tsMs < nowMs - rawKeepMs → partitioned r = false → r.tsMs < s.cursors 0) ∧
      ∀ gran < 3, nowMs - granKeepMs gran ≤ s.cursors (gran + 1)
  | .dropExpiredPartitions _ dropped => ∀ r ∈ s.raw, dropped r → r.tsMs < s.cursors 0

instance decidableGuard (rawKeepMs : ℤ) (granKeepMs : ℕ → ℤ) (s : Rollups) : (a : RollupLabel) → Decidable (s.Guard rawKeepMs granKeepMs a)
  | .write _ | .rollRawTo1m _ => isTrue trivial
  | .rollCascade stage nowMs => inferInstanceAs (Decidable (cascadeFrontier stage nowMs ≤ s.cursors stage))
  | .sweepRetention _ _ => inferInstanceAs (Decidable (_ ∧ _))
  | .dropExpiredPartitions _ dropped => inferInstanceAs (Decidable (∀ r ∈ s.raw, dropped r → r.tsMs < s.cursors 0))

structure Sound (s : Rollups) : Prop where
  tables (gran : ℕ) : (s.tables gran).Perm ((s.rolled dimsOf gran).filter fun row => within (s.swept gran) (s.cursors gran) row.1.1)
  cursors (gran : ℕ) : s.cursors (gran + 1) ≤ s.cursors gran
  divides (gran : ℕ) : granularityMs gran ∣ s.cursors gran
  started (gran : ℕ) : 0 ≤ s.cursors gran
  swept (gran : ℕ) : s.swept gran ≤ s.cursors gran
  retained (gran : ℕ) (h : gran < 3) : s.swept gran ≤ s.cursors (gran + 1)
  counted (r : AccessRow) (h : r ∈ s.counted) : 0 ≤ r.tsMs
  readable : (s.raw.filter fun r => s.cursors 0 ≤ r.tsMs).Perm (s.counted.filter fun r => s.cursors 0 ≤ r.tsMs)

namespace Sound
variable {dimsOf : String → List (String × String)} {s : Rollups} {lo hi : ℤ}

theorem items_nonneg (h : s.Sound dimsOf) : ∀ row ∈ s.items dimsOf, 0 ≤ row.1.1 := by
  intro row hrow
  obtain ⟨r,hr,hitem⟩ := List.mem_flatMap.mp hrow
  exact time_of_mem_rollupItems hitem ▸ h.counted r hr

theorem le_cursor (h : s.Sound dimsOf) (gran : ℕ) : s.cursors gran ≤ s.cursors 0 :=
  antitone_nat_of_succ_le h.cursors (Nat.zero_le gran)

/-- The rows of a rolled range of a table are the groups of the rows counted there. -/
theorem table_within (h : s.Sound dimsOf) {gran : ℕ} (hlo : s.swept gran ≤ lo) (hhi : hi ≤ s.cursors gran) :
    ((s.tables gran).filter fun row => within lo hi row.1.1).Perm
      ((s.rolled dimsOf gran).filter fun row => within lo hi row.1.1) := by
  refine ((h.tables gran).filter _).trans (.of_eq ?_)
  rw [List.filter_filter]
  exact List.filter_congr fun row _ => within_of_within hlo hhi

/-- The raw rows that are read are the rows counted, from the cursor on. -/
theorem raw_within (h : s.Sound dimsOf) (hlo : s.cursors 0 ≤ lo) :
    (s.raw.filter fun r => within lo hi r.tsMs).Perm (s.counted.filter fun r => within lo hi r.tsMs) := by
  have hcut : ∀ rows : List AccessRow,
      (rows.filter fun r => s.cursors 0 ≤ r.tsMs).filter (fun r => within lo hi r.tsMs) = rows.filter fun r => within lo hi r.tsMs := by
    intro rows
    rw [List.filter_filter]
    apply List.filter_congr
    intro r hr
    simp only [within]
    grind
  rw [← hcut s.raw,← hcut s.counted]
  exact h.readable.filter _

/-- What the first stage writes for a range of raw rows, as long as they are the rows counted. -/
theorem rolled_raw (h : s.Sound dimsOf) (hlo : granularityMs 0 ∣ lo) (hhi : granularityMs 0 ∣ hi)
    (hraw : (s.raw.filter fun r => within lo hi r.tsMs).Perm (s.counted.filter fun r => within lo hi r.tsMs)) :
    (rollInto (granularityMs 0) ((s.raw.filter fun r => within lo hi r.tsMs).flatMap (rollupItems · dimsOf))).Perm
      ((s.rolled dimsOf 0).filter fun row => within lo hi row.1.1) := by
  have hitems := hraw.flatMap_right (rollupItems · dimsOf)
  rw [flatMap_rollupItems_filter dimsOf (within lo hi) s.counted] at hitems
  exact (groupBy_perm _ _ hitems).trans (rollInto_within (granularityMs_pos 0) h.items_nonneg hlo hhi)

/-- What a later stage writes for a range of the finer table. -/
theorem rolled_cascade (h : s.Sound dimsOf) {stage : ℕ} (hlo : granularityMs (stage + 1) ∣ lo) (hhi : granularityMs (stage + 1) ∣ hi)
    (hswept : s.swept stage ≤ lo) (hcursor : hi ≤ s.cursors stage) :
    (rollInto (granularityMs (stage + 1)) ((s.tables stage).filter fun row => within lo hi row.1.1)).Perm
      ((s.rolled dimsOf (stage + 1)).filter fun row => within lo hi row.1.1) := by
  have hdvd := granularityMs_dvd stage
  have hpos := granularityMs_pos stage
  have hfine : ((s.tables stage).filter fun row => within lo hi row.1.1).Perm
      (rollInto (granularityMs stage) ((s.items dimsOf).filter fun row => within lo hi row.1.1)) :=
    (h.table_within hswept hcursor).trans (rollInto_within hpos h.items_nonneg (hdvd.trans hlo) (hdvd.trans hhi)).symm
  have hrows : ∀ row ∈ (s.items dimsOf).filter (fun row => within lo hi row.1.1), 0 ≤ row.1.1 :=
    fun row hrow => h.items_nonneg row (List.mem_of_mem_filter hrow)
  have hcoarse := groupBy_perm (fun row : RollupRow => (windowOf row.1.1 (granularityMs (stage + 1)),row.1.2)) Prod.snd hfine
  refine hcoarse.trans ((rollInto_rollInto hpos hdvd hrows).trans ?_)
  exact rollInto_within (granularityMs_pos _) h.items_nonneg hlo hhi

/-- A range put in place of what a table held of it. -/
theorem replaced (h : s.Sound dimsOf) {gran : ℕ} {new : List RollupRow}
    (hnew : new.Perm ((s.rolled dimsOf gran).filter fun row => within lo hi row.1.1)) :
    (replaceInto new (s.tables gran)).Perm
      ((s.rolled dimsOf gran).filter fun row => within (s.swept gran) (s.cursors gran) row.1.1 || within lo hi row.1.1) :=
  replaceInto_perm (p := fun k : ℤ × RollupKey => within (s.swept gran) (s.cursors gran) k.1)
    (q := fun k : ℤ × RollupKey => within lo hi k.1) (h.tables gran) hnew

/-- A range of windows that a table holds is put in its own place. -/
theorem rerun (h : s.Sound dimsOf) {gran : ℕ} {new : List RollupRow} (hlo : s.swept gran ≤ lo) (hhi : hi ≤ s.cursors gran)
    (hnew : new.Perm ((s.rolled dimsOf gran).filter fun row => within lo hi row.1.1)) :
    (replaceInto new (s.tables gran)).Perm (s.tables gran) := by
  refine (h.replaced hnew).trans (.trans (.of_eq ?_) (h.tables gran).symm)
  apply List.filter_congr
  intro row _
  simp only [within]
  grind

/-- A stage that rolls on from its cursor. -/
theorem advance (h : s.Sound dimsOf) {gran : ℕ} {frontier : ℤ} {new : List RollupRow} (hlt : s.cursors gran < frontier)
    (hdvd : granularityMs gran ∣ frontier) (hfiner : ∀ finer, finer + 1 = gran → frontier ≤ s.cursors finer)
    (hnew : new.Perm ((s.rolled dimsOf gran).filter fun row => within (s.cursors gran) frontier row.1.1)) :
    Sound dimsOf { s with
      tables := Function.update s.tables gran (replaceInto new (s.tables gran))
      cursors := Function.update s.cursors gran frontier } := by
  have hcursor : ∀ g, s.cursors g ≤ Function.update s.cursors gran frontier g := by
    intro g
    rw [Function.update_apply]
    split
    · next hg => exact hg ▸ hlt.le
    · exact le_refl _
  have hrange : ∀ row ∈ s.rolled dimsOf gran, (within (s.swept gran) (s.cursors gran) row.1.1 || within (s.cursors gran) frontier row.1.1) =
      within (s.swept gran) frontier row.1.1 := by
    intro row _
    have hswept := h.swept gran
    simp only [within]
    grind
  have htable := (h.replaced hnew).trans (.of_eq (List.filter_congr hrange))
  constructor
  case tables =>
    intro g
    show (Function.update s.tables gran (replaceInto new (s.tables gran)) g).Perm
      ((s.rolled dimsOf g).filter fun row => within (s.swept g) (Function.update s.cursors gran frontier g) row.1.1)
    by_cases hg : g = gran
    · subst hg
      rw [Function.update_self,Function.update_self]
      exact htable
    · rw [Function.update_of_ne hg,Function.update_of_ne hg]
      exact h.tables g
  case cursors =>
    intro g
    by_cases hg : g + 1 = gran
    · subst hg
      simpa only [Function.update_self,Function.update_of_ne (Nat.ne_of_lt (Nat.lt_succ_self g))] using hfiner g rfl
    · simp only [Function.update_of_ne hg]
      exact (h.cursors g).trans (hcursor g)
  case divides =>
    intro g
    by_cases hg : g = gran
    · subst hg
      simpa only [Function.update_self] using hdvd
    · simpa only [Function.update_of_ne hg] using h.divides g
  case started => exact fun g => (h.started g).trans (hcursor g)
  case swept => exact fun g => (h.swept g).trans (hcursor g)
  case retained => exact fun g hg => (h.retained g hg).trans (hcursor (g + 1))
  case counted => exact h.counted
  case readable =>
    have hcut : ∀ rows : List AccessRow, (rows.filter fun r => Function.update s.cursors gran frontier 0 ≤ r.tsMs) =
        (rows.filter fun r => s.cursors 0 ≤ r.tsMs).filter fun r => Function.update s.cursors gran frontier 0 ≤ r.tsMs := by
      intro rows
      rw [List.filter_filter]
      apply List.filter_congr
      intro r _
      have hmono := hcursor 0
      grind
    rw [hcut s.raw,hcut s.counted]
    exact h.readable.filter _

theorem rollRawTo1m (h : s.Sound dimsOf) (nowMs : ℤ) : (s.rollRawTo1m dimsOf nowMs).Sound dimsOf := by
  rw [Rollups.rollRawTo1m]
  split
  · exact h
  · next hle =>
    have hdvd : granularityMs 0 ∣ windowOf (nowMs - rollupGraceMs) (granularityMs 0) := dvd_windowOf
    exact h.advance (not_le.mp hle) hdvd (fun finer hfiner => nomatch hfiner)
      (h.rolled_raw (h.divides 0) hdvd (h.raw_within (le_refl _)))

theorem rollCascade (h : s.Sound dimsOf) {stage : ℕ} (hstage : stage < 3) {nowMs : ℤ} (hkept : cascadeFrontier stage nowMs ≤ s.cursors stage) :
    (s.rollCascade stage nowMs).Sound dimsOf := by
  rw [Rollups.rollCascade]
  split
  · exact h
  · next hle =>
    have hdvd : granularityMs (stage + 1) ∣ cascadeFrontier stage nowMs := dvd_windowOf
    refine h.advance (not_le.mp hle) hdvd ?_ (h.rolled_cascade (h.divides _) hdvd (h.retained stage hstage) hkept)
    rintro finer hfiner
    exact Nat.succ_injective hfiner ▸ hkept

theorem sweepRetention (h : s.Sound dimsOf) {rawKeepMs nowMs : ℤ} {granKeepMs : ℕ → ℤ} {partitioned : AccessRow → Bool}
    (hraw : ∀ r ∈ s.raw, r.tsMs < nowMs - rawKeepMs → partitioned r = false → r.tsMs < s.cursors 0)
    (hgran : ∀ gran < 3, nowMs - granKeepMs gran ≤ s.cursors (gran + 1)) :
    (s.sweepRetention rawKeepMs granKeepMs nowMs partitioned).Sound dimsOf := by
  constructor
  case tables =>
    intro gran
    refine ((h.tables gran).filter _).trans (.of_eq ?_)
    rw [List.filter_filter]
    apply List.filter_congr
    intro row _
    simp only [within,Rollups.sweepRetention]
    grind
  case cursors => exact h.cursors
  case divides => exact h.divides
  case started => exact h.started
  case swept => exact fun gran => max_le (h.swept gran) (min_le_right _ _)
  case retained => exact fun gran hlt => max_le (h.retained gran hlt) ((min_le_left _ _).trans (hgran gran hlt))
  case counted => exact h.counted
  case readable =>
    refine .trans (.of_eq ?_) h.readable
    simp only [Rollups.sweepRetention]
    rw [List.filter_filter]
    apply List.filter_congr
    intro r hr
    have hleft := hraw r hr
    grind

theorem dropExpiredPartitions (h : s.Sound dimsOf) {dropped : AccessRow → Bool} (hraw : ∀ r ∈ s.raw, dropped r → r.tsMs < s.cursors 0) :
    Sound dimsOf { s with raw := s.raw.filter (!dropped ·) } := by
  refine { h with readable := .trans (.of_eq ?_) h.readable }
  rw [List.filter_filter]
  apply List.filter_congr
  intro r hr
  have hleft := hraw r hr
  grind

theorem write (h : s.Sound dimsOf) (row : AccessRow) : (s.write row).Sound dimsOf := by
  rw [Rollups.write]
  by_cases hrow : s.cursors 0 ≤ row.tsMs
  · have hnonneg : 0 ≤ row.tsMs := (h.started 0).trans hrow
    rw [if_pos hrow]
    constructor
    case tables =>
      intro gran
      have hlate : within (s.swept gran) (s.cursors gran) (windowOf row.tsMs (granularityMs gran)) = false := by
        have hbefore := (le_windowOf (granularityMs_pos gran) hnonneg (h.divides gran)).mpr ((h.le_cursor gran).trans hrow)
        simp only [within]
        grind
      have hnone : (rollupItems row dimsOf).filter
          (fun item => within (s.swept gran) (s.cursors gran) (windowOf item.1.1 (granularityMs gran))) = [] :=
        List.filter_eq_nil_iff.mpr fun item hitem => by
          rw [time_of_mem_rollupItems hitem,hlate]
          exact Bool.false_ne_true
      have hitems : (s.counted ++ [row]).flatMap (rollupItems · dimsOf) = s.items dimsOf ++ rollupItems row dimsOf := by
        rw [List.flatMap_append,List.flatMap_singleton]
        rfl
      have hnew := filter_rollInto (granularityMs gran) (s.items dimsOf ++ rollupItems row dimsOf)
        fun k => within (s.swept gran) (s.cursors gran) k.1
      rw [List.filter_append,hnone,List.append_nil] at hnew
      rw [rolled,items,hitems]
      exact (h.tables gran).trans ((filter_rollInto _ _ fun k => within (s.swept gran) (s.cursors gran) k.1).trans hnew.symm)
    case cursors => exact h.cursors
    case divides => exact h.divides
    case started => exact h.started
    case swept => exact h.swept
    case retained => exact h.retained
    case counted =>
      intro r hr
      obtain hr | hr := List.mem_append.mp hr
      · exact h.counted r hr
      · exact List.mem_singleton.mp hr ▸ hnonneg
    case readable =>
      rw [List.filter_append,List.filter_append]
      exact h.readable.append_right _
  · rw [if_neg hrow]
    refine { h with readable := .trans (.of_eq ?_) h.readable }
    rw [List.filter_append,List.filter_cons_of_neg (by simpa using hrow),List.filter_nil,List.append_nil]

theorem pass (stage : Rollups → Rollups) (h : (stage s).Sound dimsOf) {nowMs : ℤ} {t : Rollups} (hpass : s.pass nowMs stage = some t) :
    t.Sound dimsOf := by
  rw [Rollups.pass] at hpass
  split at hpass
  · obtain rfl := Option.some.inj hpass
    exact { h with }
  · exact nomatch hpass

theorem step (h : s.Sound dimsOf) {rawKeepMs : ℤ} {granKeepMs : ℕ → ℤ} {a : RollupLabel} (hguard : s.Guard rawKeepMs granKeepMs a)
    {t : Rollups} (hstep : Rollups.step dimsOf rawKeepMs granKeepMs s a = some t) : t.Sound dimsOf := by
  cases a with
  | write row => exact Option.some.inj hstep ▸ h.write row
  | rollRawTo1m nowMs => exact pass (Rollups.rollRawTo1m dimsOf · nowMs) (h.rollRawTo1m nowMs) hstep
  | rollCascade stage nowMs =>
    obtain ⟨hstage,hpass⟩ := Option.ite_none_right_eq_some.mp hstep
    exact pass (Rollups.rollCascade · stage nowMs) (h.rollCascade hstage hguard) hpass
  | sweepRetention nowMs partitioned => exact pass (Rollups.sweepRetention · rawKeepMs granKeepMs nowMs partitioned) (h.sweepRetention hguard.1 hguard.2) hstep
  | dropExpiredPartitions nowMs dropped => exact pass (fun s => { s with raw := s.raw.filter (!dropped ·) }) (h.dropExpiredPartitions hguard) hstep

end Sound

end Rollups

end Dwara.Analytics

/-! Rollups conserve every request that is counted, at every granularity. -/

namespace Dwara.Analytics
open Dwara.Lib GroupBy

namespace Rollups
variable (dimsOf : String → List (String × String))

/-- What holds of the rollups, for the windows below a cursor that are not swept. -/
structure Conserved (s : Rollups) : Prop where
  /-- The rows of a window are the aggregation of the raw rows counted in it. -/
  windows (gran : ℕ) (start : ℤ) (hswept : s.swept gran ≤ start) (hcursor : start < s.cursors gran) :
    ((s.tables gran).filter (·.1.1 = start)).Perm
      (rollInto (granularityMs gran) ((s.counted.filter fun r => windowOf r.tsMs (granularityMs gran) = start).flatMap (rollupItems · dimsOf)))
  /-- Over a range, the rows with some of the keys add up to the raw rows counted there, whatever
  the granularity. -/
  totals (gran : ℕ) (lo hi : ℤ) (keys : RollupKey → Bool) (hlo : granularityMs gran ∣ lo) (hhi : granularityMs gran ∣ hi)
    (hswept : s.swept gran ≤ lo) (hcursor : hi ≤ s.cursors gran) :
    (((s.tables gran).filter fun row => within lo hi row.1.1 && keys row.1.2).map Prod.snd).sum =
      ((((s.counted.filter fun r => within lo hi r.tsMs).flatMap (rollupItems · dimsOf)).filter (keys ·.1.2)).map Prod.snd).sum
  /-- No stage passes the finer one. -/
  cursors (gran : ℕ) : s.cursors (gran + 1) ≤ s.cursors gran
  /-- Rolling raw rows again changes nothing while they are the rows counted. -/
  rerunRaw (lo hi : ℤ) (hlo : granularityMs 0 ∣ lo) (hhi : granularityMs 0 ∣ hi) (hswept : s.swept 0 ≤ lo) (hcursor : hi ≤ s.cursors 0)
    (hraw : (s.raw.filter fun r => within lo hi r.tsMs).Perm (s.counted.filter fun r => within lo hi r.tsMs)) :
    ((s.rollRawRange dimsOf lo hi).tables 0).Perm (s.tables 0)
  /-- Rolling a finer table again changes nothing while its rows are not swept. -/
  rerunCascade (stage : ℕ) (lo hi : ℤ) (hlo : granularityMs (stage + 1) ∣ lo) (hhi : granularityMs (stage + 1) ∣ hi)
    (hsource : s.swept stage ≤ lo) (hswept : s.swept (stage + 1) ≤ lo) (hcursor : hi ≤ s.cursors (stage + 1)) :
    ((s.cascadeRange stage lo hi).tables (stage + 1)).Perm (s.tables (stage + 1))

variable {dimsOf} {s : Rollups}

namespace Sound

theorem windows (h : s.Sound dimsOf) {gran : ℕ} {start : ℤ} (hswept : s.swept gran ≤ start) (hcursor : start < s.cursors gran) :
    ((s.tables gran).filter (·.1.1 = start)).Perm
      (rollInto (granularityMs gran) ((s.counted.filter fun r => windowOf r.tsMs (granularityMs gran) = start).flatMap (rollupItems · dimsOf))) := by
  have htable : ((s.tables gran).filter (·.1.1 = start)).Perm ((s.rolled dimsOf gran).filter (·.1.1 = start)) := by
    refine ((h.tables gran).filter _).trans (.of_eq ?_)
    rw [List.filter_filter]
    apply List.filter_congr
    intro row _
    simp only [within]
    grind
  rw [flatMap_rollupItems_filter dimsOf (fun tsMs => decide (windowOf tsMs (granularityMs gran) = start)) s.counted]
  exact htable.trans (filter_rollInto _ _ fun k => decide (k.1 = start))

theorem totals (h : s.Sound dimsOf) {gran : ℕ} {lo hi : ℤ} (keys : RollupKey → Bool) (hlo : granularityMs gran ∣ lo)
    (hhi : granularityMs gran ∣ hi) (hswept : s.swept gran ≤ lo) (hcursor : hi ≤ s.cursors gran) :
    (((s.tables gran).filter fun row => within lo hi row.1.1 && keys row.1.2).map Prod.snd).sum =
      ((((s.counted.filter fun r => within lo hi r.tsMs).flatMap (rollupItems · dimsOf)).filter (keys ·.1.2)).map Prod.snd).sum := by
  have htable : ((s.tables gran).filter fun row => within lo hi row.1.1 && keys row.1.2).Perm
      ((s.rolled dimsOf gran).filter fun row => within lo hi row.1.1 && keys row.1.2) := by
    refine ((h.tables gran).filter _).trans (.of_eq ?_)
    rw [List.filter_filter]
    apply List.filter_congr
    intro row _
    have hrange : (within lo hi row.1.1 && within (s.swept gran) (s.cursors gran) row.1.1) = within lo hi row.1.1 :=
      within_of_within hswept hcursor
    grind
  have hgroups := htable.trans (filter_rollInto (granularityMs gran) (s.items dimsOf) fun k => within lo hi k.1 && keys k.2)
  have hitems : (s.items dimsOf).filter (fun row => within lo hi (windowOf row.1.1 (granularityMs gran)) && keys row.1.2) =
      ((s.counted.filter fun r => within lo hi r.tsMs).flatMap (rollupItems · dimsOf)).filter (keys ·.1.2) := by
    rw [flatMap_rollupItems_filter dimsOf (within lo hi) s.counted,List.filter_filter]
    apply List.filter_congr
    intro row hrow
    rw [within_windowOf (granularityMs_pos gran) (h.items_nonneg row hrow) hlo hhi,Bool.and_comm]
  rw [(hgroups.map Prod.snd).sum_eq,rollInto,sum_groupBy,hitems]

theorem conserved (h : s.Sound dimsOf) : s.Conserved dimsOf where
  windows gran start hswept hcursor := h.windows hswept hcursor
  totals gran lo hi keys hlo hhi hswept hcursor := h.totals keys hlo hhi hswept hcursor
  cursors := h.cursors
  rerunRaw lo hi hlo hhi hswept hcursor hraw := by
    show (Function.update s.tables 0 _ 0).Perm (s.tables 0)
    rw [Function.update_self]
    exact h.rerun hswept hcursor (h.rolled_raw hlo hhi hraw)
  rerunCascade stage lo hi hlo hhi hsource hswept hcursor := by
    show (Function.update s.tables (stage + 1) _ (stage + 1)).Perm (s.tables (stage + 1))
    rw [Function.update_self]
    exact h.rerun hswept hcursor (h.rolled_cascade hlo hhi hsource (hcursor.trans (h.cursors stage)))

end Sound

end Rollups

private def access (tsMs : ℤ) : AccessRow where
  tsMs := tsMs
  listener := "l"
  route := "r"
  consumer := "c"
  upstream := "u"
  method := "GET"
  status := 200
  statusClass := "2xx"
  durationMs := 3
  attempts := 1
  rateLimited := false
  broken := false
  shed := false
  dims := "\x7b\x7d"
  requestId := "q"
  correlationId := "q"
  requestHeadersRedacted := none
  authIdentity := none

private def days (_ : ℕ) : ℤ := 86400000

/-- A minute whose roll fails once, and is made up for by the next pass. -/
private def madeUpFor : List RollupLabel :=
  [.write (access 10),.sweepRetention 130000 fun _ => false,.write (access 20),.rollRawTo1m 400000,.rollCascade 0 400000,
    .sweepRetention 400000 fun _ => false]

end Dwara.Analytics
