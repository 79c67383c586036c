import Dwara.Analytics.PartitionSound

/-! After a maintenance pass without failures `raw_all` has the rows within the retention,
and the older ones are gone. -/

namespace Dwara.Analytics
open Dwara.Lib Statements

/-- The view that unites all recorded partitions. -/
def Store.currentView (s : Store) : Option (List String) := some (s.partitionNames.insertionSort (· ≤ ·))

section Pass
variable {rawKeepMs nowMs : ℤ} {s t : Store}

theorem perform_maybeRotate (h : perform (maybeRotate nowMs s) s = some t) :
    s.oldestMs nowMs = none ∧ t = s ∨
      ∃ oldest ∈ s.oldestMs nowMs, t = { s.rotateInto nowMs (ymdFromMs oldest) with
        rawAll := (s.rotateInto nowMs (ymdFromMs oldest)).currentView } := by
  rw [maybeRotate] at h
  cases holdest : s.oldestMs nowMs with
  | none =>
    rw [holdest] at h
    exact .inl ⟨rfl,(Option.some.inj h).symm⟩
  | some oldest =>
    rw [holdest] at h
    exact .inr ⟨oldest,rfl,(Option.some.inj h).symm⟩

theorem perform_dropExpiredPartitions (h : perform (dropExpiredPartitions rawKeepMs nowMs s) s = some t) :
    s.expired rawKeepMs nowMs = [] ∧ t = s ∨
      s.expired rawKeepMs nowMs ≠ [] ∧ t = { s.dropPartitions ((s.expired rawKeepMs nowMs).map (·.1)) with
        rawAll := (s.dropPartitions ((s.expired rawKeepMs nowMs).map (·.1))).currentView } := by
  rw [dropExpiredPartitions] at h
  split at h
  case isTrue hexpired => exact .inl ⟨hexpired,(Option.some.inj h).symm⟩
  case isFalse hexpired => exact .inr ⟨hexpired,(Option.some.inj h).symm⟩

/-- A pass rotates, sweeps, and drops what has expired. -/
theorem maintain_eq_some (h : maintain rawKeepMs nowMs s = some t) :
    ∃ r, perform (maybeRotate nowMs s) s = some r ∧
      perform (dropExpiredPartitions rawKeepMs nowMs (r.sweepRaw rawKeepMs nowMs)) (r.sweepRaw rawKeepMs nowMs) = some t := by
  obtain ⟨r,hr,h⟩ := Option.bind_eq_some_iff.mp h
  obtain ⟨q,hq,h⟩ := Option.bind_eq_some_iff.mp h
  obtain rfl := Option.some.inj hq
  exact ⟨r,hr,h⟩

end Pass

/-- What holds of a database after a pass. -/
structure Passed (rawKeepMs nowMs : ℤ) (inserted : List RawRow) (s : Store) : Prop where
  sound : Sound rawKeepMs nowMs inserted s
  view : s.rawAll = s.currentView
  unexpired : s.expired rawKeepMs nowMs = []
  columns : ∀ name ∈ s.partitionNames, (s.tables name).any fun t => t.columns.length = s.raw.columns.length
  swept : ∀ r ∈ s.raw.rows, nowMs - rawKeepMs ≤ r.tsMs
  epoch : ∀ r ∈ s.rows, 0 ≤ r.tsMs ∨ dayMs ≤ nowMs - rawKeepMs

section Maintain
variable {rawKeepMs nowMs : ℤ} {inserted : List RawRow} {s : Store} (h : Sound rawKeepMs nowMs inserted s)
include h

theorem columnsAgree_rotateInto (hcolumns : ColumnsAgree rawKeepMs nowMs s) (date : String) :
    ColumnsAgree rawKeepMs nowMs (s.rotateInto nowMs date) := by
  intro p hp hunexpired
  have hdate : ¬ p.2 < ymdFromMs (nowMs - rawKeepMs) := by
    intro hlt
    exact hunexpired (List.mem_filter.mpr ⟨hp,decide_eq_true hlt⟩)
  have hold : p ∈ s.rawPartitions → (s.tables p.1).all fun t => t.columns.length = s.raw.columns.length := by
    intro hmem
    apply hcolumns p hmem
    intro hexpired
    exact hdate (of_decide_eq_true (List.mem_filter.mp hexpired).2)
  rw [Store.rotateInto]
  simp only
  by_cases hname : p.1 = partitionName date
  · rw [hname,Function.update_self,Store.rotatedTable]
    cases htable : s.tables (partitionName date) with
    | none => simp
    | some t =>
      obtain ⟨q,hq,hqname⟩ := List.mem_map.mp ((h.recorded.tables (partitionName date)).mp (htable ▸ rfl))
      have hqdate : q.2 = date := partitionName_injective ((h.recorded.named q hq).symm.trans hqname)
      have hpdate : p.2 = date := partitionName_injective (((recorded_rotateInto h.recorded).named p hp).symm.trans hname)
      have hpq : p = q := Prod.ext (hname.trans hqname.symm) (hpdate.trans hqdate.symm)
      have hlength := hold (hpq ▸ hq)
      rw [hname,htable] at hlength
      exact hlength
  · rw [Function.update_of_ne hname]
    rcases mem_rotatedPartitions hp with hmem | rfl
    · exact hold hmem
    · exact absurd rfl hname

/-- The rotation of a pass, and the refresh after it. -/
theorem rotated {r : Store} (hnow : 0 ≤ nowMs) (hday : RotatesOneDay nowMs s) (hview : ViewCurrent rawKeepMs nowMs s)
    (hcolumns : ColumnsAgree rawKeepMs nowMs s) (hr : perform (maybeRotate nowMs s) s = some r) :
    Sound rawKeepMs nowMs inserted r ∧ (r.rawAll = r.currentView ∨ r.expired rawKeepMs nowMs ≠ []) ∧
      ColumnsAgree rawKeepMs nowMs r ∧ r.rows.Perm s.rows := by
  rcases perform_maybeRotate hr with ⟨hnone,rfl⟩ | ⟨oldest,holdest,rfl⟩
  · refine ⟨h,?_,hcolumns,List.Perm.refl _⟩
    rcases hview with hview | holdest | hexpired
    · exact .inl hview
    · exact absurd hnone holdest
    · exact .inr hexpired
  · have hguard := hday oldest holdest
    refine ⟨(h.rotateInto (dayBoundaryMs_le hnow) hguard).withView _,.inl rfl,columnsAgree_rotateInto h hcolumns _,?_⟩
    exact rows_rotateInto h.recorded fun hsome r hr => (hguard r hr).2 hsome

/-- The expiry of a pass, and the refresh after it. -/
theorem dropped {t : Store} (hyear : nowMs < year10000Ms) (hview : s.rawAll = s.currentView ∨ s.expired rawKeepMs nowMs ≠ [])
    (hcolumns : ColumnsAgree rawKeepMs nowMs s) (hswept : ∀ r ∈ s.raw.rows, nowMs - rawKeepMs ≤ r.tsMs)
    (hepoch : ∀ r ∈ s.rows, 0 ≤ r.tsMs ∨ dayMs ≤ nowMs - rawKeepMs)
    (ht : perform (dropExpiredPartitions rawKeepMs nowMs s) s = some t) : Passed rawKeepMs nowMs inserted t := by
  have hagree : ∀ p ∈ s.rawPartitions, p ∉ s.expired rawKeepMs nowMs →
      (s.tables p.1).any fun t => t.columns.length = s.raw.columns.length := by
    intro p hp hunexpired
    have hall := hcolumns p hp hunexpired
    have hsome := (h.recorded.tables p.1).mpr (List.mem_map_of_mem hp)
    cases htable : s.tables p.1 with
    | none =>
      rw [htable] at hsome
      cases hsome
    | some t =>
      rw [htable] at hall
      exact hall
  rcases perform_dropExpiredPartitions ht with ⟨hnone,rfl⟩ | ⟨hsome,rfl⟩
  · refine ⟨h,hview.resolve_right (absurd hnone),hnone,?_,hswept,hepoch⟩
    intro name hname
    obtain ⟨p,hp,rfl⟩ := List.mem_map.mp hname
    exact hagree p hp (hnone ▸ List.not_mem_nil)
  · have hkept : ∀ p ∈ (s.dropPartitions ((s.expired rawKeepMs nowMs).map (·.1))).rawPartitions,
        p ∈ s.rawPartitions ∧ p.1 ∉ (s.expired rawKeepMs nowMs).map (·.1) := by
      intro p hp
      obtain ⟨hp,hname⟩ := List.mem_filter.mp hp
      exact ⟨hp,of_decide_eq_true hname⟩
    refine ⟨(h.dropExpired hyear).withView _,rfl,?_,?_,hswept,?_⟩
    · rw [Store.expired,List.filter_eq_nil_iff]
      intro p hp hdate
      obtain ⟨hp,hname⟩ := hkept p hp
      exact hname (List.mem_map_of_mem (List.mem_filter.mpr ⟨hp,hdate⟩))
    · intro name hname
      obtain ⟨p,hp,rfl⟩ := List.mem_map.mp hname
      obtain ⟨hp,hname⟩ := hkept p hp
      rw [Store.dropPartitions]
      simp only
      rw [if_neg hname]
      exact hagree p hp fun hexpired => hname (List.mem_map_of_mem hexpired)
    · intro r hr
      apply hepoch
      have hsub : (s.dropPartitions ((s.expired rawKeepMs nowMs).map (·.1))).rows.Sublist s.rows := by
        rw [rows_dropPartitions]
        exact (List.Sublist.refl _).append (List.filter_sublist.flatMap _)
      exact hsub.subset hr

/-- A pass without failures, on a database that meets its condition. -/
theorem passed {t : Store} (hnow : 0 ≤ nowMs) (hyear : nowMs < year10000Ms) (hday : RotatesOneDay nowMs s)
    (hview : ViewCurrent rawKeepMs nowMs s) (hcolumns : ColumnsAgree rawKeepMs nowMs s) (hepoch : EpochExpired rawKeepMs nowMs s)
    (ht : maintain rawKeepMs nowMs s = some t) : Passed rawKeepMs nowMs inserted t := by
  obtain ⟨r,hr,ht⟩ := maintain_eq_some ht
  obtain ⟨hsound,hcurrent,hagree,hrows⟩ := rotated h hnow hday hview hcolumns hr
  refine dropped hsound.sweepRaw hyear hcurrent hagree ?_ ?_ ht
  · intro q hq
    have hkeep : ¬ q.tsMs < nowMs - rawKeepMs := of_decide_eq_true (List.mem_filter.mp hq).2
    omega
  · intro q hq
    have hsub : (r.sweepRaw rawKeepMs nowMs).rows.Sublist r.rows := List.filter_sublist.append (List.Sublist.refl _)
    have hin : q ∈ s.rows := hrows.mem_iff.mp (hsub.subset hq)
    rcases hepoch with hday | ⟨hraw,hparts⟩
    · exact .inr hday
    · rcases List.mem_append.mp hin with hin | hin
      · exact .inl (hraw q hin)
      · obtain ⟨name,hname,hrow⟩ := List.mem_flatMap.mp hin
        obtain ⟨p,hp,rfl⟩ := List.mem_map.mp hname
        exact .inl (hparts p hp q hrow)

end Maintain

section After
variable {rawKeepMs : ℤ} {w : World} (h : Passed rawKeepMs w.clock w.inserted w.store)
include h

theorem Passed.liveRowsKept : LiveRowsKept rawKeepMs w := by
  have hperm : (w.store.partitionNames.insertionSort (· ≤ ·)).Perm w.store.partitionNames := List.perm_insertionSort _ _
  have hquery : w.store.queryRawAll =
      some (w.store.raw.rows ++ (w.store.partitionNames.insertionSort (· ≤ ·)).flatMap w.store.rowsOf) := by
    rw [Store.queryRawAll,h.view,Store.currentView]
    simp only
    rw [if_pos]
    exact List.all_eq_true.mpr fun name hname => h.columns name (hperm.mem_iff.mp hname)
  have hrows : (w.store.raw.rows ++ (w.store.partitionNames.insertionSort (· ≤ ·)).flatMap w.store.rowsOf).Perm w.store.rows :=
    (hperm.flatMap_right _).append_left _
  refine ⟨_,hquery,?_⟩
  intro i hi hlive
  obtain ⟨r,hr,htag⟩ := h.sound.live i hi hlive
  refine ⟨r,hrows.mem_iff.mpr hr,?_,h.sound.kept_of_tag hi hr htag⟩
  rw [← htag]
  exact Keyed.filter_key_eq ((hrows.map _).nodup_iff.mpr h.sound.distinct) (hrows.mem_iff.mpr hr)

theorem Passed.oldRowsGone (hyear : w.clock - rawKeepMs < year10000Ms) : OldRowsGone rawKeepMs w := by
  intro i hi hold
  have hpast : i.tsMs < w.clock - rawKeepMs := by
    rw [dayMs] at hold
    omega
  constructor
  · intro r hr htag
    have hts := h.sound.tsMs_of_tag hi (List.mem_append_left _ hr) htag
    have hswept := h.swept r hr
    omega
  · intro name r hr htag
    by_cases hname : name ∈ w.store.partitionNames
    · have hrow : r ∈ w.store.rows := List.mem_append_right _ (List.mem_flatMap.mpr ⟨name,hname,hr⟩)
      have hts := h.sound.tsMs_of_tag hi hrow htag
      obtain ⟨p,hp,rfl⟩ := List.mem_map.mp hname
      rw [h.sound.recorded.named p hp] at hr
      obtain ⟨hdate,-⟩ := h.sound.dated p.2 r hr
      have hearlier : p.2 < ymdFromMs (w.clock - rawKeepMs) := by
        rw [← hdate]
        apply ymdFromMs_lt ?_ hyear
        apply epochDay_lt
        · omega
        · exact h.epoch r hrow
      have hexpired : p ∈ w.store.expired rawKeepMs w.clock := List.mem_filter.mpr ⟨hp,decide_eq_true hearlier⟩
      rw [h.unexpired] at hexpired
      cases hexpired
    · rw [rowsOf_of_notMem h.sound.recorded hname] at hr
      cases hr

end After

section Runs
variable {rawKeepMs : ℤ}

/-- Every guarded step keeps what is stored of the rows written. -/
theorem sound_step (w : World) (a : Label) (w' : World) (h : Sound rawKeepMs w.clock w.inserted w.store ∧ 0 ≤ w.clock)
    (hguard : Guard rawKeepMs w a) (hs : w.step rawKeepMs a = some w') :
    Sound rawKeepMs w'.clock w'.inserted w'.store ∧ 0 ≤ w'.clock := by
  obtain ⟨hsound,hclock⟩ := h
  have hcall : ∀ nowMs stop statements, (∀ hlater : Sound rawKeepMs nowMs w.inserted w.store, 0 ≤ nowMs →
      Sound rawKeepMs nowMs w.inserted (execute stop (statements w.store) w.store)) → w.call nowMs stop statements = some w' →
      Sound rawKeepMs w'.clock w'.inserted w'.store ∧ 0 ≤ w'.clock := by
    intro nowMs stop statements hstep hs
    rw [World.call] at hs
    split at hs
    case isFalse => cases hs
    case isTrue hopen =>
      obtain rfl := Option.some.inj hs
      have hnow : 0 ≤ nowMs := le_trans hclock hopen.2
      exact ⟨hstep (hsound.later hopen.2) hnow,hnow⟩
  cases a with
  | insert rec =>
    rw [World.step] at hs
    split at hs
    case isFalse => cases hs
    case isTrue =>
      obtain rfl := Option.some.inj hs
      exact ⟨hsound.insert rfl,hclock⟩
  | maybeRotate nowMs stop => exact hcall nowMs stop _ (fun hlater hnow => hlater.maybeRotate hnow hguard) hs
  | sweepRetention nowMs stop => exact hcall nowMs stop _ (fun hlater _ => hlater.sweepRetention stop) hs
  | dropExpiredPartitions nowMs stop => exact hcall nowMs stop _ (fun hlater _ => hlater.dropExpiredPartitions hguard stop) hs
  | reopen stop =>
    obtain rfl := Option.some.inj hs
    exact ⟨hsound.reopen stop,hclock⟩
  | maintain nowMs =>
    rw [World.step] at hs
    split at hs
    case isFalse => cases hs
    case isTrue hopen =>
      obtain ⟨t,ht,rfl⟩ := Option.map_eq_some_iff.mp hs
      obtain ⟨hyear,hday,hview,hcolumns,hepoch⟩ := hguard
      have hnow : 0 ≤ nowMs := le_trans hclock hopen.2
      exact ⟨(passed (hsound.later hopen.2) hnow hyear hday hview hcolumns hepoch ht).sound,hnow⟩

/-- After a pass without failures that ends a guarded run, rows within the retention are
read once with their values, and rows a day older than it are gone. -/
theorem live_rows_kept (hkeep : 0 < rawKeepMs) {labels : List Label} {nowMs : ℤ} {w : World}
    (hguard : (database rawKeepMs).Along (Guard rawKeepMs) (labels ++ [.maintain nowMs]))
    (hrun : (database rawKeepMs).run (labels ++ [.maintain nowMs]) = some w) :
    LiveRowsKept rawKeepMs w ∧ OldRowsGone rawKeepMs w := by
  obtain ⟨v,hv,hs⟩ := (System.run_concat_eq_some _).mp hrun
  obtain ⟨hsound,hclock⟩ := System.guarded_inv (fun w => Sound rawKeepMs w.clock w.inserted w.store ∧ 0 ≤ w.clock)
    ⟨sound_schema11 rawKeepMs,le_refl 0⟩ sound_step hguard.init hv
  obtain ⟨hyear,hday,hview,hcolumns,hepoch⟩ := hguard.last hv
  have hstep : v.step rawKeepMs (.maintain nowMs) = some w := hs
  rw [World.step] at hstep
  split at hstep
  case isFalse => cases hstep
  case isTrue hopen =>
    obtain ⟨t,ht,rfl⟩ := Option.map_eq_some_iff.mp hstep
    have hpassed := passed (hsound.later hopen.2) (le_trans hclock hopen.2) hyear hday hview hcolumns hepoch ht
    have hcutoff : nowMs - rawKeepMs < year10000Ms := by omega
    exact ⟨Passed.liveRowsKept hpassed,Passed.oldRowsGone hpassed hcutoff⟩

end Runs

section Example

private def hourMs : ℤ := 3600000

private def request (tsMs bytesIn bytesOut : ℤ) : RawRecord where
  tsMs := tsMs
  listener := "edge"
  route := "orders"
  consumer := "anonymous"
  upstream := "backend"
  method := "GET"
  status := 200
  statusClass := "2xx"
  durationMs := 3 / 2
  attempts := 1
  rateLimited := false
  broken := false
  shed := false
  dims := "\x7b\x7d"
  requestId := "r"
  correlationId := "c"
  requestHeadersRedacted := none
  authIdentity := none
  bytesIn := bytesIn
  bytesOut := bytesOut

/-- A rotation whose refresh fails, and the restart after it. -/
private def restarted : List Label :=
  [.reopen 5,.insert (request hourMs 1 2),.insert (request (2 * hourMs) 3 4),.maybeRotate (25 * hourMs) 2,.reopen 5,
    .insert (request (26 * hourMs) 5 6)]

theorem live_rows_kept_restarted : ∃ w, (database dayMs).run (restarted ++ [.maintain (49 * hourMs)]) = some w ∧
    LiveRowsKept dayMs w ∧ OldRowsGone dayMs w := by
  have hsome : ((database dayMs).run (restarted ++ [.maintain (49 * hourMs)])).isSome := by decide +kernel
  obtain ⟨w,hw⟩ := Option.isSome_iff_exists.mp hsome
  exact ⟨w,hw,live_rows_kept (by decide) (System.along_of_alongFrom (by decide +kernel)) hw⟩

/-- Rows of two days rotated into the older one's partition go with it. A row merged into a
partition loses its byte counters. A refresh that fails is not made up for. Partitions from
before the byte counters make `raw_all` unreadable. -/
theorem live_rows_lost :
    (∃ w ∈ (database dayMs).run [.reopen 5,.insert (request (12 * hourMs) 1 2),.insert (request (36 * hourMs) 3 4),
      .maintain (49 * hourMs)], ¬ LiveRowsKept dayMs w) ∧
    (∃ w ∈ (database (3 * dayMs)).run [.reopen 5,.insert (request hourMs 1 2),.maintain (25 * hourMs),
      .insert (request (2 * hourMs) 3 4),.maintain (26 * hourMs)], ¬ LiveRowsKept (3 * dayMs) w) ∧
    (∃ w ∈ (database (3 * dayMs)).run [.reopen 5,.insert (request hourMs 1 2),.maybeRotate (25 * hourMs) 1,
      .maintain (26 * hourMs)], ¬ LiveRowsKept (3 * dayMs) w) ∧
    (∃ w ∈ (database (3 * dayMs)).run [.insert (request hourMs 1 2),.maybeRotate (25 * hourMs) 3,.reopen 5,
      .maintain (26 * hourMs)], ¬ LiveRowsKept (3 * dayMs) w) := by
  refine ⟨?_,?_,?_,?_⟩ <;> decide +kernel

end Example

end Dwara.Analytics
