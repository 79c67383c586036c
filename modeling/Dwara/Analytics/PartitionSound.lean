import Dwara.Analytics.PartitionRuns
import Mathlib.Data.List.Flatten

/-! What every statement keeps of the rows written, and from it every guarded run. -/

namespace Dwara.Analytics
open Dwara.Lib Statements

/-- What every statement keeps of the rows written, for the clock and the retention. -/
structure Sound (rawKeepMs clock : ℤ) (inserted : List RawRow) (s : Store) : Prop where
  numbered : inserted.map (·.tag) = List.range inserted.length
  recorded : s.Recorded
  distinct : (s.rows.map (·.tag)).Nodup
  written : ∀ r ∈ s.rows, ∃ i ∈ inserted, Kept i r
  live : ∀ i ∈ inserted, clock - rawKeepMs ≤ i.tsMs → ∃ r ∈ s.rows, r.tag = i.tag
  dated : ∀ date, ∀ r ∈ s.rowsOf (partitionName date), ymdFromMs r.tsMs = date ∧ r.tsMs < clock

theorem partitionName_injective : Function.Injective partitionName := by
  intro a b h
  have hchars := congrArg String.toList h
  rw [partitionName,partitionName,String.toList_append,String.toList_append] at hchars
  exact String.toList_inj.mp (List.append_cancel_left hchars)

section Statements
variable {rawKeepMs clock : ℤ} {inserted : List RawRow} {s : Store} (h : Sound rawKeepMs clock inserted s)
include h

theorem Sound.later {nowMs : ℤ} (hclock : clock ≤ nowMs) : Sound rawKeepMs nowMs inserted s where
  numbered := h.numbered
  recorded := h.recorded
  distinct := h.distinct
  written := h.written
  live := fun i hi hlive => h.live i hi (by omega)
  dated := by
    intro date r hr
    obtain ⟨hdate,hbefore⟩ := h.dated date r hr
    exact ⟨hdate,by omega⟩

theorem Sound.withView (view : Option (List String)) : Sound rawKeepMs clock inserted { s with rawAll := view } :=
  ⟨h.numbered,⟨h.recorded.named,h.recorded.once,h.recorded.tables⟩,h.distinct,h.written,h.live,h.dated⟩

theorem Sound.refreshRawAllView {f : Store → Option Store} (hf : f ∈ refreshRawAllView) {s' : Store} (hs : f s = some s') :
    Sound rawKeepMs clock inserted s' := by
  rcases List.mem_cons.mp hf with rfl | hf
  · obtain rfl := Option.some.inj hs
    exact h.withView none
  · obtain rfl := List.mem_singleton.mp hf
    obtain rfl := Option.some.inj hs
    exact h.withView _

theorem Sound.kept_of_tag {i r : RawRow} (hi : i ∈ inserted) (hr : r ∈ s.rows) (htag : r.tag = i.tag) : Kept i r := by
  obtain ⟨j,hj,hkept⟩ := h.written r hr
  have hnodup : (inserted.map (·.tag)).Nodup := h.numbered ▸ List.nodup_range
  have hji : j = i := List.inj_on_of_nodup_map hnodup hj hi (hkept.1.symm.trans htag)
  exact hji ▸ hkept

theorem Sound.tsMs_of_tag {i r : RawRow} (hi : i ∈ inserted) (hr : r ∈ s.rows) (htag : r.tag = i.tag) : r.tsMs = i.tsMs :=
  congrArg AccessRow.tsMs (h.kept_of_tag hi hr htag).2.1

theorem Sound.rotateInto {nowMs oldest : ℤ} (hclock : dayBoundaryMs nowMs ≤ clock)
    (hguard : ∀ r ∈ s.previousRows nowMs, ymdFromMs r.tsMs = ymdFromMs oldest ∧
      ((s.tables (partitionName (ymdFromMs oldest))).isSome → mergedRow r = r)) :
    Sound rawKeepMs clock inserted (s.rotateInto nowMs (ymdFromMs oldest)) := by
  have hmerge : (s.tables (partitionName (ymdFromMs oldest))).isSome → ∀ r ∈ s.previousRows nowMs, mergedRow r = r :=
    fun hsome r hr => (hguard r hr).2 hsome
  have hrows := rows_rotateInto h.recorded hmerge
  refine ⟨h.numbered,recorded_rotateInto h.recorded,?_,?_,?_,?_⟩
  · exact (hrows.map _).nodup_iff.mpr h.distinct
  · exact fun r hr => h.written r (hrows.mem_iff.mp hr)
  · intro i hi hlive
    obtain ⟨r,hr,htag⟩ := h.live i hi hlive
    exact ⟨r,hrows.mem_iff.mpr hr,htag⟩
  · intro date r hr
    rw [rowsOf_rotateInto hmerge] at hr
    by_cases hdate : date = ymdFromMs oldest
    · subst hdate
      rw [Function.update_self] at hr
      rcases List.mem_append.mp hr with hr | hr
      · exact h.dated _ r hr
      · have hbefore : r.tsMs < dayBoundaryMs nowMs := of_decide_eq_true (List.mem_filter.mp hr).2
        exact ⟨(hguard r hr).1,by omega⟩
    · have hname : partitionName date ≠ partitionName (ymdFromMs oldest) := fun heq => hdate (partitionName_injective heq)
      rw [Function.update_of_ne hname] at hr
      exact h.dated date r hr

/-- The sweep deletes rows older than the retention only. -/
theorem Sound.sweepRaw : Sound rawKeepMs clock inserted (s.sweepRaw rawKeepMs clock) := by
  have hsub : (s.sweepRaw rawKeepMs clock).rows.Sublist s.rows := List.filter_sublist.append (List.Sublist.refl _)
  refine ⟨h.numbered,⟨h.recorded.named,h.recorded.once,h.recorded.tables⟩,?_,?_,?_,h.dated⟩
  · exact (hsub.map _).nodup h.distinct
  · exact fun r hr => h.written r (hsub.subset hr)
  · intro i hi hlive
    obtain ⟨r,hr,htag⟩ := h.live i hi hlive
    have hts := h.tsMs_of_tag hi hr htag
    refine ⟨r,?_,htag⟩
    rcases List.mem_append.mp hr with hraw | hpart
    · have hkeep : ¬ r.tsMs < clock - rawKeepMs := by omega
      exact List.mem_append_left _ (List.mem_filter.mpr ⟨hraw,decide_eq_true hkeep⟩)
    · exact List.mem_append_right _ hpart

/-- A partition that has expired by its date holds rows older than the retention only. -/
theorem Sound.old_of_expired (hyear : clock < year10000Ms) {p : String × String} (hp : p ∈ s.expired rawKeepMs clock)
    {r : RawRow} (hr : r ∈ s.rowsOf p.1) : r.tsMs < clock - rawKeepMs := by
  obtain ⟨hp,hdate⟩ := List.mem_filter.mp hp
  rw [h.recorded.named p hp] at hr
  obtain ⟨hymd,hbefore⟩ := h.dated p.2 r hr
  apply lt_of_ymdFromMs_lt
  · rw [hymd]
    exact of_decide_eq_true hdate
  · omega

theorem Sound.dropExpired (hyear : clock < year10000Ms) :
    Sound rawKeepMs clock inserted (s.dropPartitions ((s.expired rawKeepMs clock).map (·.1))) := by
  have hsub : (s.dropPartitions ((s.expired rawKeepMs clock).map (·.1))).rows.Sublist s.rows := by
    rw [rows_dropPartitions]
    exact (List.Sublist.refl _).append (List.filter_sublist.flatMap _)
  refine ⟨h.numbered,recorded_dropPartitions _ h.recorded,?_,?_,?_,?_⟩
  · exact (hsub.map _).nodup h.distinct
  · exact fun r hr => h.written r (hsub.subset hr)
  · intro i hi hlive
    obtain ⟨r,hr,htag⟩ := h.live i hi hlive
    have hts := h.tsMs_of_tag hi hr htag
    refine ⟨r,?_,htag⟩
    rw [rows_dropPartitions]
    rcases List.mem_append.mp hr with hraw | hpart
    · exact List.mem_append_left _ hraw
    · obtain ⟨name,hname,hrow⟩ := List.mem_flatMap.mp hpart
      have hkept : name ∉ (s.expired rawKeepMs clock).map (·.1) := by
        intro hexpired
        obtain ⟨p,hp,rfl⟩ := List.mem_map.mp hexpired
        have hold := h.old_of_expired hyear hp hrow
        omega
      exact List.mem_append_right _ (List.mem_flatMap.mpr ⟨name,List.mem_filter.mpr ⟨hname,decide_eq_true hkept⟩,hrow⟩)
  · intro date r hr
    by_cases hname : partitionName date ∈ (s.expired rawKeepMs clock).map (·.1)
    · rw [Store.rowsOf,Store.dropPartitions] at hr
      simp only at hr
      rw [if_pos hname] at hr
      cases hr
    · rw [rowsOf_dropPartitions _ hname] at hr
      exact h.dated date r hr

/-- A column that is added fills in the rows of `raw`. -/
theorem Sound.addColumn {column : String} {fill : RawRow → RawRow} (hfill : ∀ r i, Kept i r → Kept i (fill r)) {s' : Store}
    (hs : s.addColumn column fill = some s') : Sound rawKeepMs clock inserted s' := by
  rw [Store.addColumn] at hs
  split at hs
  case isTrue => cases hs
  case isFalse =>
    obtain rfl := Option.some.inj hs
    have htag : ∀ r ∈ s.raw.rows, (fill r).tag = r.tag := by
      intro r hr
      obtain ⟨i,hi,hkept⟩ := h.written r (List.mem_append_left _ hr)
      rw [(hfill r i hkept).1,hkept.1]
    have hsame : (s.raw.rows.map fill).map (·.tag) = s.raw.rows.map (·.tag) := by
      rw [List.map_map]
      exact List.map_congr_left htag
    refine ⟨h.numbered,⟨h.recorded.named,h.recorded.once,h.recorded.tables⟩,?_,?_,?_,h.dated⟩
    · have hdistinct := h.distinct
      rw [Store.rows,List.map_append] at hdistinct ⊢
      rw [hsame]
      exact hdistinct
    · intro r hr
      rcases List.mem_append.mp hr with hraw | hpart
      · obtain ⟨q,hq,rfl⟩ := List.mem_map.mp hraw
        obtain ⟨i,hi,hkept⟩ := h.written q (List.mem_append_left _ hq)
        exact ⟨i,hi,hfill q i hkept⟩
      · exact h.written r (List.mem_append_right _ hpart)
    · intro i hi hlive
      obtain ⟨r,hr,hri⟩ := h.live i hi hlive
      rcases List.mem_append.mp hr with hraw | hpart
      · exact ⟨fill r,List.mem_append_left _ (List.mem_map_of_mem hraw),(htag r hraw).trans hri⟩
      · exact ⟨r,List.mem_append_right _ hpart,hri⟩

theorem Sound.tag_lt {r : RawRow} (hr : r ∈ s.rows) : r.tag < inserted.length := by
  obtain ⟨i,hi,hkept⟩ := h.written r hr
  rw [hkept.1]
  exact List.mem_range.mp (h.numbered ▸ List.mem_map_of_mem hi)

theorem Sound.insert {row : RawRow} (hrow : row.tag = inserted.length) : Sound rawKeepMs clock (inserted ++ [row]) (s.insert row) := by
  have hrows : (s.insert row).rows.Perm (row :: s.rows) := by
    calc (s.insert row).rows
      _ = s.raw.rows ++ row :: s.partitionNames.flatMap s.rowsOf := List.append_cons _ _ _ ▸ rfl
      List.Perm _ (row :: s.rows) := List.perm_middle
  refine ⟨?_,⟨h.recorded.named,h.recorded.once,h.recorded.tables⟩,?_,?_,?_,h.dated⟩
  · rw [List.map_append,h.numbered,List.length_append,List.length_singleton,List.range_succ,← hrow]
    rfl
  · rw [(hrows.map _).nodup_iff,List.map_cons,List.nodup_cons]
    constructor
    · intro hin
      obtain ⟨r,hr,htag⟩ := List.mem_map.mp hin
      have hlt := h.tag_lt hr
      omega
    · exact h.distinct
  · intro r hr
    rcases List.mem_cons.mp (hrows.mem_iff.mp hr) with rfl | hr
    · exact ⟨r,List.mem_append_right _ List.mem_cons_self,rfl,rfl,.inr rfl,.inr rfl⟩
    · obtain ⟨i,hi,hkept⟩ := h.written r hr
      exact ⟨i,List.mem_append_left _ hi,hkept⟩
  · intro i hi hlive
    rcases List.mem_append.mp hi with hi | hi
    · obtain ⟨r,hr,htag⟩ := h.live i hi hlive
      exact ⟨r,hrows.mem_iff.mpr (List.mem_cons_of_mem row hr),htag⟩
    · obtain rfl := List.mem_singleton.mp hi
      exact ⟨i,hrows.mem_iff.mpr List.mem_cons_self,rfl⟩

end Statements

theorem sound_schema11 (rawKeepMs : ℤ) : Sound rawKeepMs 0 [] schema11 where
  numbered := rfl
  recorded := ⟨fun _ hp => absurd hp List.not_mem_nil,List.nodup_nil,fun _ => iff_of_false Bool.false_ne_true List.not_mem_nil⟩
  distinct := List.nodup_nil
  written := fun _ hr => absurd hr List.not_mem_nil
  live := fun _ hi _ => absurd hi List.not_mem_nil
  dated := fun _ _ hr => absurd hr List.not_mem_nil

theorem dayBoundaryMs_le {nowMs : ℤ} (h : 0 ≤ nowMs) : dayBoundaryMs nowMs ≤ nowMs := by
  rw [dayBoundaryMs,dayMs,Int.tdiv_eq_ediv_of_nonneg h]
  omega

section Calls
variable {rawKeepMs nowMs : ℤ} {inserted : List RawRow} {s : Store} (h : Sound rawKeepMs nowMs inserted s)
include h

/-- A rotation may stop anywhere. -/
theorem Sound.maybeRotate (hnow : 0 ≤ nowMs) {stop : ℕ} (hguard : stop = 0 ∨ RotatesOneDay nowMs s) :
    Sound rawKeepMs nowMs inserted (execute stop (maybeRotate nowMs s) s) := by
  cases stop with
  | zero => exact h
  | succ stop =>
    have honeDay := hguard.resolve_left (Nat.succ_ne_zero stop)
    rw [Analytics.maybeRotate]
    cases holdest : s.oldestMs nowMs with
    | none => exact h
    | some oldest =>
      have hrotated := h.rotateInto (dayBoundaryMs_le hnow) (honeDay oldest holdest)
      exact execute_inv (fun f hf s s' hs => hs.refreshRawAllView hf) stop hrotated

theorem Sound.sweepRetention (stop : ℕ) : Sound rawKeepMs nowMs inserted (execute stop (sweepRetention rawKeepMs nowMs s) s) := by
  apply execute_inv ?_ stop h
  intro f hf s s' hs heq
  obtain rfl := List.mem_singleton.mp hf
  obtain rfl := Option.some.inj heq
  exact hs.sweepRaw

theorem Sound.dropExpiredPartitions (hyear : nowMs < year10000Ms) (stop : ℕ) :
    Sound rawKeepMs nowMs inserted (execute stop (dropExpiredPartitions rawKeepMs nowMs s) s) := by
  apply execute_inv ?_ stop h
  intro f hf s s' hs heq
  rw [Analytics.dropExpiredPartitions] at hf
  split at hf
  case isTrue => cases hf
  case isFalse =>
    rcases List.mem_cons.mp hf with rfl | hf
    · obtain rfl := Option.some.inj heq
      exact hs.dropExpired hyear
    · exact hs.refreshRawAllView hf heq

/-- Opening the database migrates it and refreshes the view, as far as it gets. -/
theorem Sound.reopen (stop : ℕ) : Sound rawKeepMs nowMs inserted (execute stop (migrate s ++ Analytics.refreshRawAllView) s) := by
  apply execute_inv ?_ stop h
  intro f hf s' s'' hs heq
  rcases List.mem_append.mp hf with hf | hf
  · rw [migrate] at hf
    split at hf
    case isTrue =>
      obtain rfl := List.mem_singleton.mp hf
      cases heq
    case isFalse =>
      split at hf
      case isFalse => cases hf
      case isTrue =>
        rcases List.mem_cons.mp hf with rfl | hf
        · refine hs.addColumn ?_ heq
          rintro r i ⟨htag,hrow,hin,hout⟩
          refine ⟨htag,hrow,?_,hout⟩
          rcases hin with hin | hin
          · exact .inl hin
          · cases hwritten : i.bytesIn with
            | none => exact .inl rfl
            | some b => simp [hin,hwritten]
        · rcases List.mem_cons.mp hf with rfl | hf
          · refine hs.addColumn ?_ heq
            rintro r i ⟨htag,hrow,hin,hout⟩
            refine ⟨htag,hrow,hin,?_⟩
            rcases hout with hout | hout
            · exact .inl hout
            · cases hwritten : i.bytesOut with
              | none => exact .inl rfl
              | some b => simp [hout,hwritten]
          · obtain rfl := List.mem_singleton.mp hf
            obtain rfl := Option.some.inj heq
            exact ⟨hs.numbered,⟨hs.recorded.named,hs.recorded.once,hs.recorded.tables⟩,hs.distinct,hs.written,hs.live,hs.dated⟩
  · exact hs.refreshRawAllView hf heq

end Calls

end Dwara.Analytics
