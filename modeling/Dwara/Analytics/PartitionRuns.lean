import Dwara.Analytics.Schema
import Dwara.Lib.System
import Dwara.Lib.Keyed

/-! Writers, maintenance calls and restarts over one analytics database. Any statement may
fail; the calls of one process go on, and a process that stops is followed by another open. -/

namespace Dwara.Analytics
open Dwara.Lib Statements

/-- The database and the process on it, the last clock reading, and the rows written so far. -/
structure World where
  store : Store
  opened : Bool
  clock : ℤ
  inserted : List RawRow

/-- `stop` counts what a call makes durable before a statement fails or the process stops. -/
inductive Label where
  | insert (rec : RawRecord)
  | maybeRotate (nowMs : ℤ) (stop : ℕ)
  | sweepRetention (nowMs : ℤ) (stop : ℕ)
  | dropExpiredPartitions (nowMs : ℤ) (stop : ℕ)
  | reopen (stop : ℕ)
  | maintain (nowMs : ℤ)

/-- A maintenance pass in which no statement fails. Its rollups only read `raw_all`. -/
def maintain (rawKeepMs nowMs : ℤ) (s : Store) : Option Store := do
  let s ← perform (maybeRotate nowMs s) s
  let s ← perform (sweepRetention rawKeepMs nowMs s) s
  perform (dropExpiredPartitions rawKeepMs nowMs s) s

namespace World
variable (rawKeepMs : ℤ) (w : World)

/-- A call of an open store, on a clock that does not run backwards. -/
def call (nowMs : ℤ) (stop : ℕ) (statements : Store → List (Store → Option Store)) : Option World :=
  if w.opened ∧ w.clock ≤ nowMs then
    some { w with store := execute stop (statements w.store) w.store,clock := nowMs }
  else none

def step (w : World) : Label → Option World
  | .insert rec =>
    if w.opened then
      let row := w.store.stored rec w.inserted.length
      some { w with store := w.store.insert row,inserted := w.inserted ++ [row] }
    else none
  | .maybeRotate nowMs stop => w.call nowMs stop (maybeRotate nowMs)
  | .sweepRetention nowMs stop => w.call nowMs stop (sweepRetention rawKeepMs nowMs)
  | .dropExpiredPartitions nowMs stop => w.call nowMs stop (dropExpiredPartitions rawKeepMs nowMs)
  | .reopen stop =>
    let store := execute stop (migrate w.store ++ refreshRawAllView) w.store
    -- a refresh that fails is only logged, a migration that fails is an error of the open
    some { w with store := store,opened := store.userVersion = latestSchemaVersion }
  | .maintain nowMs =>
    if w.opened ∧ w.clock ≤ nowMs then
      (maintain rawKeepMs nowMs w.store).map fun s => { w with store := s,clock := nowMs }
    else none

end World

/-- One database from schema 11 on, with the clock after 1970-01-01. -/
def database (rawKeepMs : ℤ) : System World Label := ⟨⟨schema11,true,0,[]⟩,World.step rawKeepMs⟩

/-- A stored row is the one written: a column that had a value then has it still. -/
def Kept (written r : RawRow) : Prop :=
  r.tag = written.tag ∧ r.toAccessRow = written.toAccessRow ∧
    (written.bytesIn = none ∨ r.bytesIn = written.bytesIn) ∧ (written.bytesOut = none ∨ r.bytesOut = written.bytesOut)

instance (written r : RawRow) : Decidable (Kept written r) := inferInstanceAs (Decidable (_ ∧ _ ∧ _ ∧ _))

/-- `raw_all` can be read, and has each row within the retention once, with its values. -/
def LiveRowsKept (rawKeepMs : ℤ) (w : World) : Prop :=
  ∃ rows ∈ w.store.queryRawAll, ∀ i ∈ w.inserted, w.clock - rawKeepMs ≤ i.tsMs →
    ∃ r ∈ rows, (rows.filter fun r => r.tag = i.tag) = [r] ∧ Kept i r

/-- No table holds a row that is a day older than the retention. -/
def OldRowsGone (rawKeepMs : ℤ) (w : World) : Prop :=
  ∀ i ∈ w.inserted, i.tsMs ≤ w.clock - rawKeepMs - dayMs →
    (∀ r ∈ w.store.raw.rows, r.tag ≠ i.tag) ∧ ∀ name, ∀ r ∈ w.store.rowsOf name, r.tag ≠ i.tag

instance (rawKeepMs : ℤ) (w : World) : Decidable (LiveRowsKept rawKeepMs w) :=
  inferInstanceAs (Decidable (∃ rows ∈ w.store.queryRawAll, _))

section Condition
variable (rawKeepMs nowMs : ℤ) (s : Store)

/-- What a rotation moves is of one day, and carries no byte counter into a partition that
is there already. -/
def RotatesOneDay : Prop :=
  ∀ oldest ∈ s.oldestMs nowMs, ∀ r ∈ s.previousRows nowMs, ymdFromMs r.tsMs = ymdFromMs oldest ∧
    ((s.tables (partitionName (ymdFromMs oldest))).isSome → mergedRow r = r)

/-- The view is the one the last change of the partitions asks for, unless the pass
refreshes it. -/
def ViewCurrent : Prop :=
  s.rawAll = some (s.partitionNames.insertionSort (· ≤ ·)) ∨ s.oldestMs nowMs ≠ none ∨ s.expired rawKeepMs nowMs ≠ []

/-- The partitions within the retention have the columns of `raw`. -/
def ColumnsAgree : Prop :=
  ∀ p ∈ s.rawPartitions, p ∉ s.expired rawKeepMs nowMs →
    (s.tables p.1).all fun t => t.columns.length = s.raw.columns.length

/-- Rows from before 1970 are stored only while a day of 1970 has expired. -/
def EpochExpired : Prop :=
  dayMs ≤ nowMs - rawKeepMs ∨ (∀ r ∈ s.raw.rows, 0 ≤ r.tsMs) ∧ ∀ p ∈ s.rawPartitions, ∀ r ∈ s.rowsOf p.1, 0 ≤ r.tsMs

/-- What each call needs of the database and the time it is made at. -/
def Guard (rawKeepMs : ℤ) (w : World) : Label → Prop
  | .insert _ | .sweepRetention _ _ | .reopen _ => True
  | .maybeRotate nowMs stop => stop = 0 ∨ RotatesOneDay nowMs w.store
  | .dropExpiredPartitions nowMs _ => nowMs < year10000Ms
  | .maintain nowMs => nowMs < year10000Ms ∧ RotatesOneDay nowMs w.store ∧ ViewCurrent rawKeepMs nowMs w.store ∧
      ColumnsAgree rawKeepMs nowMs w.store ∧ EpochExpired rawKeepMs nowMs w.store

instance decidableRotatesOneDay : Decidable (RotatesOneDay nowMs s) :=
  inferInstanceAs (Decidable (∀ oldest ∈ s.oldestMs nowMs, _))

instance decidableViewCurrent : Decidable (ViewCurrent rawKeepMs nowMs s) := inferInstanceAs (Decidable (_ ∨ _ ∨ _))

instance decidableColumnsAgree : Decidable (ColumnsAgree rawKeepMs nowMs s) :=
  inferInstanceAs (Decidable (∀ p ∈ s.rawPartitions, _))

instance decidableEpochExpired : Decidable (EpochExpired rawKeepMs nowMs s) := inferInstanceAs (Decidable (_ ∨ _ ∧ _))

instance decidableGuard (w : World) : (a : Label) → Decidable (Guard rawKeepMs w a)
  | .insert _ | .sweepRetention _ _ | .reopen _ => isTrue trivial
  | .maybeRotate _ _ => inferInstanceAs (Decidable (_ ∨ _))
  | .dropExpiredPartitions nowMs _ => inferInstanceAs (Decidable (nowMs < year10000Ms))
  | .maintain _ => inferInstanceAs (Decidable (_ ∧ _ ∧ _ ∧ _ ∧ _))

end Condition

end Dwara.Analytics

/-! What each statement does to the rows of the raw table and its partitions taken together. -/

namespace Dwara.Analytics
open Dwara.Lib

namespace Store

/-- Every row of the raw table and the recorded partitions. -/
def rows (s : Store) : List RawRow := s.raw.rows ++ s.partitionNames.flatMap s.rowsOf

/-- The records of `raw_partitions` are the partitions there are, each named by its date. -/
structure Recorded (s : Store) : Prop where
  named : ∀ p ∈ s.rawPartitions, p.1 = partitionName p.2
  once : s.partitionNames.Nodup
  tables : ∀ name, (s.tables name).isSome ↔ name ∈ s.partitionNames

end Store

section Rotate
variable {s : Store} {nowMs : ℤ} {date : String}

section Merge
variable (hmerge : (s.tables (partitionName date)).isSome → ∀ r ∈ s.previousRows nowMs, mergedRow r = r)
include hmerge

theorem rowsOf_rotateInto : (s.rotateInto nowMs date).rowsOf =
    Function.update s.rowsOf (partitionName date) (s.rowsOf (partitionName date) ++ s.previousRows nowMs) := by
  funext name
  rw [Store.rowsOf,Store.rotateInto]
  simp only
  by_cases hname : name = partitionName date
  · subst hname
    rw [Function.update_self,Function.update_self,Store.rotatedTable,Store.rowsOf]
    cases htable : s.tables (partitionName date) with
    | none => rfl
    | some t =>
      have hsame : (s.previousRows nowMs).map mergedRow = s.previousRows nowMs :=
        (List.map_congr_left (hmerge (htable ▸ rfl))).trans (List.map_id _)
      simp only [Option.elim]
      rw [hsame]
  · rw [Function.update_of_ne hname,Function.update_of_ne hname]
    rfl

end Merge

theorem mem_rotatedPartitions {p : String × String} (hp : p ∈ (s.rotateInto nowMs date).rawPartitions) :
    p ∈ s.rawPartitions ∨ p = (partitionName date,date) := by
  rw [Store.rotateInto] at hp
  simp only at hp
  rw [Store.rotatedPartitions] at hp
  cases htable : s.tables (partitionName date) with
  | some t =>
    rw [htable] at hp
    exact .inl hp
  | none =>
    rw [htable] at hp
    rcases List.mem_append.mp hp with hp | hp
    · exact .inl (List.mem_filter.mp hp).1
    · exact .inr (List.mem_singleton.mp hp)

variable (h : s.Recorded)
include h

theorem rowsOf_of_notMem {name : String} (hname : name ∉ s.partitionNames) : s.rowsOf name = [] := by
  cases htable : s.tables name with
  | none =>
    rw [Store.rowsOf,htable]
    rfl
  | some t => exact absurd ((h.tables name).mp (htable ▸ rfl)) hname

theorem partitionNames_rotateInto : (s.rotateInto nowMs date).partitionNames =
    if partitionName date ∈ s.partitionNames then s.partitionNames else s.partitionNames ++ [partitionName date] := by
  rw [Store.partitionNames,Store.rotateInto]
  simp only
  rw [Store.rotatedPartitions]
  cases htable : s.tables (partitionName date) with
  | some t => rw [if_pos ((h.tables _).mp (htable ▸ rfl))]; rfl
  | none =>
    have hnot : partitionName date ∉ s.partitionNames := by
      intro hmem
      have hsome := (h.tables _).mpr hmem
      rw [htable] at hsome
      cases hsome
    have hall : s.rawPartitions.filter (·.1 ≠ partitionName date) = s.rawPartitions := by
      rw [List.filter_eq_self]
      intro p hp
      have hne : p.1 ≠ partitionName date := fun heq => hnot (heq ▸ List.mem_map_of_mem hp)
      exact decide_eq_true hne
    rw [if_neg hnot]
    simp only
    rw [hall,List.map_append]
    rfl

/-- A rotation moves rows and keeps them all. -/
theorem rows_rotateInto (hmerge : (s.tables (partitionName date)).isSome → ∀ r ∈ s.previousRows nowMs, mergedRow r = r) :
    (s.rotateInto nowMs date).rows.Perm s.rows := by
  have hraw : ((s.raw.rows.filter fun r => ¬ r.tsMs < dayBoundaryMs nowMs) ++ s.previousRows nowMs).Perm s.raw.rows := by
    apply List.perm_append_comm.trans
    have hsplit := List.filter_append_perm (fun r : RawRow => decide (r.tsMs < dayBoundaryMs nowMs)) s.raw.rows
    simpa only [Store.previousRows,decide_not] using hsplit
  have hparts : ((s.rotateInto nowMs date).partitionNames.flatMap (s.rotateInto nowMs date).rowsOf).Perm
      (s.partitionNames.flatMap s.rowsOf ++ s.previousRows nowMs) := by
    rw [partitionNames_rotateInto h,rowsOf_rotateInto hmerge]
    split
    case isTrue hmem => exact Keyed.flatMap_update_append_perm h.once hmem s.rowsOf (s.previousRows nowMs)
    case isFalse hnot =>
      have hsame : s.partitionNames.flatMap (Function.update s.rowsOf (partitionName date)
          (s.rowsOf (partitionName date) ++ s.previousRows nowMs)) = s.partitionNames.flatMap s.rowsOf := by
        apply List.flatMap_congr
        intro name hname
        have hne : name ≠ partitionName date := by
          rintro rfl
          exact hnot hname
        exact Function.update_of_ne hne _ _
      rw [List.flatMap_append,hsame,List.flatMap_singleton,Function.update_self,rowsOf_of_notMem h hnot,List.nil_append]
  calc (s.rotateInto nowMs date).rows
    _ = (s.raw.rows.filter fun r => ¬ r.tsMs < dayBoundaryMs nowMs) ++
          (s.rotateInto nowMs date).partitionNames.flatMap (s.rotateInto nowMs date).rowsOf := rfl
    List.Perm _ ((s.raw.rows.filter fun r => ¬ r.tsMs < dayBoundaryMs nowMs) ++
          (s.partitionNames.flatMap s.rowsOf ++ s.previousRows nowMs)) := hparts.append_left _
    List.Perm _ ((s.raw.rows.filter fun r => ¬ r.tsMs < dayBoundaryMs nowMs) ++
          (s.previousRows nowMs ++ s.partitionNames.flatMap s.rowsOf)) := List.perm_append_comm.append_left _
    _ = (s.raw.rows.filter fun r => ¬ r.tsMs < dayBoundaryMs nowMs) ++ s.previousRows nowMs ++
          s.partitionNames.flatMap s.rowsOf := (List.append_assoc _ _ _).symm
    List.Perm _ s.rows := hraw.append_right _

theorem recorded_rotateInto : (s.rotateInto nowMs date).Recorded where
  named := by
    intro p hp
    rcases mem_rotatedPartitions hp with hp | rfl
    · exact h.named p hp
    · rfl
  once := by
    rw [partitionNames_rotateInto h]
    split
    case isTrue => exact h.once
    case isFalse hnot =>
      have hfresh : ∀ name ∈ s.partitionNames, ∀ other ∈ [partitionName date], name ≠ other := by
        intro name hname other hother heq
        exact hnot (List.mem_singleton.mp hother ▸ heq ▸ hname)
      exact List.nodup_append.mpr ⟨h.once,List.nodup_singleton _,hfresh⟩
  tables := by
    intro name
    rw [partitionNames_rotateInto h,Store.rotateInto]
    simp only
    by_cases hname : name = partitionName date
    · subst hname
      rw [Function.update_self]
      split
      case isTrue hmem => simp [hmem]
      case isFalse => simp
    · rw [Function.update_of_ne hname,h.tables name]
      split
      case isTrue => rfl
      case isFalse => simp [hname]

end Rotate

section Drop
variable {s : Store} (names : List String)

theorem partitionNames_dropPartitions : (s.dropPartitions names).partitionNames = s.partitionNames.filter (· ∉ names) := by
  rw [Store.partitionNames,Store.partitionNames,List.filter_map]
  rfl

theorem rowsOf_dropPartitions {name : String} (h : name ∉ names) : (s.dropPartitions names).rowsOf name = s.rowsOf name := by
  rw [Store.rowsOf,Store.dropPartitions]
  simp only
  rw [if_neg h]
  rfl

theorem recorded_dropPartitions (h : s.Recorded) : (s.dropPartitions names).Recorded where
  named := fun p hp => h.named p (List.mem_filter.mp hp).1
  once := by
    rw [partitionNames_dropPartitions]
    exact h.once.filter _
  tables := by
    intro name
    rw [partitionNames_dropPartitions,List.mem_filter,← h.tables name,Store.dropPartitions]
    simp only
    by_cases hname : name ∈ names <;> simp [hname]

theorem rows_dropPartitions : (s.dropPartitions names).rows = s.raw.rows ++ (s.partitionNames.filter (· ∉ names)).flatMap s.rowsOf := by
  rw [Store.rows,partitionNames_dropPartitions]
  congr 1
  apply List.flatMap_congr
  intro name hname
  exact rowsOf_dropPartitions names (of_decide_eq_true (List.mem_filter.mp hname).2)

end Drop

end Dwara.Analytics
