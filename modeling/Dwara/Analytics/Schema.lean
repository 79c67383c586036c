import Dwara.Lib.Machine
import Dwara.Lib.CivilDate
import Dwara.Lib.Decimal
import Mathlib.Data.Int.Notation
import Mathlib.Data.List.Sort
import Mathlib.Data.Rat.Init
import Mathlib.Data.String.Basic
import Mathlib.Logic.Function.Basic

/-! The raw access table of the analytics store, its dated partitions, and the view over all
of them. Durations are exact numbers. -/

namespace Dwara.Analytics

/-- The columns of an access row since schema 10, the row id apart. -/
structure AccessRow where
  tsMs : ℤ
  listener : String
  route : String
  consumer : String
  upstream : String
  method : String
  status : ℕ
  statusClass : String
  durationMs : ℚ
  attempts : ℕ
  rateLimited : Bool
  broken : Bool
  shed : Bool
  dims : String
  requestId : String
  correlationId : String
  requestHeadersRedacted : Option String
  authIdentity : Option String
  deriving DecidableEq, Repr

/-- A completed request, as the writer flushes it. -/
structure RawRecord extends AccessRow where
  bytesIn : ℤ
  bytesOut : ℤ
  deriving DecidableEq, Repr

/-- A stored row. A byte counter is missing where the row has no value of that column; no
statement reads `tag`, the place of the row in the order of insertion. -/
structure RawRow extends AccessRow where
  bytesIn : Option ℤ
  bytesOut : Option ℤ
  tag : ℕ
  deriving DecidableEq, Repr

structure Table where
  columns : List String
  rows : List RawRow

/-- The columns of `raw` in schema 11. -/
def rawColumns : List String :=
  ["id","ts_ms","listener","route","consumer","upstream","method","status","status_class","duration_ms","attempts",
    "rate_limited","broken","shed","dims","request_id","correlation_id","request_headers_redacted","auth_identity"]

/-- The database. `tables` are the dated partitions, `rawPartitions` what `raw_partitions`
records of them, and `rawAll` the partitions the view `raw_all` unites with `raw`. -/
structure Store where
  userVersion : ℕ
  raw : Table
  tables : String → Option Table
  rawPartitions : List (String × String)
  rawAll : Option (List String)

def latestSchemaVersion : ℕ := 12

namespace Store
variable (s : Store)

def rowsOf (name : String) : List RawRow := (s.tables name).elim [] Table.rows

def partitionNames : List String := s.rawPartitions.map (·.1)

/-- What a query of `raw_all` reads. It fails without the view, when a table is missing, and
when the tables have different numbers of columns. -/
def queryRawAll : Option (List RawRow) :=
  match s.rawAll with
  | none => none
  | some names =>
    if names.all fun name => (s.tables name).any fun t => t.columns.length = s.raw.columns.length then
      some (s.raw.rows ++ names.flatMap s.rowsOf)
    else none

/-- The row a record becomes: columns the table lacks take no value. -/
def stored (rec : RawRecord) (tag : ℕ) : RawRow where
  toAccessRow := rec.toAccessRow
  bytesIn := if "bytes_in" ∈ s.raw.columns then some rec.bytesIn else none
  bytesOut := if "bytes_out" ∈ s.raw.columns then some rec.bytesOut else none
  tag := tag

def insert (row : RawRow) : Store := { s with raw := { s.raw with rows := s.raw.rows ++ [row] } }

def dropView : Option Store := some { s with rawAll := none }
def createView : Option Store := some { s with rawAll := some (s.partitionNames.insertionSort (· ≤ ·)) }

/-- `ALTER TABLE raw ADD COLUMN … NOT NULL DEFAULT 0`: rows without a value read the default. -/
def addColumn (column : String) (fill : RawRow → RawRow) : Option Store :=
  if column ∈ s.raw.columns then none
  else some { s with raw := { columns := s.raw.columns ++ [column],rows := s.raw.rows.map fill } }

def addBytesIn : Option Store := s.addColumn "bytes_in" fun r => { r with bytesIn := some (r.bytesIn.getD 0) }
def addBytesOut : Option Store := s.addColumn "bytes_out" fun r => { r with bytesOut := some (r.bytesOut.getD 0) }
def setUserVersion (version : ℕ) : Option Store := some { s with userVersion := version }

end Store

def refreshRawAllView : List (Store → Option Store) := [Store.dropView,Store.createView]

/-- The migration of a database of schema 11 or later. -/
def migrate (s : Store) : List (Store → Option Store) :=
  if latestSchemaVersion < s.userVersion then [fun _ => none]
  else if s.userVersion < 12 then [Store.addBytesIn,Store.addBytesOut,(·.setUserVersion 12)]
  else []

/-- An empty database of schema 11, as the build before the byte counters creates it. -/
def schema11 : Store := ⟨11,⟨rawColumns,[]⟩,fun _ => none,[],some []⟩

/-! Daily partitions of the raw table: rotation, and retention by the date in the name. A call
is the list of what it makes durable, a transaction being one of them. -/
open Dwara.Lib CivilDate Decimal

def dayMs : ℤ := 86400000

/-- The day of a time since 1970-01-01; earlier times count as that day. -/
def epochDay (ms : ℤ) : ℤ := max (ms.tdiv 1000) 0 / 86400

/-- `YYYYMMDD` in UTC. -/
def ymdFromMs (ms : ℤ) : String :=
  let date := civilFromDays (epochDay ms)
  String.ofList (padded 4 date.1.toNat ++ (padded 2 date.2.1.toNat ++ padded 2 date.2.2.toNat))

def dayBoundaryMs (nowMs : ℤ) : ℤ := nowMs.tdiv dayMs * dayMs

namespace Store
variable (s : Store)

/-- The rows of `raw` from before today. -/
def previousRows (nowMs : ℤ) : List RawRow := s.raw.rows.filter fun r => r.tsMs < dayBoundaryMs nowMs

def oldestMs (nowMs : ℤ) : Option ℤ := ((s.previousRows nowMs).map (·.tsMs)).min?

end Store

def partitionName (date : String) : String := "raw_" ++ date

/-- The merge names the columns of schema 11, so the byte counters stay empty. -/
def mergedRow (r : RawRow) : RawRow := { r with bytesIn := none,bytesOut := none }

namespace Store
variable (s : Store)

/-- The partition of a date once the rows of earlier days are in it. -/
def rotatedTable (nowMs : ℤ) (date : String) : Table :=
  match s.tables (partitionName date) with
  | some t => { t with rows := t.rows ++ (s.previousRows nowMs).map mergedRow }
  | none => { columns := s.raw.columns,rows := s.previousRows nowMs }

/-- A partition the rotation creates is recorded, in place of an entry of that name. -/
def rotatedPartitions (date : String) : List (String × String) :=
  match s.tables (partitionName date) with
  | some _ => s.rawPartitions
  | none => s.rawPartitions.filter (·.1 ≠ partitionName date) ++ [(partitionName date,date)]

/-- The rotation's transaction, for the date of its oldest row. -/
def rotateInto (nowMs : ℤ) (date : String) : Store :=
  { s with
    raw := { s.raw with rows := s.raw.rows.filter fun r => ¬ r.tsMs < dayBoundaryMs nowMs }
    tables := Function.update s.tables (partitionName date) (some (s.rotatedTable nowMs date))
    rawPartitions := s.rotatedPartitions date }

/-- `date_ymd < cutoff_ymd`, both as text. -/
def expired (rawKeepMs nowMs : ℤ) : List (String × String) :=
  s.rawPartitions.filter fun p => p.2 < ymdFromMs (nowMs - rawKeepMs)

def dropPartitions (names : List String) : Store :=
  { s with
    tables := fun name => if name ∈ names then none else s.tables name
    rawPartitions := s.rawPartitions.filter (·.1 ∉ names) }

/-- The sweep of the raw table. -/
def sweepRaw (rawKeepMs nowMs : ℤ) : Store :=
  { s with raw := { s.raw with rows := s.raw.rows.filter fun r => ¬ r.tsMs < nowMs - rawKeepMs } }

end Store

def maybeRotate (nowMs : ℤ) (s : Store) : List (Store → Option Store) :=
  match s.oldestMs nowMs with
  | none => []
  | some oldestMs => (fun s => some (s.rotateInto nowMs (ymdFromMs oldestMs))) :: refreshRawAllView

def dropExpiredPartitions (rawKeepMs nowMs : ℤ) (s : Store) : List (Store → Option Store) :=
  if s.expired rawKeepMs nowMs = [] then []
  else (fun s => some (s.dropPartitions ((s.expired rawKeepMs nowMs).map (·.1)))) :: refreshRawAllView

def sweepRetention (rawKeepMs nowMs : ℤ) (_ : Store) : List (Store → Option Store) := [fun s => some (s.sweepRaw rawKeepMs nowMs)]

/-- The start of the year 10000, from which on a date has nine digits. -/
def year10000Ms : ℤ := 253402300800000

section Dates

theorem epochDay_eq (ms : ℤ) : epochDay ms = max ms 0 / 86400000 := by
  rw [epochDay]
  rcases Int.lt_or_le ms 0 with hneg | hpos
  · have htrunc : ms.tdiv 1000 = -(-ms / 1000) := by
      rw [← Int.tdiv_eq_ediv_of_nonneg (by omega),Int.neg_tdiv,Int.neg_neg]
    rw [htrunc]
    omega
  · rw [Int.tdiv_eq_ediv_of_nonneg hpos]
    omega

theorem epochDay_nonneg (ms : ℤ) : 0 ≤ epochDay ms := by
  rw [epochDay_eq]
  omega

theorem epochDay_mono {a b : ℤ} (h : a ≤ b) : epochDay a ≤ epochDay b := by
  rw [epochDay_eq,epochDay_eq]
  omega

/-- A time is a day before another when it is 24 hours earlier, and that one is past the first day. -/
theorem epochDay_lt {a b : ℤ} (hab : a ≤ b - dayMs) (h : 0 ≤ a ∨ dayMs ≤ b) : epochDay a < epochDay b := by
  rw [dayMs] at *
  rw [epochDay_eq,epochDay_eq]
  omega

private theorem year_of_epochDay {ms : ℤ} (h : ms < year10000Ms) :
    0 < (civilFromDays (epochDay ms)).1 ∧ (civilFromDays (epochDay ms)).1 < 10000 := by
  rw [year10000Ms] at h
  have hfirst : civilFromDays 0 = (1970,1,1) := by decide
  have hlast : civilFromDays 2932896 = (9999,12,31) := by decide
  have hnonneg := epochDay_nonneg ms
  have hle : epochDay ms ≤ 2932896 := by
    rw [epochDay_eq]
    omega
  constructor
  · rcases Int.lt_or_eq_of_le hnonneg with hlt | heq
    · have hbefore := civilFromDays_before hlt
      rw [hfirst,Before] at hbefore
      simp only at hbefore
      omega
    · rw [← heq,hfirst]
      decide
  · rcases Int.lt_or_eq_of_le hle with hlt | heq
    · have hbefore := civilFromDays_before hlt
      rw [hlast,Before] at hbefore
      simp only at hbefore
      omega
    · rw [heq,hlast]
      decide

/-- Until the year 10000 the text of a later day comes later. -/
theorem ymdFromMs_lt {a b : ℤ} (hday : epochDay a < epochDay b) (hb : b < year10000Ms) : ymdFromMs a < ymdFromMs b := by
  have ha : a < year10000Ms := by
    rcases Int.lt_or_le a b with hlt | hle
    · omega
    · have hmono := epochDay_mono hle
      omega
  have hya := year_of_epochDay ha
  have hyb := year_of_epochDay hb
  have hma := civilFromDays_month (epochDay a)
  have hmb := civilFromDays_month (epochDay b)
  have hda := civilFromDays_day (epochDay a)
  have hdb := civilFromDays_day (epochDay b)
  have hbefore := civilFromDays_before hday
  rw [ymdFromMs,ymdFromMs,String.lt_iff_toList_lt]
  simp only [String.toList_ofList]
  generalize civilFromDays (epochDay a) = da at *
  generalize civilFromDays (epochDay b) = db at *
  have hlen : (padded 4 da.1.toNat).length = (padded 4 db.1.toNat).length := by
    rw [length_padded (by decide) (by omega),length_padded (by decide) (by omega)]
  have hlen' : (padded 2 da.2.1.toNat).length = (padded 2 db.2.1.toNat).length := by
    rw [length_padded (by decide) (by omega),length_padded (by decide) (by omega)]
  rcases hbefore with hyear | ⟨hyear,hmonth | ⟨hmonth,hdate⟩⟩
  · apply append_lt_append hlen
    exact padded_lt (by decide) (by omega) (by omega)
  · rw [hyear]
    apply List.append_left_lt
    apply append_lt_append hlen'
    exact padded_lt (by decide) (by omega) (by omega)
  · rw [hyear,hmonth]
    apply List.append_left_lt
    apply List.append_left_lt
    exact padded_lt (by decide) (by omega) (by omega)

/-- A partition before the cutoff's date holds no row from the cutoff on. -/
theorem lt_of_ymdFromMs_lt {a b : ℤ} (h : ymdFromMs a < ymdFromMs b) (ha : a < year10000Ms) : a < b := by
  rcases Int.lt_or_le a b with hlt | hle
  · exact hlt
  · rcases Int.lt_or_eq_of_le (epochDay_mono hle) with hday | hday
    · exact absurd (ymdFromMs_lt hday ha) (lt_asymm h)
    · rw [ymdFromMs,ymdFromMs,hday] at h
      exact absurd h (lt_irrefl _)

end Dates

end Dwara.Analytics
