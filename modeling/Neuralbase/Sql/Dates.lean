import Mathlib
import Neuralbase.Query.Eval
import Neuralbase.Sql.Binder

namespace Neuralbase.Sql

open Neuralbase.Library Neuralbase.Query

/-! DATE values: as day numbers in the binder, its predicates and the stored rows, and as
`YYYYMMDD` in the literals and EXTRACT of the general executor. -/

section Model

def isoToYyyymmdd (text : String) : Option Int :=
  match text.toList.splitOn '-' with
  | [year, month, day] => do
      let y ← parseInt 32 (String.ofList year)
      let m ← parseInt 32 (String.ofList month)
      let d ← parseInt 32 (String.ofList day)
      if 1 ≤ m ∧ m ≤ 12 ∧ 1 ≤ d ∧ d ≤ 31 then some (wrapI32 (y * 10000 + m * 100 + d)) else none
  | _ => none

variable {F : Type}

def evalTypedString (value : String) : ScalarVal F :=
  match isoToYyyymmdd value with
  | some date => .date date
  | none => .text value

inductive DateTimeField where
  | year
  | month
  | day
  | other
deriving DecidableEq

def extractField (yyyymmdd : Int) : DateTimeField → ScalarVal F
  | .year => .int (yyyymmdd.tdiv 10000)
  | .month => .int ((yyyymmdd.tdiv 100).tmod 100)
  | .day => .int (yyyymmdd.tmod 100)
  | .other => .null

def evalExtract (field : DateTimeField) : ScalarVal F → ScalarVal F
  | .date yyyymmdd => extractField yyyymmdd field
  | .int value => extractField (wrapI32 value) field
  | _ => .null

def applyOp (x criterion : Int) : DmlCmpOp → Bool
  | .eq => x = criterion
  | .neq => x ≠ criterion
  | .gt => x > criterion
  | .lt => x < criterion
  | .gtEq => x ≥ criterion
  | .ltEq => x ≤ criterion

/-- Whether a stored text satisfies a predicate.  Floats are compared elsewhere. -/
def matchesText (floats : String → String → DmlCmpOp → Bool) (op : DmlCmpOp) (value : SqlValue) (stored : String) : Bool :=
  match value with
  | .int v => (parseInt 64 stored).any fun x => applyOp x v op
  | .float v => floats stored v op
  | .text v =>
    match op with
    | .eq => stored = v
    | .neq => stored ≠ v
    | _ => false
  | .date d => (parseInt 32 stored).any fun x => applyOp x d op
  | .null => false

/-- Whether the single-table SELECT filters by the predicate (`dml_predicate_to_vectorized`); if not, it
returns every row. -/
def pushedDown : DmlCmpOp → SqlValue → Bool
  | .eq, .text _ => true
  | .gt, .int _ => true
  | .lt, .int _ => true
  | .eq, .int _ => true
  | _, _ => false

/-- A stored date as the general executor reads it. -/
def readDate (stored : Option String) : ScalarVal F :=
  match parseInt 32 (stored.getD "") with
  | some days => .date days
  | none => .null

/-- The predicate on a row; a column that the row does not have satisfies none. -/
def DmlPredicate.matches (floats : String → String → DmlCmpOp → Bool) (predicate : DmlPredicate)
    (row : String → Option String) : Bool :=
  (row predicate.column).any (matchesText floats predicate.op predicate.value)

end Model

section Calendar

structure CivilDate where
  year : Int
  month : Nat
  day : Nat
deriving DecidableEq

def IsLeap (year : Int) : Prop := year % 4 = 0 ∧ (year % 100 ≠ 0 ∨ year % 400 = 0)

instance {year : Int} : Decidable (IsLeap year) := inferInstanceAs (Decidable (_ ∧ _))

def monthLength (year : Int) (month : Nat) : Nat :=
  if month = 2 then (if IsLeap year then 29 else 28)
  else if month = 4 ∨ month = 6 ∨ month = 9 ∨ month = 11 then 30 else 31

namespace CivilDate

structure Valid (date : CivilDate) : Prop where
  month : 1 ≤ date.month ∧ date.month ≤ 12
  day : 1 ≤ date.day ∧ date.day ≤ monthLength date.year date.month

def Precedes (a b : CivilDate) : Prop :=
  a.year < b.year ∨ a.year = b.year ∧ (a.month < b.month ∨ a.month = b.month ∧ a.day < b.day)

instance {a b : CivilDate} : Decidable (a.Precedes b) := inferInstanceAs (Decidable (_ ∨ _))

instance {date : CivilDate} : Decidable date.Valid :=
  decidable_of_iff ((1 ≤ date.month ∧ date.month ≤ 12) ∧ 1 ≤ date.day ∧ date.day ≤ monthLength date.year date.month)
    ⟨fun ⟨month, day⟩ => ⟨month, day⟩, fun ⟨month, day⟩ => ⟨month, day⟩⟩

def ofText (text : String) : Option CivilDate :=
  match text.toList.splitOn '-' with
  | [year, month, day] => do
      let y ← parseInt 32 (String.ofList year)
      let m ← parseNat 32 (String.ofList month)
      let d ← parseNat 32 (String.ofList day)
      some ⟨y, m, d⟩
  | _ => none

def marchYear (date : CivilDate) : Int := if date.month ≤ 2 then date.year - 1 else date.year

def marchMonth (date : CivilDate) : Nat := if 2 < date.month then date.month - 3 else date.month + 9

end CivilDate

/-- The number of the first of March. -/
def marchFirst (year : Int) : Int := 365 * year + year / 4 - year / 100 + year / 400 - 719468

namespace CivilDate

/-- The day of the year that begins in March. -/
def marchDay (date : CivilDate) : Nat := (153 * date.marchMonth + 2) / 5 + date.day - 1

/-- The number of the date. -/
def serial (date : CivilDate) : Int := marchFirst date.marchYear + date.marchDay

/-- The 32-bit sum of the days since the year 0 does not overflow. -/
def Fits (date : CivilDate) : Prop := 0 ≤ date.year ∧ date.serial + 719468 < 2 ^ 31

end CivilDate

theorem wrapI32_of_fits {value : Int} (fits : -2 ^ 31 ≤ value ∧ value < 2 ^ 31) : wrapI32 value = value := by
  unfold wrapI32
  apply Int.bmod_eq_of_le <;> omega

theorem era_eq {y : Int} (low : -1 ≤ y) :
    (if 0 ≤ y then y.tdiv 400 else (wrapI32 (y - 399)).tdiv 400) = y / 400 := by
  split
  · rename_i positive
    exact Int.tdiv_eq_ediv_of_nonneg positive
  · rename_i negative
    rw [wrapI32_of_fits (by omega), show y - 399 = -(399 - y) by omega, Int.neg_tdiv,
      Int.tdiv_eq_ediv_of_nonneg (by omega)]
    omega

theorem CivilDate.Valid.day_le {date : CivilDate} (valid : date.Valid) : date.day ≤ 31 := by
  have days := valid.day.2
  unfold monthLength at days
  split_ifs at days <;> omega

theorem marchYear_bounds (date : CivilDate) : date.year - 1 ≤ date.marchYear ∧ date.marchYear ≤ date.year := by
  unfold CivilDate.marchYear
  split_ifs <;> omega

/-- The days of an era, in the years of the era. -/
theorem era_days (year : Int) : year / 400 * 146097 + (year % 400 * 365 + year % 400 / 4 - year % 400 / 100) =
    marchFirst year + 719468 := by
  unfold marchFirst
  omega

theorem civilToEpochDays_eq {date : CivilDate} (years : 0 ≤ date.year ∧ date.year < 2 ^ 31) :
    civilToEpochDays date.year date.month date.day = wrapI32 date.serial := by
  have shifted : (if date.month ≤ 2 then wrapI32 (date.year - 1) else date.year) = date.marchYear := by
    unfold CivilDate.marchYear
    split
    · exact wrapI32_of_fits (by omega)
    · rfl
  have bounds := marchYear_bounds date
  simp only [civilToEpochDays, shifted, era_eq (show -1 ≤ date.marchYear by omega)]
  rw [show (date.marchYear - date.marchYear / 400 * 400) % 2 ^ 32 = date.marchYear % 400 by omega]
  change wrapI32 (_ + (_ + (date.marchDay : Int)) - 719468) = _
  rw [← Int.add_assoc, era_days]
  congr 1
  unfold CivilDate.serial
  omega

theorem CivilDate.Fits.year_lt {date : CivilDate} (fits : date.Fits) : date.year < 2 ^ 31 := by
  obtain ⟨low, high⟩ := fits
  have bounds := marchYear_bounds date
  unfold serial marchFirst at high
  omega

theorem civilToEpochDays_serial {date : CivilDate} (fits : date.Fits) :
    civilToEpochDays date.year date.month date.day = date.serial := by
  rw [civilToEpochDays_eq ⟨fits.1, fits.year_lt⟩]
  apply wrapI32_of_fits
  obtain ⟨low, high⟩ := fits
  have bounds := marchYear_bounds date
  unfold CivilDate.serial marchFirst at high ⊢
  omega

theorem marchFirst_succ (year : Int) :
    marchFirst (year + 1) = marchFirst year + 365 + if IsLeap (year + 1) then 1 else 0 := by
  unfold marchFirst IsLeap
  have fours : (year + 1) / 4 = year / 4 + if (year + 1) % 4 = 0 then 1 else 0 := by split_ifs <;> omega
  have hundreds : (year + 1) / 100 = year / 100 + if (year + 1) % 100 = 0 then 1 else 0 := by split_ifs <;> omega
  have eras : (year + 1) / 400 = year / 400 + if (year + 1) % 400 = 0 then 1 else 0 := by split_ifs <;> omega
  rw [fours, hundreds, eras]
  split_ifs <;> omega

theorem marchFirst_mono : Monotone marchFirst := by
  apply monotone_int_of_le_succ
  intro year
  rw [marchFirst_succ]
  split_ifs <;> omega

theorem monthLength_march {date : CivilDate} (valid : date.Valid) (inside : date.marchMonth < 11) :
    (153 * date.marchMonth + 2) / 5 + date.day ≤ (153 * (date.marchMonth + 1) + 2) / 5 := by
  rcases date with ⟨year, month, day⟩
  obtain ⟨⟨low, high⟩, _, days⟩ := valid
  simp only [CivilDate.marchMonth, monthLength] at *
  interval_cases month <;> simp at days inside ⊢ <;> omega

theorem lastDay_march {date : CivilDate} (valid : date.Valid) :
    ((153 * date.marchMonth + 2) / 5 + date.day : Nat) ≤ 365 + if IsLeap (date.marchYear + 1) then 1 else 0 := by
  have days := valid.day.2
  have months := valid.month
  unfold CivilDate.marchMonth CivilDate.marchYear monthLength at *
  split_ifs at * <;> first | omega | simp_all

theorem serial_lt {a b : CivilDate} (first : a.Valid) (second : b.Valid) (before : a.Precedes b) : a.serial < b.serial := by
  have early := first.day.1
  have late := second.day.1
  unfold CivilDate.serial CivilDate.marchDay
  -- The order of dates is also that of the years that begin in March.
  have cases : a.marchYear < b.marchYear ∨ a.marchYear = b.marchYear ∧
      (a.marchMonth < b.marchMonth ∨ a.marchMonth = b.marchMonth ∧ a.day < b.day) := by
    have months := first.month
    have months' := second.month
    unfold CivilDate.Precedes at before
    unfold CivilDate.marchYear CivilDate.marchMonth
    split_ifs <;> omega
  rcases cases with years | ⟨years, months | ⟨months, days⟩⟩
  · have rest := lastDay_march first
    have next := marchFirst_mono (show a.marchYear + 1 ≤ b.marchYear by omega)
    rw [marchFirst_succ] at next
    split_ifs at rest next <;> omega
  · have bound : b.marchMonth ≤ 11 := by
      have := second.month
      unfold CivilDate.marchMonth
      split_ifs <;> omega
    have rest := monthLength_march first (by omega)
    have next : (153 * (a.marchMonth + 1) + 2) / 5 ≤ (153 * b.marchMonth + 2) / 5 := by omega
    rw [years]
    omega
  · rw [years, months]
    omega

theorem serial_order {a b : CivilDate} (first : a.Valid) (second : b.Valid) :
    (a.serial < b.serial ↔ a.Precedes b) ∧ (a.serial = b.serial ↔ a = b) := by
  have trichotomy : a.Precedes b ∨ a = b ∨ b.Precedes a := by
    rcases a with ⟨year, month, day⟩
    rcases b with ⟨year', month', day'⟩
    simp only [CivilDate.Precedes, CivilDate.mk.injEq]
    omega
  rcases trichotomy with before | rfl | after
  · have below := serial_lt first second before
    refine ⟨iff_of_true below before, iff_of_false below.ne ?_⟩
    rintro rfl
    exact lt_irrefl _ below
  · refine ⟨iff_of_false (lt_irrefl _) ?_, iff_of_true rfl rfl⟩
    simp [CivilDate.Precedes]
  · have above := serial_lt second first after
    refine ⟨iff_of_false above.asymm ?_, iff_of_false above.ne' ?_⟩
    · intro before
      exact above.asymm (serial_lt first second before)
    · rintro rfl
      exact lt_irrefl _ above

end Calendar

section Comparisons

def DmlCmpOp.Holds (a b : CivilDate) : DmlCmpOp → Prop
  | .eq => a = b
  | .neq => a ≠ b
  | .gt => b.Precedes a
  | .lt => a.Precedes b
  | .gtEq => ¬ a.Precedes b
  | .ltEq => ¬ b.Precedes a

def DmlCmpOp.binary : DmlCmpOp → Query.BinaryOperator
  | .eq => .eq
  | .neq => .notEq
  | .gt => .gt
  | .lt => .lt
  | .gtEq => .gtEq
  | .ltEq => .ltEq

variable {a b : CivilDate} {left right : String}

theorem parseInt_nonneg {chars : List Char} {value : Int} (unsigned : '-' ∉ chars)
    (parsed : parseInt 32 (String.ofList chars) = some value) : 0 ≤ value := by
  obtain ⟨parsed, _⟩ := Option.filter_eq_some_iff.mp parsed
  unfold parseSigned at parsed
  rw [String.toList_ofList] at parsed
  split at parsed
  · exact absurd List.mem_cons_self unsigned
  all_goals
    obtain ⟨n, _, rfl⟩ := Option.map_eq_some_iff.mp parsed
    exact Int.natCast_nonneg n

theorem not_mem_of_mem_splitOn {sep : Char} {chars part : List Char} (inside : part ∈ chars.splitOn sep) : sep ∉ part := by
  induction chars generalizing part with
  | nil =>
    rw [List.splitOn_nil, List.mem_singleton] at inside
    simp [inside]
  | cons char rest induction =>
    rw [List.splitOn_cons_eq_if_modifyHead] at inside
    cases parts : rest.splitOn sep with
    | nil => exact absurd parts (List.splitOn_ne_nil sep rest)
    | cons head tail =>
      rw [parts] at inside induction
      by_cases isSep : char = sep
      · simp only [isSep, beq_self_eq_true, if_true, List.mem_cons] at inside
        rcases inside with rfl | inside
        · simp
        · exact induction (List.mem_cons.mpr inside)
      · simp only [beq_eq_false_iff_ne.mpr isSep, Bool.false_eq_true, if_false, List.modifyHead_cons, List.mem_cons] at inside
        rcases inside with rfl | inside
        · exact List.not_mem_cons_of_ne_of_not_mem (Ne.symm isSep) (induction List.mem_cons_self)
        · exact induction (List.mem_cons_of_mem _ inside)

theorem ofText_year {text : String} (named : CivilDate.ofText text = some a) : 0 ≤ a.year ∧ a.year < 2 ^ 31 := by
  unfold CivilDate.ofText at named
  split at named
  · rename_i year month day parts
    obtain ⟨y, parsed, named⟩ := Option.bind_eq_some_iff.mp named
    obtain ⟨m, _, named⟩ := Option.bind_eq_some_iff.mp named
    obtain ⟨d, _, named⟩ := Option.bind_eq_some_iff.mp named
    cases named
    have inside : year ∈ text.toList.splitOn '-' := by
      rw [parts]
      exact List.mem_cons_self
    refine ⟨parseInt_nonneg (not_mem_of_mem_splitOn inside) parsed, ?_⟩
    exact (of_decide_eq_true (Option.filter_eq_some_iff.mp parsed).2).2
  · cases named

theorem dateStrToEpochDays_ofText (named : CivilDate.ofText left = some a) (month : 1 ≤ a.month ∧ a.month ≤ 12)
    (day : 1 ≤ a.day ∧ a.day ≤ 31) : dateStrToEpochDays left = some (civilToEpochDays a.year a.month a.day) := by
  unfold CivilDate.ofText at named
  split at named
  · rename_i parts
    obtain ⟨y, isYear, named⟩ := Option.bind_eq_some_iff.mp named
    obtain ⟨m, isMonth, named⟩ := Option.bind_eq_some_iff.mp named
    obtain ⟨d, isDay, named⟩ := Option.bind_eq_some_iff.mp named
    cases named
    simp only [dateStrToEpochDays, parts, isYear, isMonth, isDay, Option.bind_eq_bind, Option.bind_some]
    exact if_pos ⟨month.1, month.2, day⟩
  · cases named

theorem CivilDate.Fits.serial_bounds (fits : a.Fits) : -2 ^ 31 ≤ a.serial ∧ a.serial < 2 ^ 31 := by
  obtain ⟨low, high⟩ := fits
  have bounds := marchYear_bounds a
  unfold serial marchFirst at high ⊢
  omega

theorem applyOp_days (first : a.Valid) (second : b.Valid) (op : DmlCmpOp) :
    applyOp a.serial b.serial op = true ↔ op.Holds a b := by
  have order := serial_order first second
  have reverse := serial_order second first
  cases op <;> simp only [applyOp, DmlCmpOp.Holds, decide_eq_true_eq, gt_iff_lt, ge_iff_le, ← order.1, ← order.2,
    ← reverse.1, not_lt, ne_eq]

theorem strictBinary_dates {F : Type} [Floats F] (print : ScalarVal F → String) (x y : Int) (op : DmlCmpOp) :
    strictBinary print op.binary (.date x) (.date y) = .ok (.bool (applyOp x y op)) := by
  cases op <;> simp only [DmlCmpOp.binary, strictBinary, ScalarVal.equals, ScalarVal.cmpVal, applyOp, Option.any_some] <;>
    rcases lt_trichotomy x y with below | rfl | above <;> simp [*, compare_lt_iff_lt.mpr, compare_gt_iff_gt.mpr] <;> omega

theorem parseInt_of_parseNat {text : String} {n : Nat} (parsed : parseNat 32 text = some n) (small : n < 2 ^ 31) :
    parseInt 32 text = some (n : Int) := by
  have fits : decide (-2 ^ (32 - 1) ≤ (n : Int) ∧ (n : Int) < 2 ^ (32 - 1)) = true := by
    rw [decide_eq_true_eq]
    omega
  obtain ⟨digits, -⟩ := Option.filter_eq_some_iff.mp parsed
  rw [parseInt, parseSigned]
  split at digits
  · rename_i shape
    simp only [shape, digits, Option.map_some]
    exact Option.filter_eq_some_iff.mpr ⟨rfl, fits⟩
  · rename_i plain
    split
    · rename_i shape
      simp [shape, parseDigits] at digits
    · rename_i rest shape
      exact absurd shape (plain rest)
    · rw [digits]
      exact Option.filter_eq_some_iff.mpr ⟨rfl, fits⟩

/-- The number of a DATE literal in the general executor. -/
def CivilDate.yyyymmdd (date : CivilDate) : Int := wrapI32 (date.year * 10000 + date.month * 100 + date.day)

theorem evalTypedString_ofText {F : Type} (named : CivilDate.ofText right = some b) (valid : b.Valid) :
    (evalTypedString right : ScalarVal F) = .date b.yyyymmdd := by
  have months := valid.month
  have days := valid.day
  have short := valid.day_le
  unfold CivilDate.ofText at named
  unfold evalTypedString isoToYyyymmdd
  split at named
  · rename_i parts
    obtain ⟨y, isYear, named⟩ := Option.bind_eq_some_iff.mp named
    obtain ⟨m, isMonth, named⟩ := Option.bind_eq_some_iff.mp named
    obtain ⟨d, isDay, named⟩ := Option.bind_eq_some_iff.mp named
    cases named
    simp only at months days short
    simp only [isYear, parseInt_of_parseNat isMonth (by omega), parseInt_of_parseNat isDay (by omega),
      Option.bind_eq_bind, Option.bind_some]
    rw [if_pos (by omega)]
    rfl
  · cases named

/-- The order of two dates. -/
def CivilDate.compare (a b : CivilDate) : Ordering :=
  if a.Precedes b then .lt else if a = b then .eq else .gt

/-- The two values stand in the order of the dates: as ORDER BY sorts them, and under every operator. -/
def OrderedAs {F : Type} [Floats F] (a b : CivilDate) (v w : ScalarVal F) : Prop :=
  v.cmpVal w = some (a.compare b) ∧ ∀ (op : DmlCmpOp) (print : ScalarVal F → String),
    ∃ holds, strictBinary print op.binary v w = .ok (.bool holds) ∧ (holds = true ↔ op.Holds a b)

theorem compare_serial (first : a.Valid) (second : b.Valid) : compare a.serial b.serial = a.compare b := by
  have order := serial_order first second
  unfold CivilDate.compare
  split_ifs with before same
  · exact compare_lt_iff_lt.mpr (order.1.mpr before)
  · exact compare_eq_iff_eq.mpr (order.2.mpr same)
  · have notBefore := mt order.1.mp before
    have notSame := mt order.2.mp same
    exact compare_gt_iff_gt.mpr (by omega)

/-- The operators follow the order. -/
theorem applyOp_congr {x y z w : Int} (same : compare x y = compare z w) (op : DmlCmpOp) :
    applyOp x y op = applyOp z w op := by
  have below : x < y ↔ z < w := by rw [← compare_lt_iff_lt, same, compare_lt_iff_lt]
  have above : y < x ↔ w < z := by rw [← compare_gt_iff_gt, same, compare_gt_iff_gt]
  cases op <;> simp only [applyOp, decide_eq_decide] <;> omega

theorem orderedAs_iff {F : Type} [Floats F] (first : a.Valid) (second : b.Valid) {x y : Int} :
    OrderedAs a b (.date x : ScalarVal F) (.date y) ↔ compare x y = a.compare b := by
  refine ⟨fun ordered => Option.some.inj ordered.1, fun same => ⟨congrArg some same, fun op print => ?_⟩⟩
  refine ⟨_, strictBinary_dates print x y op, ?_⟩
  rw [applyOp_congr (same.trans (compare_serial first second).symm), applyOp_days first second]

theorem evalBetween_ordered {F : Type} [Floats F] {c : CivilDate} {v low high : ScalarVal F} (first : OrderedAs a b v low)
    (second : OrderedAs a c v high) (negated : Bool) : evalBetween negated (.ok v) (.ok low) (.ok high) =
      .ok (.bool (decide (¬ a.Precedes b ∧ (a.Precedes c ∨ a = c)) != negated)) := by
  have lower : (v.cmpVal low).any (· ≠ .lt) = decide (¬ a.Precedes b) := by
    rw [first.1, Option.any_some, CivilDate.compare]
    split_ifs with before <;> simp [before]
  have upper : (v.cmpVal high).any (· ≠ .gt) = decide (a.Precedes c ∨ a = c) := by
    rw [second.1, Option.any_some, CivilDate.compare]
    split_ifs with before same
    · simp [before]
    · simp [same]
    · simp [before, same]
  simp only [evalBetween, lower, upper, bind, Except.bind, pure, Except.pure, Bool.decide_and]

/-- Where a stored date meets another date. -/
inductive DateSite where
  /-- A text literal in the predicate of UPDATE or DELETE. -/
  | dmlPredicate
  /-- Another stored date in the general executor. -/
  | storedDate
  /-- A DATE literal in the general executor. -/
  | typedLiteral
  /-- A text literal in a SELECT on the single-table path. -/
  | singleTable
  | extract

/-- The site agrees with the calendar: `x` and `y` are what INSERT and UPDATE store for `a` and `b`. -/
def DateSite.Agrees {F : Type} [Floats F] (column right : String) (a b : CivilDate) (x y : SqlValue) : DateSite → Prop
  | .dmlPredicate => ∀ op floats row, row column = x.toStorageString →
      (DmlPredicate.matches floats ⟨column, op, y⟩ row = true ↔ op.Holds a b)
  | .storedDate => OrderedAs a b (readDate x.toStorageString : ScalarVal F) (readDate y.toStorageString)
  | .typedLiteral => OrderedAs a b (readDate x.toStorageString : ScalarVal F) (evalTypedString right)
  | .singleTable => ∀ op, (pushedDown op y = false ∨ ∀ floats row, row column = x.toStorageString →
      DmlPredicate.matches floats ⟨column, op, y⟩ row = true) ↔ op.Holds a b
  | .extract => evalExtract .year (readDate x.toStorageString : ScalarVal F) = .int a.year ∧
      evalExtract .month (readDate x.toStorageString : ScalarVal F) = .int a.month ∧
      evalExtract .day (readDate x.toStorageString : ScalarVal F) = .int a.day

theorem readDate_serial {F : Type} (fits : a.Fits) :
    (readDate (SqlValue.date a.serial).toStorageString : ScalarVal F) = .date a.serial := by
  rw [readDate, SqlValue.toStorageString, Option.getD_some, parseInt_toString fits.serial_bounds]

/-- No stored number has the digits of its date. -/
theorem extract_differs {F : Type} (valid : a.Valid) (fits : a.Fits) : ¬ (extractField a.serial .year = (.int a.year : ScalarVal F) ∧
    extractField a.serial .month = (.int a.month : ScalarVal F) ∧ extractField a.serial .day = (.int a.day : ScalarVal F)) := by
  rintro ⟨year, month, day⟩
  have years := fits.1
  have bounds := marchYear_bounds a
  have months := lastDay_march valid
  have first := valid.day.1
  have small : a.serial ≤ 366 * a.year - 719000 := by
    unfold CivilDate.serial marchFirst CivilDate.marchDay
    split_ifs at months <;> omega
  have isYear : a.serial.tdiv 10000 = a.year := by simpa [extractField] using year
  have isDay : a.serial.tmod 100 = a.day := by simpa [extractField] using day
  have nonneg : 0 ≤ a.serial := by
    by_contra negative
    have flipped := Int.neg_tmod (-a.serial) 100
    have positive := Int.tmod_nonneg 100 (show 0 ≤ -a.serial by omega)
    rw [neg_neg] at flipped
    omega
  rw [Int.tdiv_eq_ediv_of_nonneg nonneg] at isYear
  omega

/-- Where the comparison of a stored date `a` with a date `b` is that of the calendar. -/
def DateSite.Condition (a b : CivilDate) : DateSite → Prop
  | .dmlPredicate | .storedDate => True
  | .typedLiteral => compare a.serial b.yyyymmdd = a.compare b
  | .singleTable | .extract => False

end Comparisons

end Neuralbase.Sql
