import Neuralbase.Sql.Dates

namespace Neuralbase.Sql

open Neuralbase.Library
open CivilDate

/-! Day numbers and the dates they denote: `date_str_to_epoch_days` of the binder, and
`epoch_days_to_iso`, which prints binary DATE parameters (`extended_protocol.rs`). -/

section Printing

/-- The format `0width`: the sign comes before the zeros. -/
def zeroPadded (width : Nat) (value : Int) : List Char :=
  let sign := if value < 0 then ['-'] else []
  let digits := Nat.toDigits 10 value.natAbs
  sign ++ List.replicate (width - sign.length - digits.length) '0' ++ digits

structure DayOfEra where
  era : Int
  yoe : Int
  doy : Int

/-- The first part of `epoch_days_to_iso`.  Division truncates, all numbers have 64 bits. -/
def DayOfEra.of (days : Int) : DayOfEra :=
  let z := days + 719468
  let era := (if 0 ≤ z then z else z - 146096).tdiv 146097
  let doe := z - era * 146097
  let yoe := (doe - doe.tdiv 1460 + doe.tdiv 36524 - doe.tdiv 146096).tdiv 365
  ⟨era, yoe, doe - (365 * yoe + yoe.tdiv 4 - yoe.tdiv 100)⟩

def DayOfEra.civil (day : DayOfEra) : CivilDate :=
  let mp := (5 * day.doy + 2).tdiv 153
  let month := mp + if mp < 10 then 3 else -9
  { year := day.yoe + day.era * 400 + if month ≤ 2 then 1 else 0
    month := month.toNat
    day := (day.doy - (153 * mp + 2).tdiv 5 + 1).toNat }

def epochDaysToIso (days : Int) : String :=
  let date := (DayOfEra.of days).civil
  String.ofList (['-'].intercalate [zeroPadded 4 date.year, zeroPadded 2 date.month, zeroPadded 2 date.day])

def quoteSqlString (value : String) : String :=
  "'" ++ String.ofList (value.toList.flatMap fun char => if char = '\'' then ['\'', '\''] else [char]) ++ "'"

/-- The DATE case of `render_binary_parameter`, after the four bytes are read. -/
def renderBinaryDate (pgDays : Int) : Except String String :=
  if pgDays + 10957 < 2 ^ 31 then .ok ("DATE " ++ quoteSqlString (epochDaysToIso (pgDays + 10957)))
  else .error "DATE overflow"

end Printing

section Digits

variable {n width : Nat}

theorem parseDigits_zeros (zeros : Nat) : parseDigits (List.replicate zeros '0' ++ Nat.toDigits 10 n) = some n := by
  have value : Nat.ofDigitChars 10 (List.replicate zeros '0') 0 = 0 := by
    induction zeros with
    | zero => rfl
    | succ zeros induction =>
      rw [List.replicate_succ, Nat.ofDigitChars_cons]
      exact induction
  have digits := parseDigits_toDigits (n := n)
  unfold parseDigits at digits ⊢
  split_ifs at digits with all
  rw [Nat.ofDigitChars_append, value, digits, if_pos]
  refine ⟨by simp [all.1], ?_⟩
  rw [List.all_append, all.2, List.all_replicate]
  simp

theorem zeroPadded_ofNat : zeroPadded width n = List.replicate (width - (Nat.toDigits 10 n).length) '0' ++ Nat.toDigits 10 n := by
  have positive : ¬ (n : Int) < 0 := by omega
  simp [zeroPadded, positive]

theorem zeroPadded_digit {char : Char} (inside : char ∈ zeroPadded width n) : char.isDigit = true := by
  rw [zeroPadded_ofNat] at inside
  rcases List.mem_append.mp inside with zero | digit
  · rw [List.eq_of_mem_replicate zero]
    rfl
  · exact Nat.isDigit_of_mem_toDigits (by decide) (Nat.le_refl _) digit

theorem parseSigned_zeroPadded : parseSigned (String.ofList (zeroPadded width n)) = some (n : Int) := by
  unfold parseSigned
  rw [String.toList_ofList]
  split
  · rename_i rest same
    cases zeroPadded_digit (same ▸ List.mem_cons_self)
  · rename_i rest same
    cases zeroPadded_digit (same ▸ List.mem_cons_self)
  · rw [zeroPadded_ofNat, parseDigits_zeros]
    rfl

theorem parseNat_zeroPadded (fits : n < 2 ^ 32) : parseNat 32 (String.ofList (zeroPadded width n)) = some n := by
  unfold parseNat
  rw [String.toList_ofList]
  split
  · rename_i rest same
    cases zeroPadded_digit (same ▸ List.mem_cons_self)
  · rw [zeroPadded_ofNat, parseDigits_zeros, Option.filter_some, if_pos (decide_eq_true fits)]

end Digits

section Inverse

/-- A day of an era lies in one of its four centuries, in one of the century's 25 groups of
four years, and in one of these; a 366th day only ends a leap year. -/
theorem era_split {doe : Int} (low : 0 ≤ doe) (high : doe < 146097) :
    ∃ a b c doy : Int, (0 ≤ a ∧ a ≤ 3) ∧ (0 ≤ b ∧ b ≤ 24) ∧ (0 ≤ c ∧ c ≤ 3) ∧
      doe = 36524 * a + 1461 * b + 365 * c + doy ∧ 0 ≤ doy ∧
      (doy ≤ 364 ∨ doy = 365 ∧ c = 3 ∧ (b < 24 ∨ a = 3)) := by
  obtain ⟨a, r, century, split, rest, bound⟩ : ∃ a r : Int, (0 ≤ a ∧ a ≤ 3) ∧ doe = 36524 * a + r ∧ 0 ≤ r ∧
      (r < 36524 ∨ r = 36524 ∧ a = 3) := by
    by_cases last : doe = 146096
    · exact ⟨3, 36524, by omega⟩
    · exact ⟨doe / 36524, doe % 36524, by omega⟩
  obtain ⟨b, q, group, split', rest', bound'⟩ : ∃ b q : Int, (0 ≤ b ∧ b ≤ 24) ∧ r = 1461 * b + q ∧ 0 ≤ q ∧ q < 1461 :=
    ⟨r / 1461, r % 1461, by omega⟩
  by_cases last : q = 1460
  · exact ⟨a, b, 3, 365, by omega⟩
  · exact ⟨a, b, q / 365, q % 365, by omega⟩

theorem yearOfEra_eq {a b c doy : Int} (century : 0 ≤ a ∧ a ≤ 3) (group : 0 ≤ b ∧ b ≤ 24) (year : 0 ≤ c ∧ c ≤ 3)
    (low : 0 ≤ doy) (high : doy ≤ 364 ∨ doy = 365 ∧ c = 3 ∧ (b < 24 ∨ a = 3)) {doe : Int}
    (split : doe = 36524 * a + 1461 * b + 365 * c + doy) :
    (doe - doe / 1460 + doe / 36524 - doe / 146096) / 365 = 100 * a + 4 * b + c := by
  by_cases last : 36524 ≤ 1461 * b + 365 * c + doy
  · have day : doe = 146096 := by omega
    rw [day]
    omega
  have centuries : doe / 36524 = a := by omega
  have eras : doe / 146096 = 0 := by omega
  rw [centuries, eras]
  -- Days that are left over from the groups of 1460 days make up one more of them, or do not.
  by_cases more : 1460 ≤ 24 * a + b + 365 * c + doy
  · have groups : doe / 1460 = 25 * a + b + 1 := by omega
    rw [groups]
    omega
  · have groups : doe / 1460 = 25 * a + b := by omega
    rw [groups]
    omega

/-- What the first part computes, with the year counted from March. -/
structure DayOfEra.Exact (day : DayOfEra) (days : Int) : Prop where
  yoe : 0 ≤ day.yoe ∧ day.yoe < 400
  doy : 0 ≤ day.doy ∧ day.doy ≤ 365
  leap : day.doy = 365 → IsLeap (day.yoe + day.era * 400 + 1)
  days : days = marchFirst (day.yoe + day.era * 400) + day.doy

theorem yearOfEra_parts {a b c : Int} (group : 0 ≤ b ∧ b ≤ 24) (year : 0 ≤ c ∧ c ≤ 3) :
    (100 * a + 4 * b + c) / 4 = 25 * a + b ∧ (100 * a + 4 * b + c) / 100 = a := by
  constructor <;> omega

theorem isLeap_endOfGroup {a b era : Int} (century : 0 ≤ a ∧ a ≤ 3) (group : 0 ≤ b ∧ b ≤ 24) (last : b < 24 ∨ a = 3) :
    IsLeap (100 * a + 4 * b + 3 + era * 400 + 1) := by
  unfold IsLeap
  rcases last with inside | rfl <;> omega

theorem marchFirst_era {yoe : Int} (era : Int) (bounds : 0 ≤ yoe ∧ yoe < 400) :
    marchFirst (yoe + era * 400) = era * 146097 + (365 * yoe + yoe / 4 - yoe / 100) - 719468 := by
  unfold marchFirst
  have fours : (yoe + era * 400) / 4 = yoe / 4 + era * 100 := by omega
  have hundreds : (yoe + era * 400) / 100 = yoe / 100 + era * 4 := by omega
  have eras : (yoe + era * 400) / 400 = era := by omega
  rw [fours, hundreds, eras]
  omega

theorem era_truncated (z : Int) : (if 0 ≤ z then z else z - 146096).tdiv 146097 = z / 146097 := by
  split_ifs with positive
  · exact Int.tdiv_eq_ediv_of_nonneg positive
  · rw [show z - 146096 = -(146096 - z) by omega, Int.neg_tdiv, Int.tdiv_eq_ediv_of_nonneg (by omega)]
    omega

theorem DayOfEra.of_exact (days : Int) : (DayOfEra.of days).Exact days := by
  obtain ⟨era, isEra⟩ : ∃ era, era = (days + 719468) / 146097 := ⟨_, rfl⟩
  obtain ⟨doe, isDoe⟩ : ∃ doe, doe = days + 719468 - era * 146097 := ⟨_, rfl⟩
  have positive : 0 ≤ doe := by omega
  obtain ⟨a, b, c, doy, century, group, year, split, low, high⟩ := era_split positive (by omega)
  have numerator : 0 ≤ doe - doe / 1460 + doe / 36524 - doe / 146096 := by
    clear isEra isDoe split
    omega
  have yoe : 0 ≤ 100 * a + 4 * b + c ∧ 100 * a + 4 * b + c < 400 := by omega
  have parts := yearOfEra_parts (a := a) group year
  have day : DayOfEra.of days = ⟨era, 100 * a + 4 * b + c, doy⟩ := by
    unfold DayOfEra.of
    simp only [era_truncated, ← isEra, ← isDoe, Int.tdiv_eq_ediv_of_nonneg positive,
      Int.tdiv_eq_ediv_of_nonneg numerator, yearOfEra_eq century group year low high split,
      Int.tdiv_eq_ediv_of_nonneg yoe.1, parts, DayOfEra.mk.injEq, true_and]
    omega
  rw [day]
  refine ⟨yoe, ⟨low, by show doy ≤ 365; omega⟩, fun last => ?_, ?_⟩
  · obtain ⟨_, rfl, ends⟩ := high.resolve_left (by rw [show doy = 365 from last]; decide)
    exact isLeap_endOfGroup century group ends
  · show days = marchFirst (100 * a + 4 * b + c + era * 400) + doy
    rw [marchFirst_era era yoe, parts.1, parts.2]
    omega

theorem marchMonth_bounds {doy : Int} (low : 0 ≤ doy) (high : doy ≤ 365) :
    (0 ≤ (5 * doy + 2) / 153 ∧ (5 * doy + 2) / 153 ≤ 11) ∧ (153 * ((5 * doy + 2) / 153) + 2) / 5 ≤ doy ∧
      doy < (153 * ((5 * doy + 2) / 153 + 1) + 2) / 5 := by
  refine ⟨⟨?_, ?_⟩, ?_, ?_⟩ <;> omega

theorem dayOfMonth_le {mp doy year : Int} {month : Nat} (bounds : 0 ≤ mp ∧ mp ≤ 11) (low : (153 * mp + 2) / 5 ≤ doy)
    (high : doy < (153 * (mp + 1) + 2) / 5) (isMonth : month = (mp + if mp < 10 then 3 else -9).toNat)
    (february : month = 2 → doy ≤ 364 ∨ doy = 365 ∧ IsLeap year) :
    (doy - (153 * mp + 2) / 5 + 1).toNat ≤ monthLength year month := by
  obtain ⟨_, _⟩ := bounds
  interval_cases mp <;> simp only [monthLength] <;> norm_num at isMonth low high ⊢ <;> subst isMonth <;> norm_num
  case «11» =>
    rcases february rfl with short | ⟨rfl, leap⟩
    · split_ifs <;> omega
    · simp [leap]
  all_goals omega

theorem DayOfEra.Exact.valid {day : DayOfEra} {days : Int} (exact : day.Exact days) :
    day.civil.Valid ∧ day.civil.serial = days := by
  obtain ⟨bounds, low, high⟩ := marchMonth_bounds exact.doy.1 exact.doy.2
  have truncated := Int.tdiv_eq_ediv_of_nonneg (show 0 ≤ 5 * day.doy + 2 by have := exact.doy.1; omega) (b := 153)
  generalize isMp : (5 * day.doy + 2) / 153 = mp at bounds low high truncated
  have firstDay : (153 * mp + 2).tdiv 5 = (153 * mp + 2) / 5 := Int.tdiv_eq_ediv_of_nonneg (by omega)
  have month : day.civil.month = (mp + if mp < 10 then 3 else -9).toNat := by simp only [DayOfEra.civil, truncated]
  have dayOf : day.civil.day = (day.doy - (153 * mp + 2) / 5 + 1).toNat := by
    simp only [DayOfEra.civil, truncated, firstDay]
  have year : day.civil.year = day.yoe + day.era * 400 + if mp < 10 then 0 else 1 := by
    simp only [DayOfEra.civil, truncated]
    split_ifs <;> omega
  have february : day.civil.month = 2 → day.doy ≤ 364 ∨ day.doy = 365 ∧ IsLeap day.civil.year := by
    intro isFebruary
    have late : ¬ mp < 10 := by
      intro early
      rw [if_pos early] at month
      omega
    rw [year, if_neg late]
    exact (lt_or_eq_of_le exact.doy.2).imp (by omega) fun last => ⟨last, exact.leap last⟩
  have valid : day.civil.Valid := by
    refine ⟨?_, ?_, ?_⟩
    · rw [month]
      split_ifs <;> omega
    · rw [dayOf]
      omega
    · rw [dayOf]
      exact dayOfMonth_le bounds low high month february
  have marchMonth : (day.civil.marchMonth : Int) = mp := by
    rw [marchMonth, month]
    split_ifs <;> omega
  have marchYear : day.civil.marchYear = day.yoe + day.era * 400 := by
    rw [marchYear, month, year]
    split_ifs <;> omega
  refine ⟨valid, ?_⟩
  rw [CivilDate.serial, marchDay, marchYear, exact.days, dayOf]
  omega

/-- The date that `epoch_days_to_iso` prints. -/
def civilOfDays (days : Int) : CivilDate := (DayOfEra.of days).civil

theorem civilOfDays_valid (days : Int) : (civilOfDays days).Valid := (DayOfEra.of_exact days).valid.1

theorem serial_civilOfDays (days : Int) : (civilOfDays days).serial = days := (DayOfEra.of_exact days).valid.2

theorem civilOfDays_serial {date : CivilDate} (valid : date.Valid) : civilOfDays date.serial = date :=
  (serial_order (civilOfDays_valid _) valid).2.mp (serial_civilOfDays _)

/-- The year 0 begins with the day -719528. -/
theorem year_nonneg_iff (days : Int) : 0 ≤ (civilOfDays days).year ↔ -719528 ≤ days := by
  have first := (serial_order (civilOfDays_valid days) (b := ⟨0, 1, 1⟩) (by decide)).1
  have months := (civilOfDays_valid days).month
  have date := (civilOfDays_valid days).day
  rw [serial_civilOfDays, show CivilDate.serial ⟨0, 1, 1⟩ = -719528 by decide] at first
  rw [← not_iff_not, not_le, not_le, first]
  simp only [CivilDate.Precedes]
  omega

theorem year_lt_of_days {days : Int} (high : days < 2 ^ 31) : (civilOfDays days).year < 2 ^ 31 := by
  have bounds := marchYear_bounds (civilOfDays days)
  have serial := serial_civilOfDays days
  unfold CivilDate.serial marchFirst at serial
  omega

end Inverse

section Denotation

variable {a : CivilDate} {text : String}

/-- The day after a date. -/
def CivilDate.next (date : CivilDate) : CivilDate :=
  if date.day < monthLength date.year date.month then { date with day := date.day + 1 }
  else if date.month < 12 then { date with month := date.month + 1, day := 1 }
  else ⟨date.year + 1, 1, 1⟩

theorem valid_next (valid : a.Valid) : a.next.Valid := by
  rcases a with ⟨year, month, day⟩
  obtain ⟨⟨low, high⟩, positive, days⟩ := valid
  have first (y : Int) (m : Nat) : 1 ≤ monthLength y m := by
    unfold monthLength
    split_ifs <;> omega
  unfold next
  simp only at *
  split_ifs with inside more
  · exact ⟨⟨low, high⟩, by simp, inside⟩
  · exact ⟨⟨by simp, more⟩, by simp, first _ _⟩
  · exact ⟨by simp, by simp, first _ _⟩

theorem serial_next (valid : a.Valid) : a.next.serial = a.serial + 1 := by
  rcases a with ⟨year, month, day⟩
  obtain ⟨⟨low, high⟩, positive, days⟩ := valid
  have turn := marchFirst_succ (year - 1)
  rw [Int.sub_add_cancel] at turn
  unfold next CivilDate.serial marchDay
  simp only at *
  split_ifs with inside more
  · simp only [marchYear, marchMonth]
    omega
  · have last : day = monthLength year month := by omega
    simp only [marchYear, marchMonth, last, monthLength]
    clear positive inside days last
    interval_cases month <;> simp
    case «2» =>
      rw [turn]
      split_ifs <;> simp
      omega
    all_goals omega
  · have december : month = 12 := by omega
    subst december
    have last : day = 31 := le_antisymm (by simpa [monthLength] using days) (by simpa [monthLength] using inside)
    subst last
    simp [marchYear, marchMonth]
    omega

/-- Without a name that has the form of a date, or with a month or a day that no date has,
the text is refused. -/
theorem dateStrToEpochDays_accepts (days : Int) (accepted : dateStrToEpochDays text = some days) :
    ∃ a, CivilDate.ofText text = some a ∧ (1 ≤ a.month ∧ a.month ≤ 12) ∧ 1 ≤ a.day ∧ a.day ≤ 31 := by
  unfold dateStrToEpochDays at accepted
  split at accepted
  · rename_i parts
    obtain ⟨y, year, accepted⟩ := Option.bind_eq_some_iff.mp accepted
    obtain ⟨m, month, accepted⟩ := Option.bind_eq_some_iff.mp accepted
    obtain ⟨d, day, accepted⟩ := Option.bind_eq_some_iff.mp accepted
    split_ifs at accepted with bounds
    refine ⟨⟨y, m, d⟩, ?_, ⟨bounds.1, bounds.2.1⟩, bounds.2.2⟩
    simp only [ofText, parts, year, month, day, Option.bind_eq_bind, Option.bind_some]
  · cases accepted

theorem ofText_epochDaysToIso {days : Int} (low : -719528 ≤ days) (high : days < 2 ^ 31) :
    CivilDate.ofText (epochDaysToIso days) = some (civilOfDays days) := by
  have positive := (year_nonneg_iff days).mpr low
  have bound := year_lt_of_days high
  have valid := civilOfDays_valid days
  have short := valid.day_le
  have months := valid.month.2
  clear valid
  generalize isDate : civilOfDays days = date at *
  rcases date with ⟨year, month, day⟩
  obtain ⟨y, rfl⟩ := Int.eq_ofNat_of_zero_le positive
  have parts : (epochDaysToIso days).toList.splitOn '-' =
      [zeroPadded 4 y, zeroPadded 2 month, zeroPadded 2 day] := by
    unfold epochDaysToIso
    rw [show (DayOfEra.of days).civil = _ from isDate, String.toList_ofList]
    refine List.splitOn_intercalate '-' (fun part inside dash => ?_) (by simp)
    simp only [List.mem_cons, List.not_mem_nil, or_false] at inside
    rcases inside with rfl | rfl | rfl <;> cases zeroPadded_digit dash
  have parsed : parseInt 32 (String.ofList (zeroPadded 4 y)) = some (y : Int) := by
    rw [parseInt, parseSigned_zeroPadded, Option.filter_some, if_pos (decide_eq_true (by simp only at bound; omega))]
  unfold ofText
  simp only [parts, parsed, parseNat_zeroPadded (show month < 2 ^ 32 by simp only at months; omega),
    parseNat_zeroPadded (show day < 2 ^ 32 by simp only at short; omega), Option.bind_eq_bind, Option.bind_some]

/-- Before the year 0 the text begins with a minus sign, and splitting it gives four parts. -/
theorem ofText_epochDaysToIso_negative {days : Int} (low : days < -719528) :
    CivilDate.ofText (epochDaysToIso days) = none := by
  have negative : (civilOfDays days).year < 0 := by
    rw [← not_le, year_nonneg_iff]
    exact not_le.mpr low
  generalize isDate : civilOfDays days = date at *
  rcases date with ⟨year, month, day⟩
  obtain ⟨digits, shape, plain⟩ : ∃ digits, zeroPadded 4 year = '-' :: digits ∧ '-' ∉ digits := by
    refine ⟨_, by rw [zeroPadded, if_pos negative]; rfl, fun dash => ?_⟩
    rcases List.mem_append.mp dash with zero | digit
    · cases List.eq_of_mem_replicate zero
    · cases Nat.isDigit_of_mem_toDigits (by decide) (Nat.le_refl _) digit
  have parts : (epochDaysToIso days).toList.splitOn '-' = [[], digits, zeroPadded 2 month, zeroPadded 2 day] := by
    unfold epochDaysToIso
    rw [show (DayOfEra.of days).civil = _ from isDate, String.toList_ofList, shape]
    refine List.splitOn_intercalate '-' (fun part (inside : part ∈ [[], digits, zeroPadded 2 month, zeroPadded 2 day])
      dash => ?_) (by simp)
    simp only [List.mem_cons, List.not_mem_nil, or_false] at inside
    rcases inside with rfl | rfl | rfl | rfl
    · cases dash
    · exact plain dash
    · cases zeroPadded_digit dash
    · cases zeroPadded_digit dash
  unfold ofText
  simp only [parts]

theorem quoteSqlString_plain {value : String} (plain : '\'' ∉ value.toList) : quoteSqlString value = "'" ++ value ++ "'" := by
  have kept : (value.toList.flatMap fun char => if char = '\'' then ['\'', '\''] else [char]) = value.toList := by
    generalize value.toList = chars at plain
    induction chars with
    | nil => rfl
    | cons char rest induction =>
      obtain ⟨different, plain⟩ := not_or.mp (List.mem_cons.not.mp plain)
      rw [List.flatMap_cons, induction plain, if_neg (Ne.symm different)]
      rfl
  rw [quoteSqlString, kept, String.ofList_toList]

theorem zeroPadded_plain (width : Nat) (value : Int) : '\'' ∉ zeroPadded width value := by
  intro quote
  rcases List.mem_append.mp quote with front | digit
  · rcases List.mem_append.mp front with sign | zero
    · split_ifs at sign
      · cases List.mem_singleton.mp sign
      · cases sign
    · cases List.eq_of_mem_replicate zero
  · cases Nat.isDigit_of_mem_toDigits (by decide) (Nat.le_refl _) digit

theorem epochDaysToIso_plain (days : Int) : '\'' ∉ (epochDaysToIso days).toList := by
  unfold epochDaysToIso
  rw [String.toList_ofList]
  intro quote
  simp only [List.intercalate, List.intersperse, List.flatten_cons, List.flatten_nil, List.mem_append,
    List.mem_singleton, List.not_mem_nil, or_false] at quote
  rcases quote with digit | dash | digit | dash | digit
  · exact zeroPadded_plain _ _ digit
  · cases dash
  · exact zeroPadded_plain _ _ digit
  · cases dash
  · exact zeroPadded_plain _ _ digit

/-- The results of the 32-bit operations of `civil_to_epoch_days`, in their order. -/
def CivilDate.steps (date : CivilDate) : List Int :=
  let y := if date.month ≤ 2 then date.year - 1 else date.year
  let shifted := if 0 ≤ y then y else y - 399
  let era := shifted.tdiv 400
  let yoe := y - era * 400
  let doe := yoe * 365 + yoe / 4 - yoe / 100 + date.marchDay
  [y, shifted, era * 400, yoe, era * 146097, era * 146097 + doe, era * 146097 + doe - 719468]

/-- No operation leaves the 32 bits. -/
def CivilDate.Computed (date : CivilDate) : Prop := ∀ step ∈ date.steps, -2 ^ 31 ≤ step ∧ step < 2 ^ 31

theorem computed_iff (years : 0 ≤ a.year ∧ a.year < 2 ^ 31) : a.Computed ↔ a.Fits := by
  have bounds := marchYear_bounds a
  have era : (if 0 ≤ a.marchYear then a.marchYear else a.marchYear - 399).tdiv 400 = a.marchYear / 400 := by
    split_ifs with positive
    · exact Int.tdiv_eq_ediv_of_nonneg positive
    · rw [show a.marchYear - 399 = -(399 - a.marchYear) by omega, Int.neg_tdiv, Int.tdiv_eq_ediv_of_nonneg (by omega)]
      omega
  have rest : a.marchYear - a.marchYear / 400 * 400 = a.marchYear % 400 := by omega
  have sum := era_days a.marchYear
  have steps : a.steps = [a.marchYear, if 0 ≤ a.marchYear then a.marchYear else a.marchYear - 399,
      a.marchYear / 400 * 400, a.marchYear % 400, a.marchYear / 400 * 146097, a.serial + 719468, a.serial] := by
    unfold steps
    rw [show (if a.month ≤ 2 then a.year - 1 else a.year) = a.marchYear from rfl]
    simp only [era, rest, ← Int.add_assoc, sum, CivilDate.serial, List.cons.injEq, true_and, and_true]
    omega
  unfold CivilDate.Computed CivilDate.Fits
  simp only [steps, List.forall_mem_cons, List.not_mem_nil, false_implies, implies_true, and_true]
  unfold CivilDate.serial marchFirst
  constructor
  · rintro ⟨-, -, -, -, -, total, -⟩
    exact ⟨years.1, total.2⟩
  · rintro ⟨-, total⟩
    split_ifs <;> omega

/-- A text is accepted exactly if it names a date, its number is that of the date, no operation
overflows on the way, and printing the number names the date again. -/
def Calendrical (text : String) : Prop :=
  ((dateStrToEpochDays text).isSome ↔ ∃ a, ofText text = some a ∧ a.Valid) ∧
    ∀ n, dateStrToEpochDays text = some n → ∃ a, ofText text = some a ∧ n = a.serial ∧ a.Computed ∧
      ofText (epochDaysToIso n) = some a

/-- No day beyond the end of its month, and no sum beyond 32 bits. -/
def WithinCalendar (text : String) : Prop :=
  ∀ a, ofText text = some a → 1 ≤ a.month ∧ a.month ≤ 12 → 1 ≤ a.day ∧ a.day ≤ 31 →
    a.day ≤ monthLength a.year a.month ∧ a.serial + 719468 < 2 ^ 31

theorem calendrical_iff (text : String) : Calendrical text ↔ WithinCalendar text := by
  constructor
  · rintro ⟨accepts, numbers⟩ a named month day
    have accepted := dateStrToEpochDays_ofText named month day
    obtain ⟨b, same, valid⟩ := accepts.mp (by rw [accepted]; rfl)
    cases named.symm.trans same
    obtain ⟨c, same, -, computed, -⟩ := numbers _ accepted
    cases named.symm.trans same
    exact ⟨valid.day.2, ((computed_iff (ofText_year named)).mp computed).2⟩
  · intro within
    have dated (a : CivilDate) (named : ofText text = some a) (month : 1 ≤ a.month ∧ a.month ≤ 12)
        (day : 1 ≤ a.day ∧ a.day ≤ 31) : a.Valid ∧ a.Fits := by
      obtain ⟨short, small⟩ := within a named month day
      exact ⟨⟨month, day.1, short⟩, (ofText_year named).1, small⟩
    refine ⟨⟨fun accepted => ?_, fun ⟨a, named, valid⟩ => ?_⟩, fun n accepted => ?_⟩
    · obtain ⟨n, accepted⟩ := Option.isSome_iff_exists.mp accepted
      obtain ⟨a, named, month, day⟩ := dateStrToEpochDays_accepts n accepted
      exact ⟨a, named, (dated a named month day).1⟩
    · rw [dateStrToEpochDays_ofText named valid.month ⟨valid.day.1, valid.day_le⟩]
      rfl
    · obtain ⟨a, named, month, day⟩ := dateStrToEpochDays_accepts n accepted
      obtain ⟨valid, fits⟩ := dated a named month day
      cases (dateStrToEpochDays_ofText named month day).symm.trans accepted
      rw [civilToEpochDays_serial fits]
      refine ⟨a, named, rfl, (computed_iff (ofText_year named)).mpr fits, ?_⟩
      have low := (year_nonneg_iff a.serial).mp (by rw [civilOfDays_serial valid]; exact fits.1)
      rw [ofText_epochDaysToIso low fits.serial_bounds.2, civilOfDays_serial valid]

/-- The text of a day number names a date with this number, and is read as this number without an overflow. -/
def RoundTrips (days : Int) : Prop :=
  ∃ a, ofText (epochDaysToIso days) = some a ∧ a.Valid ∧ a.serial = days ∧ a.Computed ∧
    dateStrToEpochDays (epochDaysToIso days) = some days

theorem roundTrips_iff {days : Int} (high : days < 2 ^ 31) :
    RoundTrips days ↔ -719528 ≤ days ∧ days + 719468 < 2 ^ 31 := by
  constructor
  · rintro ⟨a, named, -, rfl, computed, -⟩
    refine ⟨?_, ((computed_iff (ofText_year named)).mp computed).2⟩
    by_contra early
    rw [ofText_epochDaysToIso_negative (not_le.mp early)] at named
    cases named
  · rintro ⟨low, small⟩
    have named := ofText_epochDaysToIso low high
    have valid := civilOfDays_valid days
    have serial := serial_civilOfDays days
    have fits : (civilOfDays days).Fits := ⟨(year_nonneg_iff days).mpr low, by rw [serial]; exact small⟩
    refine ⟨_, named, valid, serial, (computed_iff (ofText_year named)).mpr fits, ?_⟩
    rw [dateStrToEpochDays_ofText named valid.month ⟨valid.day.1, valid.day_le⟩, civilToEpochDays_serial fits, serial]

/-- Acceptance and the numbers of texts, and the inverse, exactly where no impossible day is named and
nothing overflows; consecutive dates have consecutive numbers, and a binary parameter, which counts
from the year 2000, is printed as the date of its day. -/
theorem calendar_exact (text : String) (days : Int) (high : days < 2 ^ 31) :
    (Calendrical text ↔ WithinCalendar text) ∧ (RoundTrips days ↔ -719528 ≤ days ∧ days + 719468 < 2 ^ 31) ∧
      (∀ a : CivilDate, a.Valid → a.next.Valid ∧ a.next.serial = a.serial + 1) ∧ CivilDate.serial ⟨1970, 1, 1⟩ = 0 ∧
      renderBinaryDate (days - CivilDate.serial ⟨2000, 1, 1⟩) = .ok ("DATE " ++ ("'" ++ epochDaysToIso days ++ "'")) := by
  refine ⟨calendrical_iff text, roundTrips_iff high, fun a valid => ⟨valid_next valid, serial_next valid⟩, by decide, ?_⟩
  rw [show CivilDate.serial ⟨2000, 1, 1⟩ = 10957 by decide, renderBinaryDate, Int.sub_add_cancel, if_pos high,
    quoteSqlString_plain (epochDaysToIso_plain days)]

theorem calendar_exact_leap : Calendrical "2000-02-29" ∧ dateStrToEpochDays "2000-02-29" = some 11016 ∧ RoundTrips 11016 := by
  have exact := calendar_exact "2000-02-29" 11016 (by decide)
  refine ⟨exact.1.mpr fun a named _ _ => ?_, by decide, exact.2.1.mpr (by decide)⟩
  cases (show ofText "2000-02-29" = some ⟨2000, 2, 29⟩ by decide).symm.trans named
  decide

/-- A day that its month does not have is taken for one of the next month; the product of a
late year's era leaves the 32 bits, and the day number is negative. -/
theorem impossible_date_accepted :
    dateStrToEpochDays "2023-02-30" = dateStrToEpochDays "2023-03-02" ∧ (dateStrToEpochDays "2023-02-30").isSome ∧
      ¬ CivilDate.Valid ⟨2023, 2, 30⟩ ∧
      dateStrToEpochDays "6000000-01-01" = some (-2104231824) ∧
      epochDaysToIso (-719529) = "-001-12-31" ∧ dateStrToEpochDays (epochDaysToIso (-719529)) = none := by
  decide

end Denotation

end Neuralbase.Sql
