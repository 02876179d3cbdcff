import Mathlib.Tactic.Ring
import Mathlib.Tactic.IntervalCases

/-! Civil arithmetic of the driver: the day number of a proleptic Gregorian date, its inverse, and
the shift of a date and time by minutes. Both walks count years from March, so that the leap day
is the last of its year. -/
namespace Reldex.Calendar

/-- `i16::try_from(n).unwrap_or(0)`. -/
def toI16 (n : Int) : Int16 := if -2^15 ≤ n ∧ n < 2^15 then Int16.ofInt n else 0

/-- `i32::try_from(n).unwrap_or(0)`. -/
def toI32 (n : Int) : Int := if -2^31 ≤ n ∧ n < 2^31 then n else 0

/-- `u8::try_from(n).unwrap_or(default)`. -/
def toU8 (default : UInt8) (n : Int) : UInt8 := if 0 ≤ n ∧ n < 256 then UInt8.ofNat n.toNat else default

def daysFromCivil (year : Int16) (month day : UInt8) : Int :=
  let y := year.toInt - if month ≤ 2 then 1 else 0
  let era := (if 0 ≤ y then y else y - 399).tdiv 400
  let yoe := y - era * 400
  let m : Int := month.toNat
  let doy := (153 * (m + if 2 < m then -3 else 9) + 2).tdiv 5 + day.toNat - 1
  let doe := yoe * 365 + yoe.tdiv 4 - yoe.tdiv 100 + doy
  era * 146097 + doe - 719468

def civilFromDays (days : Int) : Int16 × UInt8 × UInt8 :=
  let z := days + 719468
  let era := (if 0 ≤ z then z else z - 146096).tdiv 146097
  let doe := z - era * 146097
  let yoe := (doe - doe.tdiv 1460 + doe.tdiv 36524 - doe.tdiv 146096).tdiv 365
  let y := yoe + era * 400
  let doy := doe - (365 * yoe + yoe.tdiv 4 - yoe.tdiv 100)
  let mp := (5 * doy + 2).tdiv 153
  let d := doy - (153 * mp + 2).tdiv 5 + 1
  let m := mp + if mp < 10 then 3 else -9
  (toI16 (y + if m ≤ 2 then 1 else 0),toU8 1 m,toU8 1 d)

structure CivilTime where
  year : Int16
  month : UInt8
  day : UInt8
  hour : UInt8
  minute : UInt8
  deriving DecidableEq, Repr

def shiftMinutes (t : CivilTime) (minutes : Int) : CivilTime :=
  let total := daysFromCivil t.year t.month t.day * 24 * 60 + t.hour.toNat * 60 + t.minute.toNat + minutes
  let days := total / (24 * 60)
  let within := total % (24 * 60)
  let (year,month,day) := civilFromDays (toI32 days)
  ⟨year,month,day,toU8 0 (within / 60),toU8 0 (within % 60)⟩

theorem toI16_toInt (range : -2^15 ≤ n ∧ n < 2^15) : (toI16 n).toInt = n := by
  rw [toI16,if_pos range]
  exact Int16.toInt_ofInt_of_le range.1 (by omega)

theorem toI16_of_toInt (year : Int16) : toI16 year.toInt = year := by
  rw [toI16,if_pos ⟨year.le_toInt,year.toInt_lt⟩,Int16.ofInt_toInt]

theorem toU8_toNat (default : UInt8) (range : 0 ≤ n ∧ n < 256) : ((toU8 default n).toNat : Int) = n := by
  have small : n.toNat < UInt8.size := by simp; omega
  rw [toU8,if_pos range,UInt8.toNat_ofNat_of_lt' small,Int.toNat_of_nonneg range.1]

theorem toU8_of_toNat (default small : UInt8) : toU8 default small.toNat = small := by
  have := small.toNat_lt
  rw [toU8,if_pos (by omega),Int.toNat_natCast,UInt8.ofNat_toNat]

theorem toI32_eq (range : -2^31 ≤ n ∧ n < 2^31) : toI32 n = n := if_pos range

section

def firstDay (y : Int) : Int := 365 * y + y / 4 - y / 100 + y / 400
def yearLength (y : Int) : Int := firstDay (y + 1) - firstDay y

def isLeapGregorian (year : Int) : Bool := year % 4 = 0 && (year % 100 ≠ 0 || year % 400 = 0)

theorem isLeapGregorian_iff (year : Int) :
    isLeapGregorian year = true ↔ year % 4 = 0 ∧ (year % 100 ≠ 0 ∨ year % 400 = 0) := by
  simp [isLeapGregorian]

theorem yearLength_eq (y : Int) : yearLength y = if isLeapGregorian (y + 1) then 366 else 365 := by
  by_cases leap : isLeapGregorian (y + 1) = true
  · rw [if_pos leap,yearLength,firstDay,firstDay]
    rw [isLeapGregorian_iff] at leap
    omega
  · rw [if_neg leap,yearLength,firstDay,firstDay]
    rw [isLeapGregorian_iff] at leap
    omega

/-- A year in its era: century, group of four years, place in the group. -/
structure YearParts (y e c q r : Int) : Prop where
  sum : y = 400 * e + 100 * c + 4 * q + r
  century : 0 ≤ c ∧ c ≤ 3
  group : 0 ≤ q ∧ q ≤ 24
  place : 0 ≤ r ∧ r ≤ 3

theorem yearParts (y : Int) : YearParts y (y / 400) (y % 400 / 100) (y % 100 / 4) (y % 4) :=
  ⟨by omega,by omega,by omega,by omega⟩

variable {y e c q r doy : Int} (parts : YearParts y e c q r)
include parts

theorem YearParts.firstDay : firstDay y = 146097 * e + (36524 * c + 1461 * q + 365 * r) := by
  obtain ⟨rfl,⟨_,_⟩,⟨_,_⟩,⟨_,_⟩⟩ := parts
  unfold Calendar.firstDay
  omega

/-- Only the last year of a group has a leap day, and of the last groups that of the last century. -/
theorem YearParts.below_iff : doy < yearLength y ↔ doy ≤ 364 ∨ doy = 365 ∧ r = 3 ∧ (q = 24 → c = 3) := by
  obtain ⟨rfl,⟨_,_⟩,⟨_,_⟩,⟨_,_⟩⟩ := parts
  unfold yearLength Calendar.firstDay
  omega

theorem YearParts.yearOfEra (nonneg : 0 ≤ doy) (below : doy < yearLength y)
    (doe : Int) (count : doe = 36524 * c + 1461 * q + 365 * r + doy) :
    0 ≤ doe ∧ doe < 146097 ∧ (doe - doe / 1460 + doe / 36524 - doe / 146096) / 365 = 100 * c + 4 * q + r := by
  have last := parts.below_iff.mp below
  obtain ⟨-,century,group,place⟩ := parts
  have fours : doe / 1460 = 25 * c + q + (24 * c + q + 365 * r + doy) / 1460 := by omega
  have hundreds : doe / 36524 = c + doe / 146096 := by
    by_cases final : c = 3 ∧ q = 24 ∧ r = 3 ∧ doy = 365
    · omega
    · have : 1461 * q + 365 * r + doy < 36524 := by omega
      have : doe / 36524 = c := by omega
      omega
  refine ⟨by omega,by omega,?_⟩
  rw [fours,hundreds]
  omega

end

section
variable {y doy : Int}

def marchMonth (month : Int) : Int := month + if 2 < month then -3 else 9
def dayOfYear (month day : Int) : Int := (153 * marchMonth month + 2) / 5 + day - 1

theorem era_eq (y : Int) : (if 0 ≤ y then y else y - 399).tdiv 400 = y / 400 := by
  rw [Int.tdiv_eq_ediv,show Int.sign 400 = 1 from rfl]
  split <;> split <;> omega

theorem eraOfDays_eq (z : Int) : (if 0 ≤ z then z else z - 146096).tdiv 146097 = z / 146097 := by
  rw [Int.tdiv_eq_ediv,show Int.sign 146097 = 1 from rfl]
  split <;> split <;> omega

theorem daysFromCivil_eq (year : Int16) (month day : UInt8) (real : 1 ≤ month.toNat) : daysFromCivil year month day =
      firstDay (year.toInt - if month ≤ 2 then 1 else 0) + dayOfYear month.toNat day.toNat - 719468 := by
  unfold daysFromCivil
  generalize (year.toInt - if month ≤ 2 then 1 else 0) = y
  have months : 0 ≤ marchMonth month.toNat := by
    unfold marchMonth
    split <;> omega
  simp only [era_eq]
  rw [Int.tdiv_eq_ediv_of_nonneg (a := y - y / 400 * 400) (by omega),
    Int.tdiv_eq_ediv_of_nonneg (a := y - y / 400 * 400) (by omega),← marchMonth,
    Int.tdiv_eq_ediv_of_nonneg (by omega),dayOfYear,firstDay]
  omega

theorem civilFromDays_eq (nonneg : 0 ≤ doy) (below : doy < yearLength y) : civilFromDays (firstDay y + doy - 719468) =
      let mp := (5 * doy + 2) / 153
      let m := mp + if mp < 10 then 3 else -9
      (toI16 (y + if m ≤ 2 then 1 else 0),toU8 1 m,toU8 1 (doy - (153 * mp + 2) / 5 + 1)) := by
  have parts := yearParts y
  have yoe : 100 * (y % 400 / 100) + 4 * (y % 100 / 4) + y % 4 = y % 400 := by omega
  obtain ⟨doe,count⟩ : ∃ doe, doe = 36524 * (y % 400 / 100) + 1461 * (y % 100 / 4) + 365 * (y % 4) + doy := ⟨_,rfl⟩
  obtain ⟨low,high,years⟩ := parts.yearOfEra nonneg below doe count
  have total : firstDay y + doy - 719468 + 719468 = 146097 * (y / 400) + doe := by
    rw [parts.firstDay,count]
    omega
  have era : (146097 * (y / 400) + doe) / 146097 = y / 400 := by omega
  have rest : 146097 * (y / 400) + doe - y / 400 * 146097 = doe := by omega
  have day : doe - (365 * (y % 400) + y % 400 / 4 - y % 400 / 100) = doy := by
    clear years
    omega
  have year : y % 400 + y / 400 * 400 = y := by omega
  have middle : 0 ≤ doe - doe / 1460 + doe / 36524 - doe / 146096 := by omega
  rw [yoe] at years
  simp only [civilFromDays,total,eraOfDays_eq,era,rest]
  simp only [Int.tdiv_eq_ediv_of_nonneg low,Int.tdiv_eq_ediv_of_nonneg middle,years]
  simp only [Int.tdiv_eq_ediv_of_nonneg (show 0 ≤ y % 400 by omega),day,year]
  simp only [Int.tdiv_eq_ediv_of_nonneg (show 0 ≤ 5 * doy + 2 by omega)]
  simp only [Int.tdiv_eq_ediv_of_nonneg (show 0 ≤ 153 * ((5 * doy + 2) / 153) + 2 by omega)]

theorem exists_year (z : Int) : ∃ y doy, 0 ≤ doy ∧ doy < yearLength y ∧ z = firstDay y + doy := by
  obtain ⟨c,century⟩ : ∃ c, c = min (z % 146097 / 36524) 3 := ⟨_,rfl⟩
  obtain ⟨q,group⟩ : ∃ q, q = (z % 146097 - 36524 * c) / 1461 := ⟨_,rfl⟩
  obtain ⟨r,place⟩ : ∃ r, r = min ((z % 146097 - 36524 * c - 1461 * q) / 365) 3 := ⟨_,rfl⟩
  have parts : YearParts (400 * (z / 146097) + 100 * c + 4 * q + r) (z / 146097) c q r :=
    ⟨rfl,by omega,by omega,by omega⟩
  refine ⟨_,z % 146097 - 36524 * c - 1461 * q - 365 * r,by omega,parts.below_iff.mpr (by omega),?_⟩
  rw [parts.firstDay]
  omega

theorem toU8_le_two (range : 0 ≤ m ∧ m < 256) : toU8 1 m ≤ 2 ↔ m ≤ 2 := by
  have cast := toU8_toNat 1 range
  rw [UInt8.le_iff_toNat_le,show (2 : UInt8).toNat = 2 from rfl]
  omega

def monthDays (leap : Bool) (month : UInt8) : UInt8 :=
  match month.toNat with
  | 1 | 3 | 5 | 7 | 8 | 10 | 12 => 31
  | 4 | 6 | 9 | 11 => 30
  | 2 => if leap then 29 else 28
  | _ => 0

structure GregorianDate (year : Int16) (month day : UInt8) : Prop where
  realMonth : 1 ≤ month.toNat ∧ month.toNat ≤ 12
  realDay : 1 ≤ day.toNat ∧ day ≤ monthDays (isLeapGregorian year.toInt) month

variable {year : Int16} {month day : UInt8}

theorem month_le_two : month ≤ 2 ↔ month.toNat ≤ 2 := UInt8.le_iff_toNat_le

theorem civilFromDays_parts (nonneg : 0 ≤ doy) (below : doy < yearLength y) :
    ∃ m d, civilFromDays (firstDay y + doy - 719468) = (toI16 (y + if m ≤ 2 then 1 else 0),toU8 1 m,toU8 1 d) ∧
      (1 ≤ m ∧ m ≤ 12) ∧ (m ≤ 2 ↔ 306 ≤ doy) ∧ dayOfYear m d = doy ∧
      1 ≤ d ∧ d ≤ (monthDays (isLeapGregorian (y + if m ≤ 2 then 1 else 0)) (toU8 1 m)).toNat := by
  refine ⟨_,_,civilFromDays_eq nonneg below,?_⟩
  rw [yearLength_eq] at below
  generalize months : (5 * doy + 2) / 153 = mp
  have twelve : 0 ≤ mp ∧ mp ≤ 11 := by split at below <;> omega
  -- February, the last month, alone depends on the year.
  cases leap : isLeapGregorian (y + 1)
  all_goals
    rw [leap] at below
    obtain ⟨low,high⟩ := twelve
    interval_cases mp
    all_goals
      simp [dayOfYear,marchMonth,monthDays,toU8,leap] at below ⊢
      omega

theorem GregorianDate.fits (date : GregorianDate year month day) : 0 ≤ dayOfYear month.toNat day.toNat ∧
    dayOfYear month.toNat day.toNat < yearLength (year.toInt - if month ≤ 2 then 1 else 0) ∧
    (5 * dayOfYear month.toNat day.toNat + 2) / 153 = marchMonth month.toNat := by
  obtain ⟨⟨low,high⟩,first,last⟩ := date
  have bound := UInt8.le_iff_toNat_le.mp last
  clear last
  unfold monthDays at bound
  rw [yearLength_eq]
  simp only [month_le_two]
  generalize month.toNat = k at *
  -- February alone depends on the year.
  cases leap : isLeapGregorian year.toInt
  all_goals
    interval_cases k
    all_goals
      simp [dayOfYear,marchMonth,leap] at bound ⊢
      omega

theorem GregorianDate.civilFromDays (date : GregorianDate year month day) :
    civilFromDays (daysFromCivil year month day) = (year,month,day) := by
  obtain ⟨nonneg,below,march⟩ := date.fits
  obtain ⟨⟨low,high⟩,first,-⟩ := date
  rw [daysFromCivil_eq _ _ _ low,civilFromDays_eq nonneg below]
  simp only [march]
  have back : (marchMonth month.toNat + if marchMonth month.toNat < 10 then 3 else -9) = month.toNat := by
    unfold marchMonth
    split <;> split <;> omega
  have rest : dayOfYear month.toNat day.toNat - (153 * marchMonth month.toNat + 2) / 5 + 1 = day.toNat := by
    unfold dayOfYear
    omega
  have years : (year.toInt - if month ≤ 2 then 1 else 0) + (if (month.toNat : Int) ≤ 2 then 1 else 0) = year.toInt := by
    simp only [month_le_two]
    split <;> split <;> omega
  rw [back,rest,years,toI16_of_toInt,toU8_of_toNat,toU8_of_toNat]

/-- The days from the first of January of the first year that an `i16` holds to the last of December of the last. -/
def YearFits (days : Int) : Prop := daysFromCivil (-32768) 1 1 ≤ days ∧ days ≤ daysFromCivil 32767 12 31

theorem YearFits.bounds {days : Int} : YearFits days ↔ -12687794 ≤ days ∧ days ≤ 11248737 := by
  rw [YearFits,show daysFromCivil (-32768) 1 1 = -12687794 by decide,show daysFromCivil 32767 12 31 = 11248737 by decide]

theorem firstDay_mono {y z : Int} (earlier : y < z) : firstDay y + yearLength y ≤ firstDay z := by
  unfold yearLength firstDay
  omega

theorem YearFits.real {days : Int} (fits : YearFits days) :
    let date := civilFromDays days
    GregorianDate date.1 date.2.1 date.2.2 ∧ daysFromCivil date.1 date.2.1 date.2.2 = days := by
  obtain ⟨y,doy,nonneg,below,sum⟩ := exists_year (days + 719468)
  obtain rfl : days = firstDay y + doy - 719468 := by omega
  obtain ⟨m,d,parts,twelve,early,place,first,last⟩ := civilFromDays_parts nonneg below
  have year : (toI16 (y + if m ≤ 2 then 1 else 0)).toInt = y + if m ≤ 2 then 1 else 0 := by
    rw [YearFits.bounds] at fits
    refine toI16_toInt ?_
    rcases lt_trichotomy y (-32769) with before | rfl | after
    · have := firstDay_mono before
      rw [show firstDay (-32769) = -11968632 by decide] at this
      omega
    · rw [show firstDay (-32769) = -11968632 by decide] at fits
      split <;> omega
    · unfold firstDay at fits
      split <;> omega
  have month := toU8_toNat 1 (n := m) (by omega)
  have day := toU8_toNat 1 (n := d) ⟨by omega,last.trans_lt (mod_cast UInt8.toNat_lt _)⟩
  simp only [parts]
  refine ⟨⟨by omega,by omega,?_⟩,?_⟩
  · rw [UInt8.le_iff_toNat_le,year]
    omega
  · rw [daysFromCivil_eq _ _ _ (by omega),year,month,day,place]
    simp only [toU8_le_two (show 0 ≤ m ∧ m < 256 by omega)]
    rw [Int.add_sub_cancel]

theorem GregorianDate.yearFits (date : GregorianDate year month day) : YearFits (daysFromCivil year month day) := by
  obtain ⟨nonneg,below,march⟩ := date.fits
  have low := year.le_toInt
  have high := year.toInt_lt
  have real := date.realMonth
  rw [YearFits.bounds,daysFromCivil_eq _ _ _ real.1]
  rw [yearLength_eq] at below
  unfold marchMonth at march
  simp only [month_le_two] at below ⊢
  unfold firstDay
  split at below <;> split at march <;> split <;> omega

def Earlier (a b : Int16 × UInt8 × UInt8) : Prop :=
  a.1 < b.1 ∨ a.1 = b.1 ∧ (a.2.1 < b.2.1 ∨ a.2.1 = b.2.1 ∧ a.2.2 < b.2.2)

theorem Earlier.total (a b : Int16 × UInt8 × UInt8) : Earlier a b ∨ a = b ∨ Earlier b a := by
  obtain ⟨year,month,day⟩ := a
  obtain ⟨year',month',day'⟩ := b
  simp only [Earlier,Prod.mk.injEq,Int16.lt_iff_toInt_lt,UInt8.lt_iff_toNat_lt,← Int16.toInt_inj,← UInt8.toNat_inj]
  omega

theorem GregorianDate.daysFromCivil_lt {year' : Int16} {month' day' : UInt8} (date : GregorianDate year month day)
    (date' : GregorianDate year' month' day') (earlier : Earlier (year,month,day) (year',month',day')) :
    daysFromCivil year month day < daysFromCivil year' month' day' := by
  obtain ⟨nonneg,below,march⟩ := date.fits
  obtain ⟨nonneg',below',march'⟩ := date'.fits
  have real := date.realMonth
  have real' := date'.realMonth
  rw [daysFromCivil_eq _ _ _ real.1,daysFromCivil_eq _ _ _ real'.1]
  simp only [Earlier,Int16.lt_iff_toInt_lt,UInt8.lt_iff_toNat_lt,← Int16.toInt_inj,← UInt8.toNat_inj] at earlier
  simp only [month_le_two] at below below' ⊢
  rcases lt_trichotomy (year.toInt - if month.toNat ≤ 2 then 1 else 0) (year'.toInt - if month'.toNat ≤ 2 then 1 else 0)
    with before | same | after
  · have := firstDay_mono before
    omega
  · rw [same]
    have later : marchMonth month.toNat < marchMonth month'.toNat ∨ month.toNat = month'.toNat ∧ day.toNat < day'.toNat := by
      unfold marchMonth
      split at same <;> split at same <;> split <;> split <;> omega
    rcases later with months | ⟨month,days⟩
    · omega
    · rw [month]
      unfold dayOfYear
      omega
  · split at after <;> split at after <;> omega

/-- 29 February of a year without it has the day number of 1 March. -/
theorem daysFromCivil_leap_day (common : isLeapGregorian year.toInt = false) :
    daysFromCivil year 2 29 = daysFromCivil year 3 1 := by
  have length := yearLength_eq (year.toInt - 1)
  rw [Int.sub_add_cancel,common] at length
  rw [daysFromCivil_eq _ _ _ (by decide),daysFromCivil_eq _ _ _ (by decide)]
  unfold yearLength at length
  rw [Int.sub_add_cancel] at length
  simp [dayOfYear,marchMonth] at length ⊢
  omega

end

variable {t : CivilTime} {minutes : Int}

structure InRange (t : CivilTime) : Prop where
  year : -4712 ≤ t.year.toInt ∧ t.year.toInt ≤ 9999
  month : 1 ≤ t.month.toNat ∧ t.month.toNat ≤ 12
  day : t.day.toNat ≤ 31
  hour : t.hour.toNat < 24
  minute : t.minute.toNat < 60

theorem InRange.days (range : InRange t) :
    -2999999 ≤ daysFromCivil t.year t.month t.day ∧ daysFromCivil t.year t.month t.day ≤ 2999999 := by
  obtain ⟨year,month,day,-,-⟩ := range
  rw [daysFromCivil_eq _ _ _ month.1]
  unfold firstDay dayOfYear marchMonth
  split <;> split <;> omega

theorem shiftMinutes_eq (days : Int) (small : -2^31 ≤ days ∧ days < 2^31) (within : Int) (inside : 0 ≤ within ∧ within < 1440)
    (total : daysFromCivil t.year t.month t.day * 24 * 60 + t.hour.toNat * 60 + t.minute.toNat + minutes =
      days * 1440 + within) :
    shiftMinutes t minutes = ⟨(civilFromDays days).1,(civilFromDays days).2.1,(civilFromDays days).2.2,
      toU8 0 (within / 60),toU8 0 (within % 60)⟩ := by
  have quotient : (days * 1440 + within) / (24 * 60) = days := by omega
  have remainder : (days * 1440 + within) % (24 * 60) = within := by omega
  simp only [shiftMinutes,total,quotient,remainder,toI32_eq small]

theorem shiftMinutes_undone (minutes : Int) (hour : t.hour.toNat < 24) (minute : t.minute.toNat < 60)
    (small : -2^31 ≤ daysFromCivil t.year t.month t.day ∧ daysFromCivil t.year t.month t.day < 2^31)
    (fits : YearFits ((daysFromCivil t.year t.month t.day * 1440 + t.hour.toNat * 60 + t.minute.toNat + minutes) / 1440)) :
    let date := civilFromDays (daysFromCivil t.year t.month t.day)
    shiftMinutes (shiftMinutes t minutes) (-minutes) = ⟨date.1,date.2.1,date.2.2,t.hour,t.minute⟩ := by
  generalize start : daysFromCivil t.year t.month t.day = day at small fits
  obtain ⟨total,sum⟩ : ∃ total, total = day * 1440 + t.hour.toNat * 60 + t.minute.toNat + minutes := ⟨_,rfl⟩
  rw [← sum] at fits
  have held := YearFits.bounds.mp fits
  have there : shiftMinutes t minutes = _ :=
    shiftMinutes_eq (total / 1440) (by omega) (total % 1440) (by omega) (by rw [start]; omega)
  have back := fits.real.2
  rw [shiftMinutes_eq day small (t.hour.toNat * 60 + t.minute.toNat) (by omega)]
  · have hours : ((t.hour.toNat : Int) * 60 + t.minute.toNat) / 60 = t.hour.toNat := by omega
    have rest : ((t.hour.toNat : Int) * 60 + t.minute.toNat) % 60 = t.minute.toNat := by omega
    rw [hours,rest,toU8_of_toNat,toU8_of_toNat]
  · rw [there,back,toU8_toNat 0 (by omega),toU8_toNat 0 (by omega)]
    omega

theorem shiftMinutes_back (range : InRange t) (less : -1439 ≤ minutes ∧ minutes ≤ 1439) :
    let date := civilFromDays (daysFromCivil t.year t.month t.day)
    shiftMinutes (shiftMinutes t (-minutes)) minutes = ⟨date.1,date.2.1,date.2.2,t.hour,t.minute⟩ := by
  have hour := range.hour
  have minute := range.minute
  have bounds := range.days
  have undone := shiftMinutes_undone (-minutes) hour minute (by omega) (YearFits.bounds.mpr (by omega))
  rwa [Int.neg_neg] at undone

structure CivilTime.Real (t : CivilTime) : Prop where
  date : GregorianDate t.year t.month t.day
  hour : t.hour.toNat < 24
  minute : t.minute.toNat < 60

def shiftedDay (t : CivilTime) (minutes : Int) : Int :=
  (daysFromCivil t.year t.month t.day * 1440 + t.hour.toNat * 60 + t.minute.toNat + minutes) / 1440

theorem calendar_is_exact :
    (∀ days, YearFits days →
      let date := civilFromDays days
      GregorianDate date.1 date.2.1 date.2.2 ∧ daysFromCivil date.1 date.2.1 date.2.2 = days) ∧
    (∀ year month day, GregorianDate year month day →
      YearFits (daysFromCivil year month day) ∧ civilFromDays (daysFromCivil year month day) = (year,month,day)) ∧
    (∀ days later, YearFits days → YearFits later → days < later → Earlier (civilFromDays days) (civilFromDays later)) ∧
    (∀ year month day year' month' day', GregorianDate year month day → GregorianDate year' month' day' →
      Earlier (year,month,day) (year',month',day') → daysFromCivil year month day < daysFromCivil year' month' day') ∧
    (∀ t minutes, CivilTime.Real t → YearFits (shiftedDay t minutes) →
      shiftMinutes (shiftMinutes t minutes) (-minutes) = t) := by
  refine ⟨fun _ fits => fits.real,fun _ _ _ date => ⟨date.yearFits,date.civilFromDays⟩,?_,
    fun _ _ _ _ _ _ date date' earlier => date.daysFromCivil_lt date' earlier,?_⟩
  · intro days later fits fits' less
    obtain ⟨date,back⟩ := fits.real
    obtain ⟨date',back'⟩ := fits'.real
    rcases Earlier.total (civilFromDays days) (civilFromDays later) with earlier | same | reversed
    · exact earlier
    · simp only [same] at back back'
      omega
    · have := date'.daysFromCivil_lt date reversed
      omega
  · intro t minutes real fits
    have small := YearFits.bounds.mp real.date.yearFits
    rw [shiftMinutes_undone minutes real.hour real.minute (by omega) fits]
    simp only [real.date.civilFromDays]

theorem a_leap_day_comes_back : daysFromCivil 2023 3 1 < daysFromCivil 2024 2 29 ∧
    shiftMinutes (shiftMinutes ⟨2024,2,29,23,50⟩ (-525600)) 525600 = ⟨2024,2,29,23,50⟩ := by
  obtain ⟨-,-,-,order,shift⟩ := calendar_is_exact
  have leap : GregorianDate 2024 2 29 := ⟨by decide,by decide⟩
  exact ⟨order 2023 3 1 2024 2 29 ⟨by decide,by decide⟩ leap (Or.inl (by decide)),
    shift _ (-525600) ⟨leap,by decide,by decide⟩ (YearFits.bounds.mpr (by decide))⟩

end Reldex.Calendar
