import Reldex.DriverContract
import Reldex.Calendar

/-! Zoned timestamps on the wire. A timestamp is validated by the historical calendar of the
server, and travels as its fields in UTC beside the offset; the driver shifts them by the
proleptic Gregorian calendar in both directions. -/
namespace Reldex
open Calendar

inductive TemporalError where
  | yearOutOfRange | monthOutOfRange | dayOutOfRange | nonexistentCalendarDate | timeOutOfRange
  | nanosecondOutOfRange | offsetOutOfRange
  deriving DecidableEq, Repr

def gregorianReformYear : Int := 1582

def isLeapYear (year : Int16) : Bool :=
  let astronomical := if year.toInt < 0 then year.toInt + 1 else year.toInt
  if astronomical.tmod 4 ≠ 0 then false
  else if year.toInt < gregorianReformYear then true
  else astronomical.tmod 100 ≠ 0 || astronomical.tmod 400 = 0

def daysInMonth (year : Int16) (month : UInt8) : UInt8 := monthDays (isLeapYear year) month

def isInReformGap (year : Int16) (month day : UInt8) : Bool :=
  year.toInt = gregorianReformYear && month = 10 && 5 ≤ day && day ≤ 14

/-- `TimeZone::offset`. -/
def TimeZone.fixed (minutes : Int16) : Except TemporalError TimeZone :=
  if -1439 ≤ minutes.toInt ∧ minutes.toInt ≤ 1439 then .ok (.offset minutes) else .error .offsetOutOfRange

namespace Timestamp

def fromSource (year : Int16) (month day hour minute second : UInt8) : Except TemporalError Timestamp :=
  if ¬(-4712 ≤ year.toInt ∧ year.toInt ≤ 9999) ∨ year = 0 then .error .yearOutOfRange
  else if ¬(1 ≤ month ∧ month ≤ 12) then .error .monthOutOfRange
  else if day = 0 ∨ daysInMonth year month < day then .error .dayOutOfRange
  else if 23 < hour ∨ 59 < minute ∨ 59 < second then .error .timeOutOfRange
  else .ok ⟨year,month,day,hour,minute,second,0,.unspecified⟩

def new (year : Int16) (month day hour minute second : UInt8) : Except TemporalError Timestamp := do
  let timestamp ← fromSource year month day hour minute second
  if isInReformGap year month day then .error .nonexistentCalendarDate else .ok timestamp

def withNanosecond (t : Timestamp) (nanosecond : UInt32) : Except TemporalError Timestamp :=
  if 1000000000 ≤ nanosecond then .error .nanosecondOutOfRange else .ok { t with nanosecond := nanosecond }

def withZone (t : Timestamp) (zone : TimeZone) : Timestamp := { t with zone := zone }

def civil (t : Timestamp) : CivilTime := ⟨t.year,t.month,t.day,t.hour,t.minute⟩

end Timestamp

structure OracleTimestamp where
  year : Int16
  month : UInt8
  day : UInt8
  hour : UInt8
  minute : UInt8
  second : UInt8
  nanoseconds : UInt32
  tzHourOffset : Int8
  tzMinuteOffset : Int8
  deriving DecidableEq, Repr

/-- `i8::try_from(n).unwrap_or(0)`. -/
def toI8 (n : Int) : Int8 := if -2^7 ≤ n ∧ n < 2^7 then Int8.ofInt n else 0

def toOracleTimestamp (value : Timestamp) : OracleTimestamp :=
  match value.zone with
  | .offset minutes =>
    let utc := shiftMinutes value.civil (-minutes.toInt)
    ⟨utc.year,utc.month,utc.day,utc.hour,utc.minute,value.second,value.nanosecond,
      toI8 (minutes.toInt.tdiv 60),toI8 (minutes.toInt.tmod 60)⟩
  | .unspecified =>
    ⟨value.year,value.month,value.day,value.hour,value.minute,value.second,value.nanosecond,0,0⟩

def toTimestamp (value : OracleTimestamp) (zoned : Bool) : Except TemporalError Timestamp :=
  if zoned = false then do
    let timestamp ← Timestamp.fromSource value.year value.month value.day value.hour value.minute value.second
    timestamp.withNanosecond value.nanoseconds
  else do
    let minutes := value.tzHourOffset.toInt * 60 + value.tzMinuteOffset.toInt
    let civil := shiftMinutes ⟨value.year,value.month,value.day,value.hour,value.minute⟩ minutes
    let timestamp ← Timestamp.fromSource civil.year civil.month civil.day civil.hour civil.minute value.second
    let timestamp ← timestamp.withNanosecond value.nanoseconds
    let zone ← TimeZone.fixed (Int16.ofInt minutes)
    .ok (timestamp.withZone zone)

/-- A timestamp that the strict constructor accepts, with a zone of a fixed offset. -/
def Zoned (v : Timestamp) (minutes : Int16) : Prop :=
  (do
    let timestamp ← Timestamp.new v.year v.month v.day v.hour v.minute v.second
    let timestamp ← timestamp.withNanosecond v.nanosecond
    let zone ← TimeZone.fixed minutes
    .ok (timestamp.withZone zone)) = Except.ok v

instance (v : Timestamp) (minutes : Int16) : Decidable (Zoned v minutes) := inferInstanceAs (Decidable (_ = _))

/-- 29 February of a year that has it by the historical calendar alone. -/
def JulianLeapDay (v : Timestamp) : Prop :=
  v.month = 2 ∧ v.day = 29 ∧ isLeapGregorian v.year.toInt = false

instance (v : Timestamp) : Decidable (JulianLeapDay v) := inferInstanceAs (Decidable (_ ∧ _))

variable {v : Timestamp} {minutes : Int16}

structure ZonedFields (v : Timestamp) (minutes : Int16) : Prop where
  source : Timestamp.fromSource v.year v.month v.day v.hour v.minute v.second =
    .ok ⟨v.year,v.month,v.day,v.hour,v.minute,v.second,0,.unspecified⟩
  nanosecond : ¬1000000000 ≤ v.nanosecond
  offset : -1439 ≤ minutes.toInt ∧ minutes.toInt ≤ 1439
  zone : v.zone = .offset minutes

theorem check_ok {ε α : Type} {failed : Prop} [Decidable failed] {error : ε} {rest : Except ε α} {value : α}
    (passed : (if failed then .error error else rest) = .ok value) : ¬failed ∧ rest = .ok value := by
  by_cases failed <;> simp_all

section
variable {year : Int16} {month day hour minute second : UInt8} {t : Timestamp}

theorem fromSource_eq_ok (built : Timestamp.fromSource year month day hour minute second = .ok t) :
    t = ⟨year,month,day,hour,minute,second,0,.unspecified⟩ ∧ (-4712 ≤ year.toInt ∧ year.toInt ≤ 9999) ∧
    (1 ≤ month ∧ month ≤ 12) ∧ ¬(day = 0 ∨ daysInMonth year month < day) ∧
    ¬(23 < hour ∨ 59 < minute ∨ 59 < second) := by
  obtain ⟨realYear,built⟩ := check_ok built
  obtain ⟨realMonth,built⟩ := check_ok built
  obtain ⟨realDay,built⟩ := check_ok built
  obtain ⟨realTime,built⟩ := check_ok built
  exact ⟨(Except.ok.inj built).symm,Decidable.not_not.mp (not_or.mp realYear).1,Decidable.not_not.mp realMonth,
    realDay,realTime⟩

end

theorem Zoned.fields (zoned : Zoned v minutes) : ZonedFields v minutes := by
  unfold Zoned Timestamp.new at zoned
  cases source : Timestamp.fromSource v.year v.month v.day v.hour v.minute v.second with
  | error e =>
    rw [source] at zoned
    exact nomatch zoned
  | ok t =>
    obtain ⟨rfl,-⟩ := fromSource_eq_ok source
    rw [source] at zoned
    by_cases inGap : isInReformGap v.year v.month v.day = true
    · simp [inGap,bind,Except.bind] at zoned
    by_cases large : 1000000000 ≤ v.nanosecond
    · simp [inGap,large,Timestamp.withNanosecond,bind,Except.bind] at zoned
    by_cases offset : -1439 ≤ minutes.toInt ∧ minutes.toInt ≤ 1439
    · simp only [inGap,large,offset,Timestamp.withNanosecond,TimeZone.fixed,bind,Except.bind] at zoned
      exact ⟨source,large,offset,(congrArg Timestamp.zone (Except.ok.inj zoned)).symm⟩
    · simp [inGap,large,offset,Timestamp.withNanosecond,TimeZone.fixed,bind,Except.bind] at zoned

theorem ZonedFields.inRange (fields : ZonedFields v minutes) : InRange v.civil := by
  obtain ⟨-,year,month,day,time⟩ := fromSource_eq_ok fields.source
  simp only [UInt8.le_iff_toNat_le,UInt8.lt_iff_toNat_lt,not_or] at month day time
  have short : (daysInMonth v.year v.month).toNat ≤ 31 := by
    unfold daysInMonth monthDays
    cases isLeapYear v.year <;> split <;> decide
  have limits : (23 : UInt8).toNat = 23 ∧ (59 : UInt8).toNat = 59 := ⟨rfl,rfl⟩
  exact ⟨year,month,by simp only [Timestamp.civil]; omega,by simp only [Timestamp.civil]; omega,
    by simp only [Timestamp.civil]; omega⟩

theorem toI8_toInt (range : -2^7 ≤ n ∧ n < 2^7) : (toI8 n).toInt = n := by
  rw [toI8,if_pos range]
  exact Int8.toInt_ofInt_of_le range.1 (by omega)

theorem ZonedFields.parts (fields : ZonedFields v minutes) :
    (toI8 (minutes.toInt.tdiv 60)).toInt * 60 + (toI8 (minutes.toInt.tmod 60)).toInt = minutes.toInt := by
  have offset := fields.offset
  have sum := Int.tdiv_mul_add_tmod minutes.toInt 60
  have small := Int.tmod_lt_of_pos minutes.toInt (show (0 : Int) < 60 by omega)
  have large := Int.lt_tmod_of_pos minutes.toInt (show (0 : Int) < 60 by omega)
  rw [toI8_toInt (by omega),toI8_toInt (by omega),sum]

/-- On the way there and back a timestamp keeps all but its date, which becomes the Gregorian
date of its day number. -/
theorem ZonedFields.toTimestamp (fields : ZonedFields v minutes) :
    let date := civilFromDays (daysFromCivil v.year v.month v.day)
    toTimestamp (toOracleTimestamp v) true =
      (Timestamp.fromSource date.1 date.2.1 date.2.2 v.hour v.minute v.second).map fun timestamp =>
        { timestamp with nanosecond := v.nanosecond, zone := .offset minutes } := by
  have back := shiftMinutes_back fields.inRange fields.offset
  simp only [toOracleTimestamp,fields.zone,Reldex.toTimestamp,fields.parts,back]
  simp only [Timestamp.civil,Timestamp.withNanosecond,TimeZone.fixed,Int16.ofInt_toInt,if_neg fields.nanosecond,
    if_pos fields.offset]
  cases Timestamp.fromSource _ _ _ v.hour v.minute v.second <;> rfl

theorem monthDays_of_ne (leap leap' : Bool) (other : month ≠ 2) : monthDays leap month = monthDays leap' month := by
  have number : month.toNat ≠ 2 := fun two => other (UInt8.toNat_inj.mp two)
  unfold monthDays
  split <;> first | rfl | contradiction

theorem ZonedFields.gregorian (fields : ZonedFields v minutes) (ordinary : ¬JulianLeapDay v) :
    GregorianDate v.year v.month v.day := by
  obtain ⟨-,-,month,day,-⟩ := fromSource_eq_ok fields.source
  obtain ⟨present,short⟩ := not_or.mp day
  have positive : 1 ≤ v.day.toNat := Nat.one_le_iff_ne_zero.mpr fun zero => present (UInt8.toNat_inj.mp zero)
  refine ⟨month,positive,?_⟩
  have historical : v.day ≤ daysInMonth v.year v.month := UInt8.not_lt.mp short
  by_cases february : v.month = 2
  · -- Only the 29th needs a leap year, and then the year is one.
    rw [daysInMonth,february] at historical
    rw [february]
    by_cases last : v.day = 29
    · have leap : isLeapGregorian v.year.toInt = true := by
        by_contra common
        exact ordinary ⟨february,last,Bool.eq_false_iff.mpr common⟩
      rw [leap,last]
      decide
    · have most : v.day ≤ 29 :=
        UInt8.le_trans historical (by cases isLeapYear v.year <;> decide)
      have below : v.day ≤ 28 := by
        have number : v.day.toNat ≠ 29 := fun same => last (UInt8.toNat_inj.mp same)
        rw [UInt8.le_iff_toNat_le] at most ⊢
        exact Nat.le_of_lt_succ (Nat.lt_of_le_of_ne most number)
      exact UInt8.le_trans below (by cases isLeapGregorian v.year.toInt <;> decide)
  · rwa [← monthDays_of_ne _ _ february]

/-- A zoned timestamp comes back from the wire exactly if its date is one of the proleptic
Gregorian calendar: the leap days of the historical calendar alone come back as 1 March. -/
theorem zoned_round_trip_iff (v : Timestamp) (minutes : Int16) (zoned : Zoned v minutes) :
    toTimestamp (toOracleTimestamp v) true = .ok v ↔ ¬JulianLeapDay v := by
  have fields := zoned.fields
  rw [fields.toTimestamp]
  constructor
  · intro same leapDay
    obtain ⟨february,last,common⟩ := leapDay
    have first : GregorianDate v.year 3 1 := ⟨by decide,by decide,by cases isLeapGregorian v.year.toInt <;> decide⟩
    rw [february,last,daysFromCivil_leap_day common,first.civilFromDays] at same
    cases moved : Timestamp.fromSource v.year 3 1 v.hour v.minute v.second with
    | error e =>
      rw [moved] at same
      exact nomatch same
    | ok timestamp =>
      have march := congrArg Timestamp.month (fromSource_eq_ok moved).1
      rw [moved] at same
      have unchanged := congrArg Timestamp.month (Except.ok.inj same)
      simp only [february,march] at unchanged
      exact absurd unchanged (by decide)
  · intro ordinary
    rw [(fields.gregorian ordinary).civilFromDays,fields.source]
    simp only [Except.map,← fields.zone]

/-- A leap day of the Gregorian calendar comes back, from the other side of midnight. -/
theorem gregorian_leap_day_comes_back : Zoned ⟨2024,2,29,3,15,0,0,.offset 420⟩ 420 ∧
    toTimestamp (toOracleTimestamp ⟨2024,2,29,3,15,0,0,.offset 420⟩) true = .ok ⟨2024,2,29,3,15,0,0,.offset 420⟩ :=
  ⟨by decide,(zoned_round_trip_iff _ 420 (by decide)).mpr (by decide)⟩

/-- Without any shift, 29 February 1500 and 29 February of 1 BC come back as 1 March. -/
theorem julian_leap_days_are_moved : Zoned ⟨1500,2,29,0,0,0,0,.offset 0⟩ 0 ∧
    toTimestamp (toOracleTimestamp ⟨1500,2,29,0,0,0,0,.offset 0⟩) true = .ok ⟨1500,3,1,0,0,0,0,.offset 0⟩ ∧
    Zoned ⟨-1,2,29,0,0,0,0,.offset 0⟩ 0 ∧
    toTimestamp (toOracleTimestamp ⟨-1,2,29,0,0,0,0,.offset 0⟩) true = .ok ⟨-1,3,1,0,0,0,0,.offset 0⟩ := by
  decide

end Reldex
