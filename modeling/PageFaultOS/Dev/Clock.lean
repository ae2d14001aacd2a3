import Mathlib.Tactic

/-! `getTimestamp` of `driver/clock.cpp`, over the registers that `rtc_timer_get_tm` of
`driver/rtc.c` reads while the clock runs. -/

namespace PageFaultOS

/-- The fields of `rtc->date`, `rtc->time` and `rtc->extended`. -/
structure RtcRegisters where
  century : Int
  year : Int
  month : Int
  day : Int
  week : Int
  hour : Int
  minute : Int
  second : Int

/-- `struct tm` -/
structure Tm where
  sec : Int
  min : Int
  hour : Int
  mday : Int
  mon : Int
  year : Int
  wday : Int
  yday : Int
  isdst : Int

def rtcYearIsLeap (year : Int) : Bool :=
  (year % 4 = 0 ∧ year % 100 ≠ 0) ∨ year % 400 = 0

/-- The table of `rtc_get_yday`, for years that are leap years or not. -/
def ydays : Bool → List Int
  | false => [0, 0, 31, 59, 90, 120, 151, 181, 212, 243, 273, 304, 334]
  | true => [0, 0, 31, 60, 91, 121, 152, 182, 213, 244, 274, 305, 335]

def rtcGetYday (year month day : Int) : Int :=
  (ydays (rtcYearIsLeap year)).getD month.toNat 0 + day

def rtcTimerGetTm (rtc : RtcRegisters) : Tm :=
  let year := rtc.year % 100 + rtc.century * 100 - 1900
  let mon := (rtc.month - 1) % 12
  let mday := rtc.day % 32
  { sec := rtc.second % 61
    min := rtc.minute % 60
    hour := rtc.hour % 24
    mday := mday
    mon := mon
    year := year
    wday := rtc.week % 7
    yday := rtcGetYday (year + 1900) (mon + 1) mday % 366
    isdst := -1 }

/-- The bytes from `leapYear` on, and those in front of the array. -/
abbrev LeapYears := Int → UInt8

/-- A round of the loop of `initLeapYear`. A sum that is stored in a `bool` is 0 or 1. -/
def initLeapYearRound (leapYear : LeapYears) (i : Nat) : LeapYears :=
  let year : Int := i + 1970
  let sum := (leapYear i).toNat + (leapYear i).toNat
  if (year % 4 = 0 ∧ year % 100 ≠ 0) ∨ year % 400 = 0 then
    Function.update leapYear i (if sum + 1 = 0 then 0 else 1)
  else
    Function.update leapYear i (if sum = 0 then 0 else 1)

def initLeapYear (leapYear : LeapYears) : LeapYears :=
  (List.range' 1 99).foldl initLeapYearRound (Function.update leapYear 0 0)

/-- `days` is a `uint64`, and the other operands are of type `int`. -/
def getTimestamp (leapYear : LeapYears) (tm : Tm) : BitVec 64 :=
  let off := tm.year - 1970
  let leaps : Int := (leapYear (off - 1)).toNat
  let days := BitVec.ofInt 64 (leaps * 366 + (off - 1 - leaps) * 365 + tm.yday)
  days * 86400 + BitVec.ofInt 64 (tm.hour * 3600) + BitVec.ofInt 64 tm.sec

/-! ## The calendar -/

structure DateTime where
  year : Nat
  month : Nat
  day : Nat
  hour : Nat
  minute : Nat
  second : Nat

namespace DateTime

def isLeap (year : Nat) : Bool := (year % 4 = 0 ∧ year % 100 ≠ 0) ∨ year % 400 = 0

def daysInYear (year : Nat) : Nat := if isLeap year then 366 else 365

def daysInMonth (year : Nat) : Nat → Nat
  | 2 => if isLeap year then 29 else 28
  | 4 | 6 | 9 | 11 => 30
  | _ => 31

/-- A date and time from 1970-01-01 00:00:00 to 2069-12-31 23:59:59. -/
structure Valid (t : DateTime) : Prop where
  year : 1970 ≤ t.year ∧ t.year ≤ 2069
  month : 1 ≤ t.month ∧ t.month ≤ 12
  day : 1 ≤ t.day ∧ t.day ≤ daysInMonth t.year t.month
  hour : t.hour < 24
  minute : t.minute < 60
  second : t.second < 60

/-- The whole days since 1970-01-01. -/
def days (t : DateTime) : Nat :=
  ((List.range' 1970 (t.year - 1970)).map daysInYear).sum +
    ((List.range' 1 (t.month - 1)).map (daysInMonth t.year)).sum + (t.day - 1)

/-- The seconds since 1970-01-01 00:00:00. -/
def seconds (t : DateTime) : Nat :=
  t.days * 86400 + t.hour * 3600 + t.minute * 60 + t.second

/-- The registers of a clock that has been set to the date and time. -/
def registers (t : DateTime) (week : Int) : RtcRegisters :=
  ⟨(t.year / 100 : Nat), (t.year % 100 : Nat), t.month, t.day, week, t.hour, t.minute, t.second⟩

theorem daysInYear_le (year : Nat) : daysInYear year ≤ 366 := by
  unfold daysInYear
  split <;> omega

theorem daysInMonth_le (year month : Nat) : daysInMonth year month ≤ 31 := by
  unfold daysInMonth
  split
  · split <;> omega
  all_goals omega

/-- A hundred years have fewer days than this. -/
theorem Valid.days_lt {t : DateTime} (h : t.Valid) : t.days < 40000 := by
  have hyears := List.sum_le_card_nsmul ((List.range' 1970 (t.year - 1970)).map daysInYear) 366
    fun x hx => by
      obtain ⟨y, _, rfl⟩ := List.mem_map.mp hx
      exact daysInYear_le y
  have hmonths := List.sum_le_card_nsmul
    ((List.range' 1 (t.month - 1)).map (daysInMonth t.year)) 31 fun x hx => by
      obtain ⟨m, _, rfl⟩ := List.mem_map.mp hx
      exact daysInMonth_le t.year m
  rw [List.length_map, List.length_range', smul_eq_mul] at hyears hmonths
  have hday := h.day.2.trans (daysInMonth_le t.year t.month)
  have hyear := h.year
  have hmonth := h.month
  unfold days
  omega

end DateTime

/-! ## The result -/

/-- The number that the call computes, before it is taken modulo `2 ^ 64`. -/
def Tm.stamp (tm : Tm) (leaps : Int) : Int :=
  ((tm.year - 1971) * 365 + leaps + tm.yday) * 86400 + tm.hour * 3600 + tm.sec

theorem getTimestamp_eq (leapYear : LeapYears) (tm : Tm) : getTimestamp leapYear tm =
    BitVec.ofInt 64 (tm.stamp (leapYear (tm.year - 1971)).toNat) := by
  have hoff : tm.year - 1970 - 1 = tm.year - 1971 := by omega
  have hday : (86400 : BitVec 64) = BitVec.ofInt 64 86400 := rfl
  unfold getTimestamp Tm.stamp
  dsimp only
  rw [hoff, hday, ← BitVec.ofInt_mul, ← BitVec.ofInt_add, ← BitVec.ofInt_add]
  congr 1
  ring

/-- `tm_year` counts from 1900, so `off` is negative: the array is read far in front of its
beginning, and whatever is there, the sum is below 0. -/
theorem stamp_negative {t : DateTime} (h : t.Valid) (week : Int) (leaps : UInt8) :
    -2 ^ 62 < (rtcTimerGetTm (t.registers week)).stamp leaps.toNat ∧
      (rtcTimerGetTm (t.registers week)).stamp leaps.toNat < 0 := by
  have hyear : (rtcTimerGetTm (t.registers week)).year = t.year - 1900 := by
    show ((t.year % 100 : Nat) : Int) % 100 + ((t.year / 100 : Nat) : Int) * 100 - 1900 = _
    omega
  have hyday : 0 ≤ (rtcTimerGetTm (t.registers week)).yday ∧
      (rtcTimerGetTm (t.registers week)).yday < 366 :=
    ⟨Int.emod_nonneg _ (by decide), Int.emod_lt_of_pos _ (by decide)⟩
  have hhour : 0 ≤ (rtcTimerGetTm (t.registers week)).hour ∧
      (rtcTimerGetTm (t.registers week)).hour < 24 :=
    ⟨Int.emod_nonneg _ (by decide), Int.emod_lt_of_pos _ (by decide)⟩
  have hsec : 0 ≤ (rtcTimerGetTm (t.registers week)).sec ∧
      (rtcTimerGetTm (t.registers week)).sec < 61 :=
    ⟨Int.emod_nonneg _ (by decide), Int.emod_lt_of_pos _ (by decide)⟩
  have hleaps := leaps.toNat_lt
  have hrange := h.year
  unfold Tm.stamp
  rw [hyear]
  constructor <;> omega

/-- On no valid date and time is the result the number of seconds since 1970. -/
theorem getTimestamp_never (leapYear : LeapYears) (week : Int) (t : DateTime) (h : t.Valid) :
    getTimestamp (initLeapYear leapYear) (rtcTimerGetTm (t.registers week)) ≠
      BitVec.ofNat 64 t.seconds := by
  intro heq
  rw [getTimestamp_eq, ← BitVec.ofInt_natCast] at heq
  obtain ⟨hlow, hneg⟩ := stamp_negative h week
    (initLeapYear leapYear ((rtcTimerGetTm (t.registers week)).year - 1971))
  have hdays := h.days_lt
  have hhour := h.hour
  have hminute := h.minute
  have hsecond := h.second
  have hseconds : t.seconds < 2 ^ 62 := by
    unfold DateTime.seconds
    omega
  have hint := congrArg BitVec.toInt heq
  rw [BitVec.toInt_ofInt, BitVec.toInt_ofInt, Int.bmod_eq_of_le (by omega) (by omega),
    Int.bmod_eq_of_le (by omega) (by omega)] at hint
  omega

/-- The first second of 1970, and the last of its first minute and the first of the next. -/
def DateTime.epoch : DateTime := ⟨1970, 1, 1, 0, 0, 0⟩

def DateTime.minuteEnd : DateTime := ⟨1970, 1, 1, 0, 0, 59⟩
def DateTime.nextMinute : DateTime := ⟨1970, 1, 1, 0, 1, 0⟩

theorem DateTime.epoch_valid : DateTime.epoch.Valid :=
  ⟨by decide, by decide, by decide, by decide, by decide, by decide⟩

theorem getTimestamp_never_epoch :
    getTimestamp (initLeapYear fun _ => 0) (rtcTimerGetTm (DateTime.epoch.registers 4)) ≠
      BitVec.ofNat 64 DateTime.epoch.seconds :=
  getTimestamp_never (fun _ => 0) 4 DateTime.epoch DateTime.epoch_valid

/-- The first timestamp is not 0, and the minutes do not count. -/
theorem getTimestamp_epoch :
    getTimestamp (initLeapYear fun _ => 0) (rtcTimerGetTm (DateTime.epoch.registers 4)) ≠
      BitVec.ofNat 64 DateTime.epoch.seconds ∧
    getTimestamp (initLeapYear fun _ => 0) (rtcTimerGetTm (DateTime.nextMinute.registers 4)) <
      getTimestamp (initLeapYear fun _ => 0) (rtcTimerGetTm (DateTime.minuteEnd.registers 4)) := by
  constructor <;> decide +kernel

end PageFaultOS
