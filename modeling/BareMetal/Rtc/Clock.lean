import Mathlib.Data.Nat.Bitwise
import Mathlib.Logic.Function.Iterate
import Mathlib.Tactic.Common

/-!
# Reading the clock

The real-time clock shows the date in one register and the time in another, and both change
together once a second. `rtc.c` reads one field at a time, each with its own access to the
register, and two functions put six such fields together: `get_fattime` of `fs.c`, from the
year down to the second, and the first call of `_gettimeofday_r` in `libc_io.c`, from the
second up to the year. The clock may tick between any two of these reads.

A call is described by the moments of its reads (`BareMetal.Rtc.Moments`), in ticks since its
beginning. What it assembles is **untorn** if a call on a clock standing still at some moment
during the call would have assembled the same. That is so as soon as no field has changed
between its own reading and the reading of the seconds (`BareMetal.Rtc.untorn_of_settled`), for
instance when no minute ends during the reads (`BareMetal.Rtc.settled_of_noCarry`); and with
the one tick a call of a few microseconds can meet it is so *only* then
(`BareMetal.Rtc.settled_of_untorn`).

How long a month is and what the registers show besides the six fields is left to the clock
(`BareMetal.Rtc.Calendar`).
-/

namespace BareMetal

namespace Rtc

/-! ### The clock -/

/-- What the clock counts; the year is that of the century. -/
structure DateTime where
  year : ℕ
  month : ℕ
  day : ℕ
  hour : ℕ
  minute : ℕ
  second : ℕ
  year_lt : year < 64
  month_le : month ≤ 12
  day_le : day ≤ 31
  hour_lt : hour < 24
  minute_lt : minute < 60
  second_lt : second < 60
  deriving DecidableEq

/-- What the clock knows of the calendar: the length of a month, and the bits it shows with the
date and the time, the leap year flag and the day of the week. -/
structure Calendar where
  daysIn : ℕ → ℕ → ℕ
  daysIn_le : ∀ year month, daysIn year month ≤ 31
  leap : DateTime → Bool
  weekday : DateTime → Fin 8

/-- The next year; the register has six bits for it. -/
def DateTime.nextYear (t : DateTime) : DateTime :=
  if h : t.year < 63 then { t with year := t.year + 1, year_lt := by omega }
  else { t with year := 0, year_lt := by omega }

/-- The first of the next month. -/
def DateTime.nextMonth (t : DateTime) : DateTime :=
  if h : t.month < 12 then { t with month := t.month + 1, month_le := h }
  else { t.nextYear with month := 1, month_le := by omega }

/-- The next day. -/
def DateTime.nextDay (cal : Calendar) (t : DateTime) : DateTime :=
  if h : t.day < cal.daysIn t.year t.month then
    { t with day := t.day + 1, day_le := h.trans_le (cal.daysIn_le t.year t.month) }
  else { t.nextMonth with day := 1, day_le := by omega }

/-- The next full hour. -/
def DateTime.nextHour (cal : Calendar) (t : DateTime) : DateTime :=
  if h : t.hour < 23 then { t with hour := t.hour + 1, hour_lt := by omega }
  else { t.nextDay cal with hour := 0, hour_lt := by omega }

/-- The next full minute. -/
def DateTime.nextMinute (cal : Calendar) (t : DateTime) : DateTime :=
  if h : t.minute < 59 then { t with minute := t.minute + 1, minute_lt := by omega }
  else { t.nextHour cal with minute := 0, minute_lt := by omega }

/-- **One tick of the clock.** -/
def tick (cal : Calendar) (t : DateTime) : DateTime :=
  if h : t.second < 59 then { t with second := t.second + 1, second_lt := by omega }
  else { t.nextMinute cal with second := 0, second_lt := by omega }

/-- The clock some ticks later. -/
def after (cal : Calendar) (t : DateTime) (n : ℕ) : DateTime := (tick cal)^[n] t

/-- `RTC_YY_MM_DD_REG`. -/
def yyMmDdReg (cal : Calendar) (t : DateTime) : BitVec 32 :=
  BitVec.ofNat 32 ((cal.leap t).toNat * 2 ^ 22 + t.year * 2 ^ 16 + t.month * 2 ^ 8 + t.day)

/-- `RTC_HH_MM_SS_REG`. -/
def hhMmSsReg (cal : Calendar) (t : DateTime) : BitVec 32 :=
  BitVec.ofNat 32 ((cal.weekday t : ℕ) * 2 ^ 29 + t.hour * 2 ^ 16 + t.minute * 2 ^ 8 + t.second)

/-! ### The code -/

/-- A field of a register: `(reg >> shift) & mask`. -/
def field (reg : BitVec 32) (shift : ℕ) (mask : BitVec 32) : ℕ := ((reg >>> shift) &&& mask).toNat

/-- `rtc_get_year`. -/
def rtcGetYear (yyMmDd : BitVec 32) : ℕ := field yyMmDd 16 0x3f#32 + 2000

/-- `rtc_get_month`. -/
def rtcGetMonth (yyMmDd : BitVec 32) : ℕ := field yyMmDd 8 0x0f#32

/-- `rtc_get_day`. -/
def rtcGetDay (yyMmDd : BitVec 32) : ℕ := field yyMmDd 0 0x1f#32

/-- `rtc_get_hour`. -/
def rtcGetHour (hhMmSs : BitVec 32) : ℕ := field hhMmSs 16 0x1f#32

/-- `rtc_get_minute`. -/
def rtcGetMinute (hhMmSs : BitVec 32) : ℕ := field hhMmSs 8 0x3f#32

/-- `rtc_get_second`. -/
def rtcGetSecond (hhMmSs : BitVec 32) : ℕ := field hhMmSs 0 0x3f#32

/-- When the fields are read, and when the call ends, in ticks since it began. -/
structure Moments where
  year : ℕ
  month : ℕ
  day : ℕ
  hour : ℕ
  minute : ℕ
  second : ℕ
  finish : ℕ
  deriving DecidableEq, Repr

/-- The order in which `get_fattime` names its fields. -/
def FattimeOrder (m : Moments) : Prop :=
  m.year ≤ m.month ∧ m.month ≤ m.day ∧ m.day ≤ m.hour ∧ m.hour ≤ m.minute ∧
    m.minute ≤ m.second ∧ m.second ≤ m.finish

/-- The order of the statements of `_gettimeofday_r`. -/
def TimeofdayOrder (m : Moments) : Prop :=
  m.second ≤ m.minute ∧ m.minute ≤ m.hour ∧ m.hour ≤ m.day ∧ m.day ≤ m.month ∧
    m.month ≤ m.year ∧ m.year ≤ m.finish

/-- `get_fattime`, called at `t`. -/
def getFattime (cal : Calendar) (t : DateTime) (m : Moments) : BitVec 32 :=
  (BitVec.ofNat 32 (rtcGetYear (yyMmDdReg cal (after cal t m.year)) - 1980) <<< 25) |||
    (BitVec.ofNat 32 (rtcGetMonth (yyMmDdReg cal (after cal t m.month))) <<< 21) |||
    (BitVec.ofNat 32 (rtcGetDay (yyMmDdReg cal (after cal t m.day))) <<< 16) |||
    (BitVec.ofNat 32 (rtcGetHour (hhMmSsReg cal (after cal t m.hour))) <<< 11) |||
    (BitVec.ofNat 32 (rtcGetMinute (hhMmSsReg cal (after cal t m.minute))) <<< 5) |||
    (BitVec.ofNat 32 (rtcGetSecond (hhMmSsReg cal (after cal t m.second))) >>> 1)

/-- `struct tm`, as far as `_gettimeofday_r` fills it in. -/
structure Tm where
  tmSec : ℕ
  tmMin : ℕ
  tmHour : ℕ
  tmMday : ℕ
  tmMon : ℕ
  tmYear : ℕ
  deriving DecidableEq, Repr

/-- What the first call of `_gettimeofday_r` assembles and passes to `mktime`. -/
def gettimeofdayTm (cal : Calendar) (t : DateTime) (m : Moments) : Tm where
  tmSec := rtcGetSecond (hhMmSsReg cal (after cal t m.second))
  tmMin := rtcGetMinute (hhMmSsReg cal (after cal t m.minute))
  tmHour := rtcGetHour (hhMmSsReg cal (after cal t m.hour))
  tmMday := rtcGetDay (yyMmDdReg cal (after cal t m.day))
  -- the month of the clock, where `struct tm` counts from January as zero
  tmMon := rtcGetMonth (yyMmDdReg cal (after cal t m.month))
  tmYear := rtcGetYear (yyMmDdReg cal (after cal t m.year)) - 1900

/-! ### The property -/

/-- The moments of a call on a clock that stands still. -/
def Moments.still : Moments := ⟨0, 0, 0, 0, 0, 0, 0⟩

/-- **Untorn**: what the call assembles is what it would assemble with the clock standing still
at some moment between its beginning and its end. -/
def Untorn {ρ : Type*} (assemble : DateTime → Moments → ρ) (cal : Calendar) (t : DateTime)
    (m : Moments) : Prop :=
  ∃ k ≤ m.finish, assemble t m = assemble (after cal t k) .still

/-- No field coarser than the second has changed between its own reading and the reading of the
seconds. -/
structure Settled (cal : Calendar) (t : DateTime) (m : Moments) : Prop where
  year : (after cal t m.year).year = (after cal t m.second).year
  month : (after cal t m.month).month = (after cal t m.second).month
  day : (after cal t m.day).day = (after cal t m.second).day
  hour : (after cal t m.hour).hour = (after cal t m.second).hour
  minute : (after cal t m.minute).minute = (after cal t m.second).minute

/-! ### The registers -/

/-- A field of `w` bits, as a number. -/
theorem field_ofNat {n : ℕ} (hn : n < 2 ^ 32) (shift : ℕ) {w : ℕ} (hw : w < 32) :
    field (BitVec.ofNat 32 n) shift (BitVec.ofNat 32 (2 ^ w - 1)) = n / 2 ^ shift % 2 ^ w := by
  have hlt : 2 ^ w - 1 < 2 ^ 32 :=
    lt_of_le_of_lt (Nat.sub_le _ _) (Nat.pow_lt_pow_right (by omega) hw)
  rw [field, BitVec.toNat_and, BitVec.toNat_ushiftRight, BitVec.toNat_ofNat, BitVec.toNat_ofNat,
    Nat.mod_eq_of_lt hn, Nat.mod_eq_of_lt hlt, Nat.and_two_pow_sub_one_eq_mod,
    Nat.shiftRight_eq_div_pow]

section Fields

variable (cal : Calendar) (t : DateTime)

theorem field_yyMmDdReg (shift : ℕ) {w : ℕ} (hw : w < 32) :
    field (yyMmDdReg cal t) shift (BitVec.ofNat 32 (2 ^ w - 1)) =
      ((cal.leap t).toNat * 2 ^ 22 + t.year * 2 ^ 16 + t.month * 2 ^ 8 + t.day) / 2 ^ shift %
        2 ^ w := by
  refine field_ofNat ?_ shift hw
  have hleap := Bool.toNat_le (cal.leap t)
  have hyear := t.year_lt
  have hmonth := t.month_le
  have hday := t.day_le
  omega

theorem field_hhMmSsReg (shift : ℕ) {w : ℕ} (hw : w < 32) :
    field (hhMmSsReg cal t) shift (BitVec.ofNat 32 (2 ^ w - 1)) =
      ((cal.weekday t : ℕ) * 2 ^ 29 + t.hour * 2 ^ 16 + t.minute * 2 ^ 8 + t.second) /
        2 ^ shift % 2 ^ w := by
  refine field_ofNat ?_ shift hw
  have hweekday := (cal.weekday t).isLt
  have hhour := t.hour_lt
  have hminute := t.minute_lt
  have hsecond := t.second_lt
  omega

@[simp] theorem rtcGetYear_reg : rtcGetYear (yyMmDdReg cal t) = t.year + 2000 := by
  have hyear := t.year_lt
  have hmonth := t.month_le
  have hday := t.day_le
  rw [rtcGetYear, show 0x3f#32 = BitVec.ofNat 32 (2 ^ 6 - 1) from rfl,
    field_yyMmDdReg cal t 16 (by omega)]
  omega

@[simp] theorem rtcGetMonth_reg : rtcGetMonth (yyMmDdReg cal t) = t.month := by
  have hmonth := t.month_le
  have hday := t.day_le
  rw [rtcGetMonth, show 0x0f#32 = BitVec.ofNat 32 (2 ^ 4 - 1) from rfl,
    field_yyMmDdReg cal t 8 (by omega)]
  omega

@[simp] theorem rtcGetDay_reg : rtcGetDay (yyMmDdReg cal t) = t.day := by
  have hday := t.day_le
  rw [rtcGetDay, show 0x1f#32 = BitVec.ofNat 32 (2 ^ 5 - 1) from rfl,
    field_yyMmDdReg cal t 0 (by omega)]
  omega

@[simp] theorem rtcGetHour_reg : rtcGetHour (hhMmSsReg cal t) = t.hour := by
  have hhour := t.hour_lt
  have hminute := t.minute_lt
  have hsecond := t.second_lt
  rw [rtcGetHour, show 0x1f#32 = BitVec.ofNat 32 (2 ^ 5 - 1) from rfl,
    field_hhMmSsReg cal t 16 (by omega)]
  omega

@[simp] theorem rtcGetMinute_reg : rtcGetMinute (hhMmSsReg cal t) = t.minute := by
  have hminute := t.minute_lt
  have hsecond := t.second_lt
  rw [rtcGetMinute, show 0x3f#32 = BitVec.ofNat 32 (2 ^ 6 - 1) from rfl,
    field_hhMmSsReg cal t 8 (by omega)]
  omega

@[simp] theorem rtcGetSecond_reg : rtcGetSecond (hhMmSsReg cal t) = t.second := by
  have hsecond := t.second_lt
  rw [rtcGetSecond, show 0x3f#32 = BitVec.ofNat 32 (2 ^ 6 - 1) from rfl,
    field_hhMmSsReg cal t 0 (by omega)]
  omega

end Fields

/-! ### What is assembled -/

/-- The fields of `get_fattime` as one number: they do not overlap. -/
def fattimeOf (year month day hour minute second : ℕ) : ℕ :=
  (year + 20) * 2 ^ 25 + month * 2 ^ 21 + day * 2 ^ 16 + hour * 2 ^ 11 + minute * 2 ^ 5 +
    second / 2

/-- A field put below the ones that are there. -/
theorem toNat_or_shiftLeft {x : BitVec 32} {n i j : ℕ} (hn : n * 2 ^ i < 2 ^ j)
    (hij : j ≤ 32) (hx : 2 ^ j ∣ x.toNat) :
    (x ||| (BitVec.ofNat 32 n <<< i)).toNat = x.toNat + n * 2 ^ i := by
  have hle : n * 2 ^ i < 2 ^ 32 := hn.trans_le (Nat.pow_le_pow_right (by omega) hij)
  have hn32 : n < 2 ^ 32 := lt_of_le_of_lt (Nat.le_mul_of_pos_right n (Nat.two_pow_pos i)) hle
  obtain ⟨a, ha⟩ := hx
  rw [BitVec.toNat_or, BitVec.toNat_shiftLeft, BitVec.toNat_ofNat, Nat.mod_eq_of_lt hn32,
    Nat.shiftLeft_eq, Nat.mod_eq_of_lt hle, ha, Nat.two_pow_add_eq_or_of_lt hn]

/-- The odd second is shifted out. -/
theorem ofNat_half {n : ℕ} (hn : n < 2 ^ 32) :
    BitVec.ofNat 32 n >>> 1 = BitVec.ofNat 32 (n / 2) <<< 0 := by
  refine BitVec.eq_of_toNat_eq ?_
  rw [BitVec.toNat_ushiftRight, BitVec.toNat_shiftLeft, BitVec.toNat_ofNat, BitVec.toNat_ofNat,
    Nat.shiftRight_eq_div_pow, Nat.shiftLeft_eq]
  omega

theorem getFattime_toNat (cal : Calendar) (t : DateTime) (m : Moments) :
    (getFattime cal t m).toNat = fattimeOf (after cal t m.year).year (after cal t m.month).month
      (after cal t m.day).day (after cal t m.hour).hour (after cal t m.minute).minute
      (after cal t m.second).second := by
  have hyear := (after cal t m.year).year_lt
  have hmonth := (after cal t m.month).month_le
  have hday := (after cal t m.day).day_le
  have hhour := (after cal t m.hour).hour_lt
  have hminute := (after cal t m.minute).minute_lt
  have hsecond := (after cal t m.second).second_lt
  simp only [getFattime, rtcGetYear_reg, rtcGetMonth_reg, rtcGetDay_reg, rtcGetHour_reg,
    rtcGetMinute_reg, rtcGetSecond_reg]
  -- each field lies below the ones before it
  have h₀ : (BitVec.ofNat 32 ((after cal t m.year).year + 2000 - 1980) <<< 25).toNat =
      ((after cal t m.year).year + 20) * 2 ^ 25 := by
    rw [BitVec.toNat_shiftLeft, BitVec.toNat_ofNat, Nat.shiftLeft_eq]
    omega
  have h₁ := toNat_or_shiftLeft (n := (after cal t m.month).month) (i := 21) (j := 25)
    (by omega) (by omega) (by rw [h₀]; exact Nat.dvd_mul_left _ _)
  have h₂ := toNat_or_shiftLeft (n := (after cal t m.day).day) (i := 16) (j := 21)
    (by omega) (by omega) (by rw [h₁, h₀]; omega)
  have h₃ := toNat_or_shiftLeft (n := (after cal t m.hour).hour) (i := 11) (j := 16)
    (by omega) (by omega) (by rw [h₂, h₁, h₀]; omega)
  have h₄ := toNat_or_shiftLeft (n := (after cal t m.minute).minute) (i := 5) (j := 11)
    (by omega) (by omega) (by rw [h₃, h₂, h₁, h₀]; omega)
  have h₅ := toNat_or_shiftLeft (n := (after cal t m.second).second / 2) (i := 0) (j := 5)
    (by omega) (by omega) (by rw [h₄, h₃, h₂, h₁, h₀]; omega)
  rw [ofNat_half (by omega), h₅, h₄, h₃, h₂, h₁, h₀, fattimeOf]
  omega

/-- On a clock that stands still the fields are those of one moment. -/
theorem getFattime_still (cal : Calendar) (t : DateTime) :
    (getFattime cal t .still).toNat =
      fattimeOf t.year t.month t.day t.hour t.minute t.second :=
  getFattime_toNat cal t .still

theorem gettimeofdayTm_eq (cal : Calendar) (t : DateTime) (m : Moments) :
    gettimeofdayTm cal t m =
      ⟨(after cal t m.second).second, (after cal t m.minute).minute, (after cal t m.hour).hour,
        (after cal t m.day).day, (after cal t m.month).month, (after cal t m.year).year + 100⟩ := by
  simp [gettimeofdayTm]

/-! ### Ticks within a minute -/

/-- Two times differ in their seconds only. -/
structure SameMinute (t u : DateTime) : Prop where
  year : t.year = u.year
  month : t.month = u.month
  day : t.day = u.day
  hour : t.hour = u.hour
  minute : t.minute = u.minute

theorem SameMinute.trans {t u v : DateTime} (h : SameMinute t u) (h' : SameMinute u v) :
    SameMinute t v where
  year := h.year.trans h'.year
  month := h.month.trans h'.month
  day := h.day.trans h'.day
  hour := h.hour.trans h'.hour
  minute := h.minute.trans h'.minute

/-- A tick before the minute is full changes the seconds only. -/
theorem sameMinute_tick (cal : Calendar) {t : DateTime} (h : t.second < 59) :
    SameMinute t (tick cal t) := by
  rw [tick, dif_pos h]
  exact ⟨rfl, rfl, rfl, rfl, rfl⟩

/-- A tick that fills the minute starts the next with zero seconds. -/
theorem second_tick (cal : Calendar) {t : DateTime} (h : ¬t.second < 59) :
    (tick cal t).second = 0 := by
  rw [tick, dif_neg h]

theorem after_succ (cal : Calendar) (t : DateTime) (n : ℕ) :
    after cal t (n + 1) = tick cal (after cal t n) :=
  Function.iterate_succ_apply' _ _ _

/-- Ticks during which no minute ends. -/
theorem sameMinute_after {cal : Calendar} {t : DateTime} {a b : ℕ} (hab : a ≤ b)
    (hno : ∀ k, a ≤ k → k < b → (after cal t k).second < 59) :
    SameMinute (after cal t a) (after cal t b) := by
  induction b, hab using Nat.le_induction with
  | base => exact ⟨rfl, rfl, rfl, rfl, rfl⟩
  | succ b hab ih =>
    rw [after_succ]
    refine (ih fun k hk hkb => hno k hk (by omega)).trans (sameMinute_tick cal ?_)
    exact hno b hab (by omega)

/-- The reads of a call lie between two moments. -/
def Moments.Reads (m : Moments) (first last : ℕ) : Prop :=
  ∀ r ∈ [m.year, m.month, m.day, m.hour, m.minute, m.second], first ≤ r ∧ r ≤ last

/-- **No minute ends during the reads**: then no field changes between its reading and that of
the seconds. -/
theorem settled_of_noCarry {cal : Calendar} {t : DateTime} {m : Moments} {first last : ℕ}
    (hreads : m.Reads first last)
    (hno : ∀ k, first ≤ k → k < last → (after cal t k).second < 59) : Settled cal t m := by
  have hsame : ∀ r ∈ [m.year, m.month, m.day, m.hour, m.minute, m.second],
      SameMinute (after cal t first) (after cal t r) := fun r hr =>
    sameMinute_after (hreads r hr).1 fun k hk hkr => hno k hk (hkr.trans_le (hreads r hr).2)
  have hsec := hsame m.second (by simp)
  exact ⟨(hsame m.year (by simp)).year.symm.trans hsec.year,
    (hsame m.month (by simp)).month.symm.trans hsec.month,
    (hsame m.day (by simp)).day.symm.trans hsec.day,
    (hsame m.hour (by simp)).hour.symm.trans hsec.hour,
    (hsame m.minute (by simp)).minute.symm.trans hsec.minute⟩

/-! ### Every call -/

/-- **No torn reads**: a call during which no field changes between its own reading and that of
the seconds assembles a time the clock showed while it ran. -/
theorem untorn_of_settled {cal : Calendar} {t : DateTime} {m : Moments}
    (hset : Settled cal t m) :
    (FattimeOrder m → Untorn (getFattime cal) cal t m) ∧
      (TimeofdayOrder m → Untorn (gettimeofdayTm cal) cal t m) := by
  constructor
  · rintro ⟨-, -, -, -, -, hfin⟩
    refine ⟨m.second, hfin, BitVec.eq_of_toNat_eq ?_⟩
    rw [getFattime_toNat, getFattime_still, hset.year, hset.month, hset.day, hset.hour, hset.minute]
  · rintro ⟨h₁, h₂, h₃, h₄, h₅, h₆⟩
    refine ⟨m.second, by omega, ?_⟩
    rw [gettimeofdayTm_eq, gettimeofdayTm_eq, hset.year, hset.month, hset.day, hset.hour,
      hset.minute]
    rfl

/-- The calendar of the years the clock can count: every fourth is a leap year. -/
def gregorian : Calendar where
  daysIn year month :=
    if month = 2 then (if year % 4 = 0 then 29 else 28)
    else if month = 4 ∨ month = 6 ∨ month = 9 ∨ month = 11 then 30 else 31
  daysIn_le year month := by split_ifs <;> omega
  leap t := t.year % 4 == 0
  weekday _ := 0

/-- One second before eleven o'clock. -/
def beforeEleven : DateTime :=
  ⟨21, 6, 15, 10, 59, 59, by omega, by omega, by omega, by omega, by omega, by omega⟩

/-- One second before that. -/
def twoBeforeEleven : DateTime :=
  ⟨21, 6, 15, 10, 59, 58, by omega, by omega, by omega, by omega, by omega, by omega⟩

/-- A tick between the fourth and the fifth read, and the last one. -/
theorem untorn_of_settled_withinMinute :
    Untorn (getFattime gregorian) gregorian twoBeforeEleven ⟨0, 0, 0, 0, 1, 1, 1⟩ ∧
      Untorn (gettimeofdayTm gregorian) gregorian twoBeforeEleven ⟨1, 1, 1, 1, 0, 0, 1⟩ :=
  ⟨(untorn_of_settled ⟨by decide, by decide, by decide, by decide, by decide⟩).1
      ⟨by decide, by decide, by decide, by decide, by decide, by decide⟩,
    (untorn_of_settled ⟨by decide, by decide, by decide, by decide, by decide⟩).2
      ⟨by decide, by decide, by decide, by decide, by decide, by decide⟩⟩

/-- **A full hour between the reads.** At 10:59:59 `get_fattime` reads the hour, the clock
ticks, and the minutes and seconds are read: it assembles 10:00:00, an hour before the call
began. `_gettimeofday_r` reads the seconds, the clock ticks, and the rest is read: it assembles
11:00:59, a minute after the call ended. -/
theorem not_untorn_fullHour :
    let fat : Moments := ⟨0, 0, 0, 0, 1, 1, 1⟩
    let day : Moments := ⟨1, 1, 1, 1, 1, 0, 1⟩
    FattimeOrder fat ∧ TimeofdayOrder day ∧
      (getFattime gregorian beforeEleven fat).toNat <
        (getFattime gregorian beforeEleven .still).toNat ∧
      gettimeofdayTm gregorian beforeEleven day = ⟨59, 0, 11, 15, 6, 121⟩ ∧
      gettimeofdayTm gregorian (after gregorian beforeEleven 1) .still = ⟨0, 0, 11, 15, 6, 121⟩ ∧
      ¬Untorn (getFattime gregorian) gregorian beforeEleven fat ∧
      ¬Untorn (gettimeofdayTm gregorian) gregorian beforeEleven day := by
  intro fat day
  refine ⟨by unfold FattimeOrder; decide, by unfold TimeofdayOrder; decide, by decide, by decide,
    by decide, ?_, ?_⟩
  · rintro ⟨k, hk, heq⟩
    obtain rfl | rfl : k = 0 ∨ k = 1 := by
      have : k ≤ 1 := hk
      omega
    · exact absurd heq (by decide)
    · exact absurd heq (by decide)
  · rintro ⟨k, hk, heq⟩
    obtain rfl | rfl : k = 0 ∨ k = 1 := by
      have : k ≤ 1 := hk
      omega
    · exact absurd heq (by decide)
    · exact absurd heq (by decide)

/-! ### The condition is needed -/

/-- What a call assembles, read as a time with its seconds halved, is the time of moment
`k`. -/
structure Shows (cal : Calendar) (t : DateTime) (m : Moments) (k : ℕ) : Prop where
  year : (after cal t m.year).year = (after cal t k).year
  month : (after cal t m.month).month = (after cal t k).month
  day : (after cal t m.day).day = (after cal t k).day
  hour : (after cal t m.hour).hour = (after cal t k).hour
  minute : (after cal t m.minute).minute = (after cal t k).minute
  second : (after cal t m.second).second / 2 = (after cal t k).second / 2

theorem shows_of_getFattime {cal : Calendar} {t : DateTime} {m : Moments} {k : ℕ}
    (h : getFattime cal t m = getFattime cal (after cal t k) .still) : Shows cal t m k := by
  have heq := congrArg BitVec.toNat h
  rw [getFattime_toNat, getFattime_still, fattimeOf, fattimeOf] at heq
  have hmonth := (after cal t m.month).month_le
  have hday := (after cal t m.day).day_le
  have hhour := (after cal t m.hour).hour_lt
  have hminute := (after cal t m.minute).minute_lt
  have hsecond := (after cal t m.second).second_lt
  have hmonth' := (after cal t k).month_le
  have hday' := (after cal t k).day_le
  have hhour' := (after cal t k).hour_lt
  have hminute' := (after cal t k).minute_lt
  have hsecond' := (after cal t k).second_lt
  constructor <;> omega

theorem shows_of_gettimeofdayTm {cal : Calendar} {t : DateTime} {m : Moments} {k : ℕ}
    (h : gettimeofdayTm cal t m = gettimeofdayTm cal (after cal t k) .still) :
    Shows cal t m k := by
  rw [gettimeofdayTm_eq, gettimeofdayTm_eq, Tm.mk.injEq] at h
  obtain ⟨hsecond, hminute, hhour, hday, hmonth, hyear⟩ := h
  exact ⟨Nat.add_right_cancel hyear, hmonth, hday, hhour, hminute, congrArg (· / 2) hsecond⟩

/-- With at most one tick during the reads, a time that was shown was read settled: if the tick
ends a minute, the seconds tell its two sides apart. -/
theorem Shows.settled {cal : Calendar} {t : DateTime} {m : Moments} {k : ℕ}
    (h : Shows cal t m k) (hreads : m.Reads 0 1) (hk : k ≤ 1) : Settled cal t m := by
  by_cases hsec : (after cal t 0).second < 59
  · refine settled_of_noCarry hreads fun j _ hj => ?_
    obtain rfl : j = 0 := by omega
    exact hsec
  · have hnew : (after cal t 1).second = 0 := by
      rw [after_succ]
      exact second_tick cal hsec
    have hkm : k = m.second := by
      have hm : m.second ≤ 1 := (hreads m.second (by simp)).2
      have hhalf := h.second
      by_contra hne
      obtain ⟨rfl, hms⟩ | ⟨rfl, hms⟩ : (k = 0 ∧ m.second = 1) ∨ (k = 1 ∧ m.second = 0) := by
        omega
      all_goals
        rw [hms] at hhalf
        omega
    subst hkm
    exact ⟨h.year, h.month, h.day, h.hour, h.minute⟩

/-- **In a call that meets at most one tick the condition is exact.** -/
theorem settled_of_untorn {cal : Calendar} {t : DateTime} {m : Moments} (hreads : m.Reads 0 1)
    (hfin : m.finish ≤ 1)
    (h : Untorn (getFattime cal) cal t m ∨ Untorn (gettimeofdayTm cal) cal t m) :
    Settled cal t m := by
  rcases h with ⟨k, hk, heq⟩ | ⟨k, hk, heq⟩
  · exact (shows_of_getFattime heq).settled hreads (hk.trans hfin)
  · exact (shows_of_gettimeofdayTm heq).settled hreads (hk.trans hfin)

/-! ### Earlier and later -/

/-- Until the year register overflows, a tick does not lower the number that `get_fattime`
makes of a time. -/
theorem fattimeOf_le_tick (cal : Calendar) {t : DateTime} (hyear : t.year ≤ (tick cal t).year) :
    fattimeOf t.year t.month t.day t.hour t.minute t.second ≤
      fattimeOf (tick cal t).year (tick cal t).month (tick cal t).day (tick cal t).hour
        (tick cal t).minute (tick cal t).second := by
  have hmonth := t.month_le
  have hday := t.day_le
  have hhour := t.hour_lt
  have hminute := t.minute_lt
  have hsecond := t.second_lt
  unfold fattimeOf
  unfold tick DateTime.nextMinute DateTime.nextHour DateTime.nextDay DateTime.nextMonth
    DateTime.nextYear at hyear ⊢
  split_ifs at hyear ⊢ <;> simp only at hyear ⊢ <;> omega

/-- **An untorn file time lies between** the time of the clock when the call began and the one
when it ended. -/
theorem Untorn.between {cal : Calendar} {t : DateTime} {m : Moments}
    (h : Untorn (getFattime cal) cal t m)
    (hyear : ∀ k < m.finish, (after cal t k).year ≤ (after cal t (k + 1)).year) :
    (getFattime cal t .still).toNat ≤ (getFattime cal t m).toNat ∧
      (getFattime cal t m).toNat ≤ (getFattime cal (after cal t m.finish) .still).toNat := by
  have hmono : ∀ a b, a ≤ b → b ≤ m.finish →
      (getFattime cal (after cal t a) .still).toNat ≤
        (getFattime cal (after cal t b) .still).toNat := by
    intro a b hab
    induction b, hab using Nat.le_induction with
    | base => exact fun _ => le_rfl
    | succ b hab ih =>
      intro hb
      refine (ih (by omega)).trans ?_
      have hnext := hyear b (by omega)
      rw [getFattime_still, getFattime_still, after_succ]
      rw [after_succ] at hnext
      exact fattimeOf_le_tick cal hnext
  obtain ⟨k, hk, heq⟩ := h
  rw [heq]
  exact ⟨hmono 0 k (Nat.zero_le k) hk, hmono k m.finish hk le_rfl⟩

end Rtc

end BareMetal
