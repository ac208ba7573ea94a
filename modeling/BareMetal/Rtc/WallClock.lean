import BareMetal.Civil
import BareMetal.Rtc.Clock

/-!
# The wall clock

`_gettimeofday_r` reads the real-time clock once. The first call makes a `struct tm` of the six
fields, has `mktime` turn it into seconds, and keeps the offset of that to the microsecond
clock; from then on the time is the microsecond clock plus the offset. An offset of zero means
that it has not been set.

The fields of the clock and of `struct tm` do not agree about the month: the clock counts it
from one and `struct tm` from zero. The month is copied as it is, `mktime` takes it for the
next one – it carries a thirteenth month over to the next year – and the wall clock is **late
by the length of the current month** (`BareMetal.Rtc.mktime_gettimeofdayTm`), whatever the
date. So no first call returns the right time (`BareMetal.Rtc.not_wallClock`). Apart from that
the clock runs as it should (`BareMetal.Rtc.wallMicros_eq`): from the first call on it advances
with the microsecond clock.

The time a date stands for is a count of days of the civil calendar (`BareMetal.Civil`), in
which the months are counted through; `mktime` is that same count, for whatever the month of
the `struct tm` is.
-/

namespace BareMetal

namespace Rtc

/-! ### Dates -/

/-- A date and a time that exist. -/
structure ValidDateTime extends DateTime where
  month_pos : 1 ≤ month
  day_pos : 1 ≤ day
  day_le_daysIn : day ≤ Civil.daysIn (2000 + year) (month - 1)

/-- The Unix time of a date and time, read as UTC. -/
def unixTime (t : DateTime) : ℤ :=
  Civil.seconds ((2000 + t.year) * 12 + (t.month - 1)) t.day t.hour t.minute t.second

/-- `mktime` of newlib, without a time zone. Months that are out of range are carried over to
the year, and the finer fields are counted from there. -/
def mktime (tm : Tm) : ℤ :=
  Civil.seconds ((tm.tmYear + 1900) * 12 + tm.tmMon) tm.tmMday tm.tmHour tm.tmMin tm.tmSec

/-! ### The code -/

/-- A call of `_gettimeofday_r`: what the clock shows, and what `sys_get_usec` returns to it
where it sets the offset and where it takes the time. -/
structure TimeCall where
  date : DateTime
  offUsec : BitVec 64
  usec : BitVec 64

/-- `struct timeval`. -/
structure Timeval where
  tvSec : ℕ
  tvUsec : ℕ
  deriving DecidableEq, Repr

/-- The offset after a call. -/
def timeoffAfter (cal : Calendar) (timeoff : BitVec 64) (c : TimeCall) : BitVec 64 :=
  if timeoff = 0#64 then
    BitVec.ofInt 64 (mktime (gettimeofdayTm cal c.date .still)) * 1000000#64 - c.offUsec
  else
    timeoff

/-- `_gettimeofday_r`: the time, and `timeoff`. -/
def gettimeofdayR (cal : Calendar) (timeoff : BitVec 64) (c : TimeCall) : Timeval × BitVec 64 :=
  let timeoff := timeoffAfter cal timeoff c
  let us := c.usec + timeoff
  (⟨us.toNat / 1000000, us.toNat % 1000000⟩, timeoff)

/-- Some calls, each with the time it returns. -/
def timesFrom (cal : Calendar) (timeoff : BitVec 64) : List TimeCall → List (TimeCall × Timeval)
  | [] => []
  | c :: cs =>
      (c, (gettimeofdayR cal timeoff c).1) :: timesFrom cal (gettimeofdayR cal timeoff c).2 cs

/-! ### The right time -/

/-- A time in microseconds. -/
def Timeval.micros (tv : Timeval) : ℤ := tv.tvSec * 1000000 + tv.tvUsec

/-- The microseconds since the first call set the offset. -/
def elapsed (first c : TimeCall) : ℤ := c.usec.toNat - first.offUsec.toNat

/-- **The wall clock is right**: the first call, made at a date, returns the Unix time of that
date, the later ones that time and what has elapsed since, the microseconds are in range, and
the time does not go back while the microsecond clock does not. -/
structure WallClock (cal : Calendar) (t : ValidDateTime) (off usec : BitVec 64)
    (later : List TimeCall) : Prop where
  right : ∀ p ∈ timesFrom cal 0#64 (⟨t.toDateTime, off, usec⟩ :: later),
    p.2.micros = unixTime t.toDateTime * 1000000 + elapsed ⟨t.toDateTime, off, usec⟩ p.1
  range : ∀ p ∈ timesFrom cal 0#64 (⟨t.toDateTime, off, usec⟩ :: later), p.2.tvUsec < 1000000
  mono : ∀ p ∈ timesFrom cal 0#64 (⟨t.toDateTime, off, usec⟩ :: later),
    ∀ q ∈ timesFrom cal 0#64 (⟨t.toDateTime, off, usec⟩ :: later),
      p.1.usec.toNat ≤ q.1.usec.toNat → p.2.micros ≤ q.2.micros

/-! ### The month -/

/-- The length of the month of a date. -/
def monthLength (t : DateTime) : ℕ := Civil.daysIn (2000 + t.year) (t.month - 1)

/-- **What is passed to `mktime` is the same day of the next month.** -/
theorem mktime_gettimeofdayTm (cal : Calendar) (t : ValidDateTime) :
    mktime (gettimeofdayTm cal t.toDateTime .still) =
      unixTime t.toDateTime + monthLength t.toDateTime * 86400 := by
  have hpos := t.month_pos
  have hle := t.month_le
  have hmonth : (t.year + 100 + 1900) * 12 + t.month =
      (2000 + t.year) * 12 + (t.month - 1) + 1 := by omega
  have hsucc := Civil.seconds_succ ((2000 + t.year) * 12 + (t.month - 1)) t.day t.hour t.minute
    t.second
  rw [show ((2000 + t.year) * 12 + (t.month - 1)) / 12 = 2000 + t.year by omega,
    show ((2000 + t.year) * 12 + (t.month - 1)) % 12 = t.month - 1 by omega] at hsucc
  rw [gettimeofdayTm_eq, mktime]
  simp only [after, Moments.still, Function.iterate_zero, id]
  rw [hmonth, hsucc]
  rfl

/-- The dates of the clock begin with 2000 … -/
theorem unixTime_ge (t : ValidDateTime) : 946684800 ≤ unixTime t.toDateTime := by
  have hstart : Civil.seconds (2000 * 12) 1 0 0 0 = 946684800 := by decide
  rw [← hstart]
  exact Civil.seconds_ge (by omega) t.day_pos _ _ _

/-- … and end before 2064. -/
theorem unixTime_lt (t : ValidDateTime) : unixTime t.toDateTime < 2966371200 := by
  have hend : Civil.seconds (2064 * 12) 1 0 0 0 = 2966371200 := by decide
  have hpos := t.month_pos
  have hle := t.month_le
  have hyear := t.year_lt
  have hday := t.day_le_daysIn
  rw [← hend]
  refine Civil.seconds_lt (by omega) ?_ t.hour_lt t.minute_lt t.second_lt
  rwa [show ((2000 + t.year) * 12 + (t.month - 1)) / 12 = 2000 + t.year by omega,
    show ((2000 + t.year) * 12 + (t.month - 1)) % 12 = t.month - 1 by omega]

/-! ### A call -/

/-- What a call returns, in microseconds. -/
theorem micros_gettimeofdayR (cal : Calendar) (timeoff : BitVec 64) (c : TimeCall) :
    (gettimeofdayR cal timeoff c).1.micros = (c.usec + timeoffAfter cal timeoff c).toNat := by
  simp only [gettimeofdayR, Timeval.micros]
  omega

theorem timeoffAfter_zero (cal : Calendar) (c : TimeCall) :
    timeoffAfter cal 0#64 c =
      BitVec.ofInt 64 (mktime (gettimeofdayTm cal c.date .still)) * 1000000#64 - c.offUsec :=
  if_pos rfl

/-- The arithmetic of the offset is modulo `2 ^ 64`. -/
theorem toNat_add_offset (usec off : BitVec 64) (k : ℤ) :
    ((usec + (BitVec.ofInt 64 k * 1000000#64 - off)).toNat : ℤ) =
      (usec.toNat - off.toNat + k * 1000000) % 2 ^ 64 := by
  have hof : usec + (BitVec.ofInt 64 k * 1000000#64 - off) =
      BitVec.ofInt 64 (usec.toNat - off.toNat + k * 1000000) := by
    rw [BitVec.ofInt_add, BitVec.ofInt_mul, Int.sub_eq_add_neg, BitVec.ofInt_add, BitVec.ofInt_neg,
      BitVec.ofInt_natCast, BitVec.ofInt_natCast, BitVec.ofNat_toNat, BitVec.ofNat_toNat,
      BitVec.setWidth_eq, BitVec.setWidth_eq, BitVec.sub_eq_add_neg, BitVec.add_assoc,
      BitVec.add_comm (-off)]
    rfl
  rw [hof, BitVec.toNat_ofInt]
  omega

/-- **The first call**: late by the length of the month. -/
theorem micros_first (cal : Calendar) (t : ValidDateTime) (off usec : BitVec 64) :
    (gettimeofdayR cal 0#64 ⟨t.toDateTime, off, usec⟩).1.micros =
      (unixTime t.toDateTime * 1000000 + monthLength t.toDateTime * 86400000000 +
        elapsed ⟨t.toDateTime, off, usec⟩ ⟨t.toDateTime, off, usec⟩) % 2 ^ 64 := by
  rw [micros_gettimeofdayR, timeoffAfter_zero, mktime_gettimeofdayTm, toNat_add_offset, elapsed]
  congr 1
  omega

/-- **No first call returns the right time**, whatever the date, the moment and the calls that
follow. -/
theorem not_wallClock (cal : Calendar) (t : ValidDateTime) (off usec : BitVec 64)
    (later : List TimeCall) : ¬WallClock cal t off usec later := by
  intro h
  have hfirst := h.right _ List.mem_cons_self
  have hge := Civil.daysIn_ge (2000 + t.year) (t.month - 1)
  have hle := Civil.daysIn_le (2000 + t.year) (t.month - 1)
  simp only [micros_first, monthLength] at hfirst
  omega

/-- The fifteenth of June 2021, one second before eleven. -/
def juneFifteenth : ValidDateTime := ⟨beforeEleven, by decide, by decide, by decide⟩

/-- The first call on that date, with the microsecond clock at zero, returns a time of July. -/
theorem not_wallClock_june :
    (gettimeofdayR gregorian 0#64 ⟨beforeEleven, 0#64, 0#64⟩).1 = ⟨1626346799, 0⟩ ∧
      unixTime beforeEleven = 1623754799 ∧
      ¬WallClock gregorian juneFifteenth 0#64 0#64 [] := by
  refine ⟨by decide, by decide, fun h => ?_⟩
  have hfirst := h.right _ List.mem_cons_self
  exact absurd hfirst (by decide)

/-! ### The calls that follow -/

/-- The microseconds are in range. -/
theorem tvUsec_lt (cal : Calendar) (timeoff : BitVec 64) (cs : List TimeCall) :
    ∀ p ∈ timesFrom cal timeoff cs, p.2.tvUsec < 1000000 := by
  induction cs generalizing timeoff with
  | nil => simp [timesFrom]
  | cons c cs ih =>
    intro p hp
    rcases List.mem_cons.mp hp with rfl | hp
    · exact Nat.mod_lt _ (by decide)
    · exact ih _ p hp

/-- The calls are the ones that were made. -/
theorem fst_mem_of_mem_timesFrom (cal : Calendar) (timeoff : BitVec 64) (cs : List TimeCall) :
    ∀ p ∈ timesFrom cal timeoff cs, p.1 ∈ cs := by
  induction cs generalizing timeoff with
  | nil => simp [timesFrom]
  | cons c cs ih =>
    intro p hp
    rcases List.mem_cons.mp hp with rfl | hp
    · exact List.mem_cons_self
    · exact List.mem_cons_of_mem _ (ih _ p hp)

/-- An offset that has been set stays. -/
theorem micros_of_ne_zero (cal : Calendar) {timeoff : BitVec 64} (hne : timeoff ≠ 0#64)
    (cs : List TimeCall) :
    ∀ p ∈ timesFrom cal timeoff cs, p.2.micros = (p.1.usec + timeoff).toNat := by
  induction cs with
  | nil => simp [timesFrom]
  | cons c cs ih =>
    have hoff : timeoffAfter cal timeoff c = timeoff := if_neg hne
    intro p hp
    rcases List.mem_cons.mp hp with rfl | hp
    · rw [micros_gettimeofdayR, hoff]
    · rw [show (gettimeofdayR cal timeoff c).2 = timeoff from hoff] at hp
      exact ih p hp

/-- **The clock runs as it should**, but for the month: if the first call comes before the
microsecond clock has reached the time of day, and no call comes before the first, the time is
the Unix time of the date of the first call, the length of that month, and what has elapsed. -/
theorem wallMicros_eq (cal : Calendar) (t : ValidDateTime) {off usec : BitVec 64}
    {later : List TimeCall} (hset : (off.toNat : ℤ) < unixTime t.toDateTime * 1000000)
    (hlater : ∀ c ∈ ⟨t.toDateTime, off, usec⟩ :: later,
      0 ≤ elapsed ⟨t.toDateTime, off, usec⟩ c ∧ elapsed ⟨t.toDateTime, off, usec⟩ c < 2 ^ 63) :
    ∀ p ∈ timesFrom cal 0#64 (⟨t.toDateTime, off, usec⟩ :: later),
      p.2.micros = unixTime t.toDateTime * 1000000 + monthLength t.toDateTime * 86400000000 +
        elapsed ⟨t.toDateTime, off, usec⟩ p.1 := by
  have hge := unixTime_ge t
  have hlt := unixTime_lt t
  have hmonth : monthLength t.toDateTime ≤ 31 := Civil.daysIn_le _ _
  -- the offset is not zero, so the calls that follow keep it
  have hne : timeoffAfter cal 0#64 ⟨t.toDateTime, off, usec⟩ ≠ 0#64 := by
    intro hzero
    have hnat := toNat_add_offset 0#64 off (mktime (gettimeofdayTm cal t.toDateTime .still))
    rw [← timeoffAfter_zero cal ⟨t.toDateTime, off, usec⟩, hzero, mktime_gettimeofdayTm] at hnat
    rw [BitVec.add_zero, Int.emod_eq_of_lt (by simp; omega) (by simp; omega)] at hnat
    simp only [BitVec.toNat_ofNat, Nat.zero_mod] at hnat
    omega
  intro p hp
  rcases List.mem_cons.mp hp with rfl | hp
  · have hself := hlater _ List.mem_cons_self
    rw [micros_first]
    dsimp only
    omega
  · have hself := hlater p.1 (List.mem_cons_of_mem _ (fst_mem_of_mem_timesFrom cal _ _ p hp))
    rw [micros_of_ne_zero cal hne later p hp, timeoffAfter_zero, toNat_add_offset,
      mktime_gettimeofdayTm]
    rw [elapsed] at hself ⊢
    omega

end Rtc

end BareMetal
