import BareMetal.BitField
import BareMetal.Cells
import BareMetal.Rtc.Clock

/-!
# Setting the clock

The date is in one register of the clock and the time in another, together with the day of the
week. The setters of `rtc.c` make up the whole register anew from their arguments and from what
is to be kept of the old one: `rtc_set_date` keeps the leap year bit, `rtc_set_time` the day of
the week, and `rtc_set_weekday` the time. Then they wait until the clock has taken the new value.

As long as the clock stands still the registers are a **store** (`BareMetal.Stores`) of seven
fields (`BareMetal.Rtc.stores_get`): after any calls, and whatever the registers held at first,
each of the getters returns what its field was last set to (`BareMetal.Rtc.fieldsKept`). A setter
returns if and only if one of its reads of the control register shows that nothing is being
written any more, whatever the registers hold (`BareMetal.Rtc.returns_iff`).

`get_fattime` packs six of the fields into a third word, in the layout FAT has for a date and a
time. It does so without a loss other than the odd second, for all contents of the registers
(`BareMetal.Rtc.decodeFat_getFattime`), also for those that are no date.
-/

namespace BareMetal

namespace Rtc

/-! ### The code -/

/-- The registers `RTC_YY_MM_DD_REG` and `RTC_HH_MM_SS_REG`. -/
structure ClockRegs where
  yyMmDd : BitVec 32
  hhMmSs : BitVec 32
  deriving DecidableEq, Repr

/-- `while (RTC_LOSC_CTRL_REG & (1 << bit));` on what the register has held at the reads so far:
whether the loop has ended. -/
def waitForWrite (bit : ℕ) : List (BitVec 32) → Bool
  | [] => false
  | losc :: later => if losc &&& (1#32 <<< bit) ≠ 0#32 then waitForWrite bit later else true

/-- `wait_for_time_write`. -/
def waitForTimeWrite (losc : List (BitVec 32)) : Bool := waitForWrite 8 losc

/-- `wait_for_date_write`. -/
def waitForDateWrite (losc : List (BitVec 32)) : Bool := waitForWrite 7 losc

/-- `rtc_set_date`; `none` as long as it waits. -/
def rtcSetDate (s : ClockRegs) (losc : List (BitVec 32)) (day month year : ℤ) :
    Option ClockRegs :=
  let s := { s with yyMmDd :=
    (s.yyMmDd &&& (1#32 <<< 22)) |||
      ((BitVec.ofInt 32 (year - 2000) &&& 0x3f#32) <<< 16) |||
      ((BitVec.ofInt 32 month &&& 0x0f#32) <<< 8) |||
      ((BitVec.ofInt 32 day &&& 0x1f#32) <<< 0) }
  if waitForDateWrite losc then some s else none

/-- `rtc_set_weekday`. -/
def rtcSetWeekday (s : ClockRegs) (losc : List (BitVec 32)) (wday : ℤ) : Option ClockRegs :=
  let s := { s with hhMmSs :=
    (s.hhMmSs &&& 0x1fffffff#32) ||| ((BitVec.ofInt 32 wday &&& 0x7#32) <<< 29) }
  if waitForTimeWrite losc then some s else none

/-- `rtc_set_time`. -/
def rtcSetTime (s : ClockRegs) (losc : List (BitVec 32)) (hour minute second : ℤ) :
    Option ClockRegs :=
  let s := { s with hhMmSs :=
    (s.hhMmSs &&& (7#32 <<< 29)) |||
      ((BitVec.ofInt 32 hour &&& 0x1f#32) <<< 16) |||
      ((BitVec.ofInt 32 minute &&& 0x3f#32) <<< 8) |||
      ((BitVec.ofInt 32 second &&& 0x3f#32) <<< 0) }
  if waitForTimeWrite losc then some s else none

/-- `rtc_get_weekday`. -/
def rtcGetWeekday (hhMmSs : BitVec 32) : ℕ := (hhMmSs >>> 29).toNat

/-- `get_fattime`, on a clock that stands still. -/
def ClockRegs.getFattime (s : ClockRegs) : BitVec 32 :=
  (BitVec.ofNat 32 (rtcGetYear s.yyMmDd - 1980) <<< 25) |||
    (BitVec.ofNat 32 (rtcGetMonth s.yyMmDd) <<< 21) |||
    (BitVec.ofNat 32 (rtcGetDay s.yyMmDd) <<< 16) |||
    (BitVec.ofNat 32 (rtcGetHour s.hhMmSs) <<< 11) |||
    (BitVec.ofNat 32 (rtcGetMinute s.hhMmSs) <<< 5) |||
    (BitVec.ofNat 32 (rtcGetSecond s.hhMmSs) >>> 1)

/-- It is what is read when no tick comes between the reads. -/
theorem getFattime_eq_still (cal : Calendar) (t : DateTime) :
    ClockRegs.getFattime ⟨yyMmDdReg cal t, hhMmSsReg cal t⟩ = getFattime cal t .still := rfl

/-! ### The fields -/

/-- A date that fits the fields. -/
structure DateArgs where
  day : ℕ
  month : ℕ
  year : ℕ
  day_lt : day < 32
  month_lt : month < 16
  year_ge : 2000 ≤ year
  year_lt : year < 2064

/-- A time that fits the fields. -/
structure TimeArgs where
  hour : ℕ
  minute : ℕ
  second : ℕ
  hour_lt : hour < 32
  minute_lt : minute < 64
  second_lt : second < 64

/-- The calls of the setters. -/
inductive RtcCall where
  | setDate (d : DateArgs)
  | setTime (t : TimeArgs)
  | setWeekday (wday : Fin 8)

/-- A call, with what the control register holds meanwhile. -/
def RtcCall.run (s : ClockRegs) (losc : List (BitVec 32)) : RtcCall → Option ClockRegs
  | .setDate d => rtcSetDate s losc d.day d.month d.year
  | .setTime t => rtcSetTime s losc t.hour t.minute t.second
  | .setWeekday wday => rtcSetWeekday s losc (wday : ℕ)

/-- The bit of the control register that a call waits for. -/
def RtcCall.busyBit : RtcCall → ℕ
  | .setDate _ => 7
  | .setTime _ | .setWeekday _ => 8

/-- One of the reads of the control register shows the bit clear. -/
def RtcCall.Taken (e : RtcCall) (losc : List (BitVec 32)) : Prop :=
  ∃ c ∈ losc, c &&& (1#32 <<< e.busyBit) = 0#32

/-- A call that has returned. -/
def rtcStep (s : ClockRegs) (e : RtcCall) (_ : Unit) (t : ClockRegs) : Prop :=
  ∃ losc, e.run s losc = some t

/-- The fields that can be set. -/
inductive RtcField where
  | year | month | day | weekday | hour | minute | second
  deriving DecidableEq, Repr

/-- What its getter returns. -/
def RtcField.get (s : ClockRegs) : RtcField → ℕ
  | .year => rtcGetYear s.yyMmDd
  | .month => rtcGetMonth s.yyMmDd
  | .day => rtcGetDay s.yyMmDd
  | .weekday => rtcGetWeekday s.hhMmSs
  | .hour => rtcGetHour s.hhMmSs
  | .minute => rtcGetMinute s.hhMmSs
  | .second => rtcGetSecond s.hhMmSs

/-- What a call sets a field to, if it sets it. -/
def RtcCall.sets : RtcCall → RtcField → Option ℕ
  | .setDate d, .year => some d.year
  | .setDate d, .month => some d.month
  | .setDate d, .day => some d.day
  | .setTime t, .hour => some t.hour
  | .setTime t, .minute => some t.minute
  | .setTime t, .second => some t.second
  | .setWeekday wday, .weekday => some wday
  | _, _ => none

/-- The leap year bit, which has neither a setter nor a getter. -/
def ClockRegs.leapYear (s : ClockRegs) : BitVec 1 := fieldAt s.yyMmDd 22 1

/-- A date and a time as FAT has them. -/
structure FatTime where
  year : ℕ
  month : ℕ
  day : ℕ
  hour : ℕ
  minute : ℕ
  secondPair : ℕ
  deriving DecidableEq, Repr

/-- The layout of FAT: years since 1980 from bit 25 on, months from bit 21, days from bit 16, hours
from bit 11, minutes from bit 5, and below them two seconds counted as one. -/
def decodeFat (w : BitVec 32) : FatTime where
  year := 1980 + (fieldAt w 25 7).toNat
  month := (fieldAt w 21 4).toNat
  day := (fieldAt w 16 5).toNat
  hour := (fieldAt w 11 5).toNat
  minute := (fieldAt w 5 6).toNat
  secondPair := (fieldAt w 0 5).toNat

/-- **The fields are kept**: after some calls each getter returns what its field was last set to,
or what it returned at first; the leap year bit is as it was; a further call returns, once the
clock has taken what it writes, and changes only the fields that it sets; and `get_fattime` has
in it what the getters return. -/
structure FieldsKept (s₀ : ClockRegs) (h : List (RtcCall × Unit)) (s : ClockRegs) : Prop where
  last : ∀ f, RtcField.get s f = lastSet (fun e => e.sets f) (RtcField.get s₀ f) h
  leap : s.leapYear = s₀.leapYear
  returns : ∀ (e : RtcCall) (losc : List (BitVec 32)), (∃ t, e.run s losc = some t) ↔ e.Taken losc
  frame : ∀ e t, rtcStep s e () t → ∀ f, e.sets f = none → RtcField.get t f = RtcField.get s f
  fattime : decodeFat s.getFattime =
    ⟨RtcField.get s .year, RtcField.get s .month, RtcField.get s .day, RtcField.get s .hour,
      RtcField.get s .minute, RtcField.get s .second / 2⟩

/-! ### The getters -/

/-- A field of `k` bits, as the getters read it. -/
theorem field_eq_fieldAt (r : BitVec 32) (shift : ℕ) {k : ℕ} (hk : k < 32) :
    field r shift (BitVec.ofNat 32 (2 ^ k - 1)) = (fieldAt r shift k).toNat := by
  have hfield := field_ofNat r.isLt shift hk
  rw [BitVec.ofNat_toNat, BitVec.setWidth_eq] at hfield
  rw [hfield, toNat_fieldAt]

section Getters

variable (r : BitVec 32)

theorem rtcGetYear_eq : rtcGetYear r = (fieldAt r 16 6).toNat + 2000 :=
  congrArg (· + 2000) (field_eq_fieldAt r 16 (by omega : 6 < 32))

theorem rtcGetMonth_eq : rtcGetMonth r = (fieldAt r 8 4).toNat :=
  field_eq_fieldAt r 8 (by omega : 4 < 32)

theorem rtcGetDay_eq : rtcGetDay r = (fieldAt r 0 5).toNat :=
  field_eq_fieldAt r 0 (by omega : 5 < 32)

theorem rtcGetWeekday_eq : rtcGetWeekday r = (fieldAt r 29 3).toNat := by
  have hr := r.isLt
  rw [rtcGetWeekday, toNat_fieldAt, BitVec.toNat_ushiftRight, Nat.shiftRight_eq_div_pow]
  omega

theorem rtcGetHour_eq : rtcGetHour r = (fieldAt r 16 5).toNat :=
  field_eq_fieldAt r 16 (by omega : 5 < 32)

theorem rtcGetMinute_eq : rtcGetMinute r = (fieldAt r 8 6).toNat :=
  field_eq_fieldAt r 8 (by omega : 6 < 32)

theorem rtcGetSecond_eq : rtcGetSecond r = (fieldAt r 0 6).toNat :=
  field_eq_fieldAt r 0 (by omega : 6 < 32)

end Getters

/-! ### The setters -/

/-- **A setter returns** if at one of its reads of the control register nothing is being
written. -/
theorem waitForWrite_iff (bit : ℕ) (losc : List (BitVec 32)) :
    waitForWrite bit losc = true ↔ ∃ c ∈ losc, c &&& (1#32 <<< bit) = 0#32 := by
  induction losc with
  | nil => simp [waitForWrite]
  | cons c later ih =>
    simp only [waitForWrite, List.mem_cons, exists_eq_or_imp, ← ih]
    split
    · rename_i hbusy
      simp [hbusy]
    · rename_i hdone
      simp [not_not.mp hdone]

/-- What is left of an argument. -/
theorem fieldAt_ofInt {i : ℤ} {m : ℕ} (hi : i = m) {k : ℕ} (hk : k ≤ 32) :
    fieldAt (BitVec.ofInt 32 i) 0 k = BitVec.ofNat k m := by
  refine BitVec.eq_of_toNat_eq ?_
  rw [toNat_fieldAt, hi, BitVec.ofInt_natCast, BitVec.toNat_ofNat, BitVec.toNat_ofNat, Nat.pow_zero,
    Nat.div_one, Nat.mod_mod_of_dvd _ (Nat.pow_dvd_pow 2 hk)]

section Words

variable (r a b c : BitVec 32)

/-- The new date register, field by field. -/
theorem dateWord_eq :
    (r &&& (1#32 <<< 22)) ||| ((a &&& 0x3f#32) <<< 16) ||| ((b &&& 0x0f#32) <<< 8) |||
        ((c &&& 0x1f#32) <<< 0) =
      placed 32 22 (fieldAt r 22 1) ||| placed 32 16 (fieldAt a 0 6) |||
        placed 32 8 (fieldAt b 0 4) ||| placed 32 0 (fieldAt c 0 5) := by
  rw [← and_mask, ← and_mask_shiftLeft, ← and_mask_shiftLeft, ← and_mask_shiftLeft]
  rfl

/-- The new time register, field by field. -/
theorem timeWord_eq :
    (r &&& (7#32 <<< 29)) ||| ((a &&& 0x1f#32) <<< 16) ||| ((b &&& 0x3f#32) <<< 8) |||
        ((c &&& 0x3f#32) <<< 0) =
      placed 32 29 (fieldAt r 29 3) ||| placed 32 16 (fieldAt a 0 5) |||
        placed 32 8 (fieldAt b 0 6) ||| placed 32 0 (fieldAt c 0 6) := by
  rw [← and_mask, ← and_mask_shiftLeft, ← and_mask_shiftLeft, ← and_mask_shiftLeft]
  rfl

/-- `rtc_set_weekday` replaces a field where it is. -/
theorem weekdayWord_eq :
    (r &&& 0x1fffffff#32) ||| ((a &&& 0x7#32) <<< 29) =
      putField r 29 3 ((fieldAt a 0 3).setWidth 32) := by
  have hshift := and_mask_shiftLeft a 29 3
  rw [placed] at hshift
  rw [putField, ← hshift]
  rfl

end Words

/-- The registers after a call. -/
def RtcCall.written (s : ClockRegs) : RtcCall → ClockRegs
  | .setDate d =>
      { s with
        yyMmDd := placed 32 22 s.leapYear ||| placed 32 16 (BitVec.ofNat 6 (d.year - 2000)) |||
          placed 32 8 (BitVec.ofNat 4 d.month) ||| placed 32 0 (BitVec.ofNat 5 d.day) }
  | .setTime t =>
      { s with
        hhMmSs := placed 32 29 (fieldAt s.hhMmSs 29 3) ||| placed 32 16 (BitVec.ofNat 5 t.hour) |||
          placed 32 8 (BitVec.ofNat 6 t.minute) ||| placed 32 0 (BitVec.ofNat 6 t.second) }
  | .setWeekday wday =>
      { s with hhMmSs := putField s.hhMmSs 29 3 ((BitVec.ofNat 3 wday).setWidth 32) }

/-- **What a call does.** -/
theorem RtcCall.run_eq (s : ClockRegs) (losc : List (BitVec 32)) (e : RtcCall) :
    e.run s losc = if waitForWrite e.busyBit losc then some (e.written s) else none := by
  cases e with
  | setDate d =>
    have hyear : (d.year : ℤ) - 2000 = (d.year - 2000 : ℕ) := by
      have := d.year_ge
      omega
    simp only [RtcCall.run, rtcSetDate, dateWord_eq]
    rw [fieldAt_ofInt hyear (by omega), fieldAt_ofInt rfl (by omega), fieldAt_ofInt rfl (by omega)]
    rfl
  | setTime t =>
    simp only [RtcCall.run, rtcSetTime, timeWord_eq]
    rw [fieldAt_ofInt rfl (by omega), fieldAt_ofInt rfl (by omega), fieldAt_ofInt rfl (by omega)]
    rfl
  | setWeekday wday =>
    simp only [RtcCall.run, rtcSetWeekday, weekdayWord_eq]
    rw [fieldAt_ofInt rfl (by omega)]
    rfl

/-- **When a call returns**: the registers do not matter. -/
theorem returns_iff (s : ClockRegs) (losc : List (BitVec 32)) (e : RtcCall) :
    (∃ t, e.run s losc = some t) ↔ e.Taken losc := by
  rw [RtcCall.Taken, ← waitForWrite_iff, RtcCall.run_eq]
  cases waitForWrite e.busyBit losc with
  | true => exact iff_of_true ⟨_, rfl⟩ rfl
  | false => exact iff_of_false (fun ⟨_, hrun⟩ => by simp at hrun) (by simp)

/-- Once a call has returned, it has written its arguments. -/
theorem rtcStep.eq_written {s t : ClockRegs} {e : RtcCall} {o : Unit} (h : rtcStep s e o t) :
    t = e.written s := by
  obtain ⟨losc, hrun⟩ := h
  rw [RtcCall.run_eq, Option.ite_none_right_eq_some] at hrun
  exact (Option.some.inj hrun.2).symm

/-! ### One call -/

theorem get_written_setDate (s : ClockRegs) (d : DateArgs) (f : RtcField) :
    RtcField.get ((RtcCall.setDate d).written s) f =
      ((RtcCall.setDate d).sets f).getD (RtcField.get s f) := by
  have hday := d.day_lt
  have hmonth := d.month_lt
  have hge := d.year_ge
  have hlt := d.year_lt
  cases f with
  | year | month | day =>
    simp (disch := omega) only [RtcField.get, RtcCall.written, RtcCall.sets, Option.getD_some,
      rtcGetYear_eq, rtcGetMonth_eq, rtcGetDay_eq, fieldAt_or, fieldAt_placed,
      fieldAt_placed_apart, BitVec.zero_or, BitVec.or_zero, BitVec.toNat_ofNat]
    omega
  | weekday | hour | minute | second => rfl

theorem get_written_setTime (s : ClockRegs) (t : TimeArgs) (f : RtcField) :
    RtcField.get ((RtcCall.setTime t).written s) f =
      ((RtcCall.setTime t).sets f).getD (RtcField.get s f) := by
  have hhour := t.hour_lt
  have hminute := t.minute_lt
  have hsecond := t.second_lt
  cases f with
  | year | month | day => rfl
  | weekday =>
    simp (disch := omega) only [RtcField.get, RtcCall.written, RtcCall.sets, Option.getD_none,
      rtcGetWeekday_eq, fieldAt_or, fieldAt_placed, fieldAt_placed_apart, BitVec.or_zero]
  | hour | minute | second =>
    simp (disch := omega) only [RtcField.get, RtcCall.written, RtcCall.sets, Option.getD_some,
      rtcGetHour_eq, rtcGetMinute_eq, rtcGetSecond_eq, fieldAt_or, fieldAt_placed,
      fieldAt_placed_apart, BitVec.zero_or, BitVec.or_zero, BitVec.toNat_ofNat]
    omega

theorem get_written_setWeekday (s : ClockRegs) (wday : Fin 8) (f : RtcField) :
    RtcField.get ((RtcCall.setWeekday wday).written s) f =
      ((RtcCall.setWeekday wday).sets f).getD (RtcField.get s f) := by
  have hwday := wday.isLt
  cases f with
  | year | month | day => rfl
  | weekday =>
    simp (disch := omega) only [RtcField.get, RtcCall.written, RtcCall.sets, Option.getD_some,
      rtcGetWeekday_eq, fieldAt_putField, BitVec.toNat_ofNat]
    omega
  | hour | minute | second =>
    simp (disch := omega) only [RtcField.get, RtcCall.written, RtcCall.sets, Option.getD_none,
      rtcGetHour_eq, rtcGetMinute_eq, rtcGetSecond_eq, fieldAt_putField_apart]

/-- No call changes the leap year bit. -/
theorem leapYear_written (s : ClockRegs) (e : RtcCall) : (e.written s).leapYear = s.leapYear := by
  cases e with
  | setDate d =>
    simp (disch := omega) only [ClockRegs.leapYear, RtcCall.written, fieldAt_or, fieldAt_placed,
      fieldAt_placed_apart, BitVec.or_zero]
  | setTime t => rfl
  | setWeekday wday => rfl

/-! ### The time of a file -/

/-- A number in its place in the word of `get_fattime`. -/
theorem ofNat_shiftLeft_eq_placed {m k : ℕ} (hm : m < 2 ^ k) (s : ℕ) :
    BitVec.ofNat 32 m <<< s = placed 32 s (BitVec.ofNat k m) := by
  have hofNat : BitVec.ofNat 32 m = (BitVec.ofNat k m).setWidth 32 := by
    refine BitVec.eq_of_toNat_eq ?_
    rw [BitVec.toNat_setWidth, BitVec.toNat_ofNat, BitVec.toNat_ofNat, Nat.mod_eq_of_lt hm]
  rw [placed, hofNat]

/-- **The word of `get_fattime` is decoded to the fields**, whatever the registers hold. -/
theorem decodeFat_getFattime (s : ClockRegs) :
    decodeFat s.getFattime =
      ⟨rtcGetYear s.yyMmDd, rtcGetMonth s.yyMmDd, rtcGetDay s.yyMmDd, rtcGetHour s.hhMmSs,
        rtcGetMinute s.hhMmSs, rtcGetSecond s.hhMmSs / 2⟩ := by
  have hyear := (fieldAt s.yyMmDd 16 6).isLt
  have hmonth := (fieldAt s.yyMmDd 8 4).isLt
  have hday := (fieldAt s.yyMmDd 0 5).isLt
  have hhour := (fieldAt s.hhMmSs 16 5).isLt
  have hminute := (fieldAt s.hhMmSs 8 6).isLt
  have hsecond := (fieldAt s.hhMmSs 0 6).isLt
  rw [← rtcGetMonth_eq] at hmonth
  rw [← rtcGetDay_eq] at hday
  rw [← rtcGetHour_eq] at hhour
  rw [← rtcGetMinute_eq] at hminute
  rw [← rtcGetSecond_eq] at hsecond
  have hcentury := rtcGetYear_eq s.yyMmDd
  rw [ClockRegs.getFattime, ofNat_half (by omega), ofNat_shiftLeft_eq_placed (k := 7) (by omega),
    ofNat_shiftLeft_eq_placed hmonth, ofNat_shiftLeft_eq_placed hday,
    ofNat_shiftLeft_eq_placed hhour, ofNat_shiftLeft_eq_placed hminute,
    ofNat_shiftLeft_eq_placed (k := 5) (by omega)]
  simp (disch := omega) only [decodeFat, fieldAt_or, fieldAt_placed, fieldAt_placed_apart,
    BitVec.zero_or, BitVec.or_zero, BitVec.toNat_ofNat, FatTime.mk.injEq]
  omega

/-! ### Every run -/

/-- **The registers of the clock are a store of its fields.** -/
theorem stores_get : Stores rtcStep Always RtcField.get RtcCall.sets := by
  intro s e o t _ hstep
  funext f
  rw [rtcStep.eq_written hstep, assign]
  cases e with
  | setDate d => exact get_written_setDate s d f
  | setTime t => exact get_written_setTime s t f
  | setWeekday wday => exact get_written_setWeekday s wday f

/-- **The fields are kept**, whatever the registers held at first and in whatever order they are
set. -/
theorem fieldsKept {s₀ s : ClockRegs} {h : List (RtcCall × Unit)}
    (hr : Reach rtcStep Always s₀ h s) : FieldsKept s₀ h s where
  last := stores_get.view_eq_lastSet hr
  leap := by
    refine hr.invariant (fun _ s => s.leapYear = s₀.leapYear) rfl ?_
    intro h s e o t ih _ hstep
    rw [rtcStep.eq_written hstep, leapYear_written, ih]
  returns e losc := returns_iff s losc e
  frame e t hstep f hf := stores_get.frame trivial hstep hf
  fattime := decodeFat_getFattime s

/-- The calls in turn, each with what it reads of the control register; `none` as long as one of
them waits. -/
def runCalls (s : ClockRegs) : List (RtcCall × List (BitVec 32)) → Option ClockRegs
  | [] => some s
  | (e, losc) :: later => (e.run s losc).bind fun t => runCalls t later

/-- Three calls on registers that are all ones at first, each of which has to wait: the fifteenth of
June 2021, a Tuesday, one second before eleven. -/
theorem fieldsKept_allOnes :
    let s₀ : ClockRegs := ⟨BitVec.allOnes 32, BitVec.allOnes 32⟩
    let date : RtcCall := .setDate ⟨15, 6, 2021, by decide, by decide, by decide, by decide⟩
    let time : RtcCall := .setTime ⟨10, 59, 59, by decide, by decide, by decide⟩
    let s : ClockRegs := ⟨0x0055060f#32, 0x400a3b3b#32⟩
    runCalls s₀ [(date, [0x80#32, 0x180#32, 0x100#32]), (.setWeekday 2, [0x100#32, 0x80#32]),
        (time, [0x100#32, 0#32])] = some s ∧
      runCalls s₀ [(date, [0x80#32, 0x180#32])] = none ∧
      decodeFat s.getFattime = ⟨2021, 6, 15, 10, 59, 29⟩ ∧
      FieldsKept s₀ [(time, ()), (.setWeekday 2, ()), (date, ())] s := by
  intro s₀ date time s
  refine ⟨by decide, by decide, by decide, fieldsKept ?_⟩
  have hdate : Reach rtcStep Always s₀ [(date, ())] ⟨0x0055060f#32, BitVec.allOnes 32⟩ :=
    Reach.start.next trivial ⟨[0x80#32, 0x180#32, 0x100#32], by decide⟩
  have hweekday : Reach rtcStep Always s₀ [(.setWeekday 2, ()), (date, ())]
      ⟨0x0055060f#32, 0x5fffffff#32⟩ :=
    hdate.next trivial ⟨[0x100#32, 0x80#32], by decide⟩
  exact hweekday.next trivial ⟨[0x100#32, 0#32], by decide⟩

end Rtc

end BareMetal
