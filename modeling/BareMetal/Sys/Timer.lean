import Mathlib.Data.Nat.Bitwise
import Mathlib.Data.Nat.Find

/-!
# The microsecond clock

The counter of the processor runs at 24 MHz, but nothing in the code says so: `sys_init_timer`
measures it against the display. It waits for a frame, reads the counter, waits for the next
frame, reads the counter again, and takes the difference for a sixtieth of a second. The number
of ticks in a microsecond is that frequency divided by a million – **rounded down**.

A display of exactly 60 Hz gives 24, and so does a slower one, as long as it is not so slow as
to give 25. A display that is faster by however little gives a frequency below 24 MHz, and the
division makes 23 of it: the clock then runs more than four percent fast. The timing that
`display_init` falls back to has 60.3 Hz. So the clock keeps time exactly when the frame that
was measured is not shorter than a sixtieth of a second, in whole ticks
(`BareMetal.Sys.timeKept_iff`).

Time is counted in ticks of the counter. The frames of a timing come at even distances which
need not be whole ticks, so the distance in ticks between two frames depends on where in a
tick the first of them falls; this is the `phase`.
-/

namespace BareMetal

namespace Sys

/-! ### The display -/

/-- `struct display_phys_mode_t`, as far as it says how long a frame takes; also the timing
that is programmed from it. -/
structure Timing where
  pixclk : ℕ
  hactive : ℕ
  hfrontPorch : ℕ
  hsyncWidth : ℕ
  hbackPorch : ℕ
  vactive : ℕ
  vfrontPorch : ℕ
  vsyncWidth : ℕ
  vbackPorch : ℕ
  deriving DecidableEq, Repr

/-- The timing `display_init` programs: the one it is given, or 800×600. -/
def displayInit : Option Timing → Timing
  | some mode => mode
  | none =>
      { pixclk := 40000000
        hactive := 800
        hbackPorch := 88
        hfrontPorch := 40
        hsyncWidth := 128
        vactive := 600
        vbackPorch := 23
        vfrontPorch := 1
        vsyncWidth := 4 }

def Timing.htotal (m : Timing) : ℕ := m.hactive + m.hfrontPorch + m.hsyncWidth + m.hbackPorch

def Timing.vtotal (m : Timing) : ℕ := m.vactive + m.vfrontPorch + m.vsyncWidth + m.vbackPorch

/-- The pixels of a frame, the invisible ones included. -/
def Timing.pixels (m : Timing) : ℕ := m.htotal * m.vtotal

/-- What `display_init` is called with, for a frame rate between 59.9 and 60.4 Hz. -/
structure Mode60 where
  mode : Option Timing
  pixclk_pos : 0 < (displayInit mode).pixclk
  rate_ge : 599 * (displayInit mode).pixels ≤ 10 * (displayInit mode).pixclk
  rate_le : 10 * (displayInit mode).pixclk ≤ 604 * (displayInit mode).pixels

def Mode60.timing (m : Mode60) : Timing := displayInit m.mode

/-- The frequency of the counter. -/
def counterHz : ℕ := 24000000

/-- How long a frame takes, in ticks times the pixel clock. -/
def Mode60.frame (m : Mode60) : ℕ := counterHz * m.timing.pixels

/-- The tick in which frame `n` begins. -/
def frameTick (m : Mode60) (phase n : ℕ) : ℕ := (phase + n * m.frame) / m.timing.pixclk

theorem Mode60.timing_pixclk_pos (m : Mode60) : 0 < m.timing.pixclk := m.pixclk_pos

/-- A frame takes at least 397350 ticks … -/
theorem Mode60.frame_ge (m : Mode60) : 397350 * m.timing.pixclk ≤ m.frame := by
  have h : 10 * m.timing.pixclk ≤ 604 * m.timing.pixels := m.rate_le
  rw [Mode60.frame, counterHz]
  omega

/-- … and at most 400668. -/
theorem Mode60.frame_le (m : Mode60) : m.frame ≤ 400668 * m.timing.pixclk := by
  have h : 599 * m.timing.pixels ≤ 10 * m.timing.pixclk := m.rate_ge
  rw [Mode60.frame, counterHz]
  omega

/-- The ticks between two frames. -/
theorem frameTick_succ (m : Mode60) (phase n : ℕ) :
    frameTick m phase (n + 1) = frameTick m phase n +
      ((phase + n * m.frame) % m.timing.pixclk + m.frame) / m.timing.pixclk := by
  have hsplit := Nat.div_add_mod (phase + n * m.frame) m.timing.pixclk
  rw [frameTick, frameTick, Nat.succ_mul, ← Nat.add_assoc]
  conv_lhs => rw [← hsplit, Nat.add_assoc, Nat.mul_add_div m.timing_pixclk_pos]

theorem frameTick_lt_succ (m : Mode60) (phase n : ℕ) :
    frameTick m phase n < frameTick m phase (n + 1) := by
  rw [frameTick_succ]
  refine Nat.lt_add_of_pos_right (Nat.div_pos ?_ m.timing_pixclk_pos)
  have hframe := m.frame_ge
  omega

theorem frameTick_mono (m : Mode60) (phase : ℕ) {n n' : ℕ} (h : n ≤ n') :
    frameTick m phase n ≤ frameTick m phase n' := by
  induction h with
  | refl => exact Nat.le_refl _
  | step _ ih => exact ih.trans (frameTick_lt_succ m phase _).le

theorem le_frameTick (m : Mode60) (phase n : ℕ) : n ≤ frameTick m phase n := by
  induction n with
  | zero => exact Nat.zero_le _
  | succ n ih => exact Nat.succ_le_of_lt (ih.trans_lt (frameTick_lt_succ m phase n))

/-- There is always another frame. -/
theorem exists_frameTick_gt (m : Mode60) (phase c : ℕ) : ∃ n, c < frameTick m phase n :=
  ⟨c + 1, le_frameTick m phase (c + 1)⟩

/-- The number of frames that have begun at a tick, which is the next one's number. -/
def framesBegun (m : Mode60) (phase c : ℕ) : ℕ := Nat.find (exists_frameTick_gt m phase c)

/-- `tick_counter`, which the interrupt of each frame increments. -/
def tickCounter (m : Mode60) (phase c : ℕ) : BitVec 32 := BitVec.ofNat 32 (framesBegun m phase c)

/-! ### The frames that have begun -/

theorem framesBegun_eq_iff {m : Mode60} {phase c n : ℕ} :
    framesBegun m phase c = n ↔
      c < frameTick m phase n ∧ ∀ k < n, frameTick m phase k ≤ c := by
  rw [framesBegun, Nat.find_eq_iff]
  simp only [not_lt]

/-- The next frame is ahead. -/
theorem lt_frameTick_framesBegun (m : Mode60) (phase c : ℕ) :
    c < frameTick m phase (framesBegun m phase c) :=
  (framesBegun_eq_iff.mp rfl).1

/-- Until the next frame nothing changes. -/
theorem framesBegun_of_lt {m : Mode60} {phase c c' : ℕ} (hc : c ≤ c')
    (hlt : c' < frameTick m phase (framesBegun m phase c)) :
    framesBegun m phase c' = framesBegun m phase c := by
  refine framesBegun_eq_iff.mpr ⟨hlt, fun k hk => ?_⟩
  exact ((framesBegun_eq_iff.mp rfl).2 k hk).trans hc

/-- In the tick in which a frame begins, it has begun. -/
theorem framesBegun_frameTick (m : Mode60) (phase n : ℕ) :
    framesBegun m phase (frameTick m phase n) = n + 1 := by
  refine framesBegun_eq_iff.mpr ⟨frameTick_lt_succ m phase n, fun k hk => ?_⟩
  exact frameTick_mono m phase (Nat.le_of_lt_succ hk)

theorem tickCounter_ne (m : Mode60) (phase c : ℕ) :
    tickCounter m phase (frameTick m phase (framesBegun m phase c)) ≠ tickCounter m phase c := by
  rw [tickCounter, tickCounter, framesBegun_frameTick]
  intro h
  have hnat := congrArg BitVec.toNat h
  rw [BitVec.toNat_ofNat, BitVec.toNat_ofNat] at hnat
  omega

theorem exists_tickCounter_ne (m : Mode60) (phase c : ℕ) :
    ∃ c', c ≤ c' ∧ tickCounter m phase c' ≠ tickCounter m phase c :=
  ⟨_, (lt_frameTick_framesBegun m phase c).le, tickCounter_ne m phase c⟩

/-! ### The code -/

/-- `t = tick_counter; while (t == tick_counter) {}`, entered at a tick: the tick at which it
is left. -/
def waitFrame (m : Mode60) (phase c : ℕ) : ℕ := Nat.find (exists_tickCounter_ne m phase c)

/-- `sys_init_timer`, called at a tick: `sys_freq` and `sys_per_usec`. -/
def sysInitTimer (m : Mode60) (phase start : ℕ) : ℕ × ℕ :=
  let t1 := waitFrame m phase start
  let t2 := waitFrame m phase t1
  let sysFreq := (t2 - t1) * 60 % 2 ^ 32
  (sysFreq, sysFreq / 1000000)

/-- `sys_get_usec`, at a tick. -/
def sysGetUsec (sysPerUsec tick : ℕ) : ℕ := tick / sysPerUsec

/-- `sys_get_msec`. -/
def sysGetMsec (sysPerUsec tick : ℕ) : ℕ := tick / sysPerUsec / 1000

/-! ### Keeping time -/

/-- A clock whose unit is some number of ticks differs from the time elapsed by at most one
percent and one unit. -/
def Within (unit clock tick : ℕ) : Prop :=
  100 * (clock * unit) ≤ 101 * tick + 100 * unit ∧ 99 * tick ≤ 100 * (clock * unit) + 100 * unit

/-- **The clock keeps time.** -/
structure TimeKept (sysPerUsec : ℕ) : Prop where
  ne_zero : sysPerUsec ≠ 0
  usec : ∀ tick < 2 ^ 64, Within 24 (sysGetUsec sysPerUsec tick) tick
  msec : ∀ tick < 2 ^ 64, Within 24000 (sysGetMsec sysPerUsec tick) tick

/-- The frame `sys_init_timer` measures lasts at least a sixtieth of a second, counted in whole
ticks from the tick in which it begins. -/
def LongFrame (m : Mode60) (phase start : ℕ) : Prop :=
  400000 * m.timing.pixclk ≤
    (phase + framesBegun m phase start * m.frame) % m.timing.pixclk + m.frame

/-! ### What is measured -/

/-- **A wait ends when the next frame begins.** -/
theorem waitFrame_eq (m : Mode60) (phase c : ℕ) :
    waitFrame m phase c = frameTick m phase (framesBegun m phase c) := by
  rw [waitFrame, Nat.find_eq_iff]
  refine ⟨⟨(lt_frameTick_framesBegun m phase c).le, tickCounter_ne m phase c⟩, ?_⟩
  rintro c' hlt ⟨hc, hne⟩
  refine hne ?_
  rw [tickCounter, tickCounter, framesBegun_of_lt hc hlt]

/-- The ticks of the frame that is measured. -/
def measured (m : Mode60) (phase start : ℕ) : ℕ :=
  ((phase + framesBegun m phase start * m.frame) % m.timing.pixclk + m.frame) / m.timing.pixclk

theorem measured_ge (m : Mode60) (phase start : ℕ) : 397350 ≤ measured m phase start := by
  rw [measured, Nat.le_div_iff_mul_le m.timing_pixclk_pos]
  exact m.frame_ge.trans (Nat.le_add_left _ _)

theorem measured_le (m : Mode60) (phase start : ℕ) : measured m phase start ≤ 400668 := by
  have hmod := Nat.mod_lt (phase + framesBegun m phase start * m.frame) m.timing_pixclk_pos
  have hframe := m.frame_le
  rw [measured, ← Nat.lt_succ_iff, Nat.div_lt_iff_lt_mul m.timing_pixclk_pos]
  omega

theorem longFrame_iff (m : Mode60) (phase start : ℕ) :
    LongFrame m phase start ↔ 400000 ≤ measured m phase start :=
  (Nat.le_div_iff_mul_le m.timing_pixclk_pos).symm

/-- **What `sys_init_timer` computes.** -/
theorem sysInitTimer_eq (m : Mode60) (phase start : ℕ) :
    sysInitTimer m phase start =
      (measured m phase start * 60, measured m phase start * 60 / 1000000) := by
  have hdiff : waitFrame m phase (waitFrame m phase start) - waitFrame m phase start =
      measured m phase start := by
    rw [waitFrame_eq m phase start, waitFrame_eq, framesBegun_frameTick, frameTick_succ,
      Nat.add_sub_cancel_left]
    rfl
  have hle := measured_le m phase start
  rw [sysInitTimer, hdiff, Nat.mod_eq_of_lt (by omega)]

/-- A frame that is long enough gives 24 ticks to the microsecond, a shorter one 23. -/
theorem sysPerUsec_eq (m : Mode60) (phase start : ℕ) :
    (sysInitTimer m phase start).2 = if 400000 ≤ measured m phase start then 24 else 23 := by
  have hge := measured_ge m phase start
  have hle := measured_le m phase start
  rw [sysInitTimer_eq]
  split <;> omega

/-! ### The clock -/

/-- The clock with the right divisor. -/
theorem timeKept_twentyFour : TimeKept 24 where
  ne_zero := by decide
  usec tick _ := by
    unfold Within sysGetUsec
    omega
  msec tick _ := by
    unfold Within sysGetMsec
    omega

/-- With one tick less it is four percent fast. -/
theorem not_timeKept_twentyThree : ¬TimeKept 23 := by
  intro h
  -- after 23 seconds the clock shows 24
  have hfast := (h.usec (24 * 23 * 1000000) (by decide)).1
  unfold sysGetUsec at hfast
  omega

/-- **The clock keeps time exactly if the frame it was measured with is long enough**, for
every mode, every phase and every moment of the call. -/
theorem timeKept_iff (m : Mode60) (phase start : ℕ) :
    TimeKept (sysInitTimer m phase start).2 ↔ LongFrame m phase start := by
  rw [longFrame_iff, sysPerUsec_eq]
  split
  · exact iff_of_true timeKept_twentyFour ‹_›
  · exact iff_of_false not_timeKept_twentyThree ‹_›

/-- The default timing. -/
def svga : Mode60 := ⟨none, by decide, by decide, by decide⟩

/-- **The default timing gives 23 ticks**, whatever the phase and the moment of the call. -/
theorem sysPerUsec_svga (phase start : ℕ) : (sysInitTimer svga phase start).2 = 23 := by
  have hpixclk : svga.timing.pixclk = 40000000 := rfl
  have hframe : svga.frame = 24000000 * 663168 := by decide
  have hshort : ¬400000 ≤ measured svga phase start := by
    rw [measured, Nat.not_le, Nat.div_lt_iff_lt_mul svga.timing_pixclk_pos, hpixclk, hframe]
    have hmod := Nat.mod_lt (phase + framesBegun svga phase start * (24000000 * 663168))
      (show 0 < 40000000 by decide)
    omega
  rw [sysPerUsec_eq, if_neg hshort]

/-- The default timing, from the beginning of a frame: after 23 seconds `sys_get_usec` shows
24. -/
theorem not_timeKept_svga :
    (sysInitTimer svga 0 0).2 = 23 ∧
      sysGetUsec (sysInitTimer svga 0 0).2 (23 * counterHz) = 24000000 ∧
      ¬TimeKept (sysInitTimer svga 0 0).2 := by
  rw [sysPerUsec_svga]
  exact ⟨rfl, by decide, not_timeKept_twentyThree⟩

/-! ### In terms of the frame rate -/

/-- **At 60 Hz and below the clock keeps time.** -/
theorem longFrame_of_rate_le {m : Mode60} (h : m.timing.pixclk ≤ 60 * m.timing.pixels)
    (phase start : ℕ) : LongFrame m phase start := by
  rw [LongFrame, Mode60.frame, counterHz]
  omega

/-- **Above 60 Hz it does not**, but for the rates so close to it that a frame is less than a
tick short of a sixtieth of a second. -/
theorem not_longFrame_of_frame_le {m : Mode60} (h : m.frame ≤ 399999 * m.timing.pixclk)
    (phase start : ℕ) : ¬LongFrame m phase start := by
  have hmod := Nat.mod_lt (phase + framesBegun m phase start * m.frame) m.timing_pixclk_pos
  rw [LongFrame]
  omega

end Sys

end BareMetal
