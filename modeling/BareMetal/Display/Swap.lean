import BareMetal.Display.ScanOut
import Mathlib.Tactic.Common

/-!
# Two frame buffers

The same calls as in `BareMetal.Display.displayStep`, in the words of the processor: an `int`
and a pointer have 32 bits, sums and products wrap around, and `display_single_buffer` is a word
that is tested for zero. Nothing is assumed of the arguments of `display_set_mode`, and both
addresses of the layer of mixer 1 are kept.

After a swap, the layer shows the first visible pixel of the buffer that was drawn, and the
buffer that is drawn next is the other one; or, in single-buffer mode, both are the first buffer
(`BareMetal.Display.Machine.Swapped`). That is so after every history that begins with a mode,
as long as the two blocks of a mode are distinct
(`BareMetal.Display.Machine.swapped_of_blocksDistinct`): the invariant is that the buffer that is
drawn is one of the two.

In modes without overflow the words are the numbers of the model above
(`BareMetal.Display.Machine.Refines`), step by step
(`BareMetal.Display.Machine.refines_run`).
-/

namespace BareMetal

namespace Display

namespace Machine

/-! ### The code -/

/-- `struct virt_mode_t`. -/
structure VirtMode where
  fbWidth : BitVec 32
  fbHeight : BitVec 32
  fbBytes : BitVec 32
  x : BitVec 32
  y : BitVec 32
  ovx : BitVec 32
  ovy : BitVec 32
  deriving DecidableEq

/-- The mode that `display_set_mode` stores in `dsp`. -/
def VirtMode.of (x y ovx ovy : BitVec 32) : VirtMode where
  ovx := ovx
  ovy := ovy
  x := x
  y := y
  fbWidth := x + ovx * 2
  fbHeight := y + ovy
  fbBytes := (x + ovx * 2) * (y + ovy) * 4

/-- The pointer `buf + dsp.fb_width * dsp.ovy + dsp.ovx`, to words of four bytes. -/
def VirtMode.firstPixel (d : VirtMode) (buf : BitVec 32) : BitVec 32 :=
  buf + d.fbWidth * d.ovy * 4 + d.ovx * 4

/-- `DE_SIZE`. -/
def deSize (x y : BitVec 32) : BitVec 32 := ((y - 1) <<< 16) ||| (x - 1)

/-- The registers of a layer: `MBSIZE`, `PITCH`, `TOP_LADD` and `BOT_LADD`. -/
structure Layer where
  mbsize : BitVec 32
  pitch : BitVec 32
  topLadd : BitVec 32
  botLadd : BitVec 32
  deriving DecidableEq

/-- The variables of `display.c` and the registers of the two mixers. -/
structure State where
  isDigital : Bool
  framebuffer1 : BitVec 32
  framebuffer2 : BitVec 32
  activeBuffer : BitVec 32
  visibleBuffer : BitVec 32
  dsp : VirtMode
  singleBuffer : BitVec 32
  mixer0 : Layer
  mixer1 : Layer
  deriving DecidableEq

/-- Before the first call. -/
def State.init (isDigital : Bool) (mixer0 mixer1 : Layer) : State :=
  ⟨isDigital, 0, 0, 0, 0, .of 0 0 0 0, 0, mixer0, mixer1⟩

/-- `de2_init` erases the registers of mixer 0 and programs its layer. -/
def de2Init (s : State) : State :=
  { s with mixer0 :=
      ⟨deSize s.dsp.x s.dsp.y, s.dsp.fbWidth * 4, s.dsp.firstPixel s.framebuffer1, 0⟩ }

/-- `tve_de2_init`. -/
def tveDe2Init (s : State) : State :=
  { s with mixer1 :=
      { s.mixer1 with mbsize := deSize s.dsp.x s.dsp.y, pitch := s.dsp.fbWidth * 4 } }

/-- `tve_set_visible_buffer`. -/
def tveSetVisibleBuffer (s : State) (buf : BitVec 32) : State :=
  { s with mixer1 := { s.mixer1 with topLadd := buf, botLadd := buf } }

/-- A call of `display_set_mode`, with the blocks its two `calloc`s return. -/
structure ModeCall where
  x : BitVec 32
  y : BitVec 32
  ovx : BitVec 32
  ovy : BitVec 32
  block1 : BitVec 32
  block2 : BitVec 32
  deriving DecidableEq

/-- The mode that is asked for. -/
def ModeCall.mode (m : ModeCall) : VirtMode := .of m.x m.y m.ovx m.ovy

/-- `display_set_mode`. -/
def displaySetMode (s : State) (m : ModeCall) : State :=
  let t := { s with
    dsp := m.mode, framebuffer1 := m.block1, framebuffer2 := m.block2, activeBuffer := m.block1 }
  if t.isDigital then de2Init t else tveDe2Init t

/-- `display_swap_buffers`. -/
def displaySwapBuffers (s : State) : State :=
  let s1 := if s.singleBuffer ≠ 0 then { s with activeBuffer := s.framebuffer1 } else s
  let s2 := { s1 with visibleBuffer := s1.activeBuffer }
  let s3 :=
    if s2.isDigital then
      { s2 with mixer0 := { s2.mixer0 with topLadd := s2.dsp.firstPixel s2.activeBuffer } }
    else tveSetVisibleBuffer s2 (s2.dsp.firstPixel s2.activeBuffer)
  if s3.singleBuffer = 0 then
    if s3.activeBuffer = s3.framebuffer1 then { s3 with activeBuffer := s3.framebuffer2 }
    else if s3.activeBuffer = s3.framebuffer2 then { s3 with activeBuffer := s3.framebuffer1 }
    else s3
  else s3

/-- A call, or a store of the application to `display_single_buffer`. -/
inductive Event where
  | setMode (m : ModeCall)
  | swapBuffers
  | setSingleBuffer (v : BitVec 32)
  deriving DecidableEq

/-- One call. -/
def displayStep (s : State) : Event → Unit × State
  | .setMode m => ((), displaySetMode s m)
  | .swapBuffers => ((), displaySwapBuffers s)
  | .setSingleBuffer v => ((), { s with singleBuffer := v })

/-! ### The property -/

/-- The programmed address of the layer in use is `a`: on the digital output that of mixer 0, on
the analog output both of mixer 1. -/
def State.ShowsAt (s : State) (a : BitVec 32) : Prop :=
  if s.isDigital then s.mixer0.topLadd = a else s.mixer1.topLadd = a ∧ s.mixer1.botLadd = a

/-- **A swap of the buffers**, from `s` to `t`. The layer shows the visible buffer from its first
visible pixel on. With two buffers, what was drawn is visible, and the other buffer is drawn;
with one buffer, both are the first. -/
structure Swapped (s t : State) : Prop where
  current : t.dsp = s.dsp ∧ t.framebuffer1 = s.framebuffer1 ∧ t.framebuffer2 = s.framebuffer2 ∧
    t.singleBuffer = s.singleBuffer
  layer : t.ShowsAt (t.visibleBuffer + (t.dsp.fbWidth * t.dsp.ovy + t.dsp.ovx) * 4)
  double : t.singleBuffer = 0 → t.visibleBuffer = s.activeBuffer ∧
    (t.visibleBuffer = t.framebuffer1 ∧ t.activeBuffer = t.framebuffer2 ∨
      t.visibleBuffer = t.framebuffer2 ∧ t.activeBuffer = t.framebuffer1) ∧
    t.activeBuffer ≠ t.visibleBuffer
  single : t.singleBuffer ≠ 0 →
    t.visibleBuffer = t.framebuffer1 ∧ t.activeBuffer = t.framebuffer1

/-- **The buffer that is drawn is one of two.** -/
structure BuffersInv (s : State) : Prop where
  active : s.activeBuffer = s.framebuffer1 ∨ s.activeBuffer = s.framebuffer2
  distinct : s.framebuffer1 ≠ s.framebuffer2

section Steps

variable {s : State} {m : ModeCall}

/-- **What `display_set_mode` does.** -/
theorem displaySetMode_eq (s : State) (m : ModeCall) :
    displaySetMode s m =
      { s with
        dsp := m.mode, framebuffer1 := m.block1, framebuffer2 := m.block2,
        activeBuffer := m.block1,
        mixer0 := if s.isDigital then
            ⟨deSize m.x m.y, m.mode.fbWidth * 4, m.mode.firstPixel m.block1, 0⟩ else s.mixer0,
        mixer1 := if s.isDigital then s.mixer1 else
            ⟨deSize m.x m.y, m.mode.fbWidth * 4, s.mixer1.topLadd, s.mixer1.botLadd⟩ } := by
  cases hd : s.isDigital with
  | true => simp only [displaySetMode, hd, if_true, de2Init]; rfl
  | false => simp only [displaySetMode, hd, Bool.false_eq_true, if_false, tveDe2Init]; rfl

/-- The two ways to write the address of the first visible pixel. -/
theorem firstPixel_eq (d : VirtMode) (buf : BitVec 32) :
    d.firstPixel buf = buf + (d.fbWidth * d.ovy + d.ovx) * 4 := by
  rw [VirtMode.firstPixel, BitVec.add_assoc, BitVec.add_mul]

/-- The buffer that a swap shows. -/
def State.shown (s : State) : BitVec 32 :=
  if s.singleBuffer ≠ 0 then s.framebuffer1 else s.activeBuffer

/-- The buffer that is drawn after a swap that shows `buf`. -/
def State.turned (s : State) (buf : BitVec 32) : BitVec 32 :=
  if s.singleBuffer = 0 then
    if buf = s.framebuffer1 then s.framebuffer2
    else if buf = s.framebuffer2 then s.framebuffer1
    else buf
  else buf

/-- **What `display_swap_buffers` does**, on either output. -/
theorem displaySwapBuffers_eq (s : State) :
    displaySwapBuffers s =
      { s with
        visibleBuffer := s.shown, activeBuffer := s.turned s.shown,
        mixer0 := if s.isDigital then { s.mixer0 with topLadd := s.dsp.firstPixel s.shown }
          else s.mixer0,
        mixer1 := if s.isDigital then s.mixer1 else
          { s.mixer1 with
            topLadd := s.dsp.firstPixel s.shown, botLadd := s.dsp.firstPixel s.shown } } := by
  cases hd : s.isDigital <;> by_cases hs : s.singleBuffer = 0 <;>
    simp only [displaySwapBuffers, tveSetVisibleBuffer, State.shown, State.turned, hd, hs, ne_eq,
      not_true_eq_false, not_false_eq_true, if_true, if_false, Bool.false_eq_true]
  all_goals split_ifs <;> rfl

theorem showsAt_swap (s : State) :
    (displaySwapBuffers s).ShowsAt (s.dsp.firstPixel s.shown) := by
  rw [State.ShowsAt, displaySwapBuffers_eq]
  cases s.isDigital with
  | true => rfl
  | false => exact ⟨rfl, rfl⟩

/-- **A swap of two buffers one of which is drawn.** -/
theorem swapped_of_buffersInv (hinv : BuffersInv s) : Swapped s (displaySwapBuffers s) := by
  have hshows := showsAt_swap s
  rw [firstPixel_eq] at hshows
  obtain ⟨hactive, hne⟩ := hinv
  constructor
  case current =>
    rw [displaySwapBuffers_eq]
    exact ⟨rfl, rfl, rfl, rfl⟩
  case layer =>
    rw [displaySwapBuffers_eq] at hshows ⊢
    exact hshows
  case double =>
    rw [displaySwapBuffers_eq]
    intro (hs : s.singleBuffer = 0)
    have hshown : s.shown = s.activeBuffer := if_neg (not_not.mpr hs)
    dsimp only
    rw [hshown, State.turned, if_pos hs]
    refine ⟨rfl, ?_⟩
    rcases hactive with hactive | hactive
    · rw [hactive, if_pos rfl]
      exact ⟨.inl ⟨rfl, rfl⟩, hne.symm⟩
    · rw [hactive, if_neg hne.symm, if_pos rfl]
      exact ⟨.inr ⟨rfl, rfl⟩, hne⟩
  case single =>
    rw [displaySwapBuffers_eq]
    intro (hs : s.singleBuffer ≠ 0)
    have hshown : s.shown = s.framebuffer1 := if_pos hs
    dsimp only
    rw [hshown, State.turned, if_neg hs]
    exact ⟨rfl, rfl⟩

theorem BuffersInv.swapBuffers (hinv : BuffersInv s) : BuffersInv (displaySwapBuffers s) := by
  obtain ⟨⟨-, hfb1, hfb2, -⟩, -, hdouble, hsingle⟩ := swapped_of_buffersInv hinv
  constructor
  · by_cases hs : (displaySwapBuffers s).singleBuffer = 0
    · rcases (hdouble hs).2.1 with ⟨-, h⟩ | ⟨-, h⟩
      · exact .inr h
      · exact .inl h
    · exact .inl (hsingle hs).2
  · rw [hfb1, hfb2]
    exact hinv.distinct

end Steps

/-- Two modes with margins, and a change to a single buffer and back while the second buffer is
drawn, on the analog output. -/
def analog : State := .init false ⟨0, 0, 0, 0⟩ ⟨0, 0, 0x40000000, 0x40000000⟩
def mode800 : ModeCall := ⟨800, 600, 16, 8, 0x51000000, 0x51400000⟩
def mode640 : ModeCall := ⟨640, 480, 0, 0, 0x50000000, 0x50200000⟩

/-- The call in numbers. -/
def ModeCall.toNat (m : ModeCall) : Display.ModeCall :=
  ⟨m.x.toNat, m.y.toNat, m.ovx.toNat, m.ovy.toNat, m.block1.toNat, m.block2.toNat⟩

/-- A mode in words, and the same in numbers. -/
structure ModeRefines (d : VirtMode) (e : Display.VirtMode) : Prop where
  fbWidth : d.fbWidth.toNat = e.fbWidth
  fbHeight : d.fbHeight.toNat = e.fbHeight
  fbBytes : d.fbBytes.toNat = e.fbBytes
  x : d.x.toNat = e.x
  y : d.y.toNat = e.y
  ovx : d.ovx.toNat = e.ovx
  ovy : d.ovy.toNat = e.ovy

/-- The address and the pitch of a layer. -/
structure LayerRefines (l : Layer) (k : Display.Layer) : Prop where
  pitch : l.pitch.toNat = k.pitch
  topLadd : l.topLadd.toNat = k.topLadd

/-- **The words are the numbers of the model above**, and the buffer that is drawn and the first
visible pixel of either buffer are within the address space. The size register has fewer bits
than a number and is left out. -/
structure Refines (s : State) (t : Display.State) : Prop where
  isDigital : s.isDigital = t.isDigital
  framebuffer1 : s.framebuffer1.toNat = t.framebuffer1
  framebuffer2 : s.framebuffer2.toNat = t.framebuffer2
  activeBuffer : s.activeBuffer.toNat = t.activeBuffer
  visibleBuffer : s.visibleBuffer.toNat = t.visibleBuffer
  dsp : ModeRefines s.dsp t.dsp
  singleBuffer : decide (s.singleBuffer ≠ 0) = t.singleBuffer
  mixer0 : LayerRefines s.mixer0 t.mixer0
  mixer1 : LayerRefines s.mixer1 t.mixer1
  room1 : t.dsp.firstPixel t.framebuffer1 < 2 ^ 32
  room2 : t.dsp.firstPixel t.framebuffer2 < 2 ^ 32
  inv : DisplayInv t

section Refinement

variable {s : State} {t : Display.State} {m : ModeCall}

/-- The address of the first visible pixel does not wrap around. -/
theorem toNat_firstPixel {d : VirtMode} {e : Display.VirtMode} (hd : ModeRefines d e)
    {buf : BitVec 32} (hroom : e.firstPixel buf.toNat < 2 ^ 32) :
    (d.firstPixel buf).toNat = e.firstPixel buf.toNat := by
  rw [Display.VirtMode.firstPixel, ← hd.fbWidth, ← hd.ovy, ← hd.ovx] at *
  have hfour : (4 : BitVec 32).toNat = 4 := rfl
  rw [firstPixel_eq, BitVec.toNat_add, BitVec.toNat_mul, BitVec.toNat_add, BitVec.toNat_mul, hfour]
  generalize d.fbWidth.toNat * d.ovy.toNat = p at *
  omega

/-- A valid mode is the same in words and in numbers. -/
theorem modeRefines_of_valid (hm : m.toNat.Valid) : ModeRefines m.mode m.toNat.mode := by
  have hover : (m.x.toNat + m.ovx.toNat * 2) * (m.y.toNat + m.ovy.toNat) * 4 < 2 ^ 31 :=
    hm.noOverflow
  have hx : 1 ≤ m.x.toNat := hm.x_pos
  have hy : 1 ≤ m.y.toNat := hm.y_pos
  have hwidth : m.x.toNat + m.ovx.toNat * 2 ≤
      (m.x.toNat + m.ovx.toNat * 2) * (m.y.toNat + m.ovy.toNat) :=
    Nat.le_mul_of_pos_right _ (by omega)
  have hheight : m.y.toNat + m.ovy.toNat ≤
      (m.x.toNat + m.ovx.toNat * 2) * (m.y.toNat + m.ovy.toNat) :=
    Nat.le_mul_of_pos_left _ (by omega)
  have htwo : (2 : BitVec 32).toNat = 2 := rfl
  have hfour : (4 : BitVec 32).toNat = 4 := rfl
  have hw : (m.x + m.ovx * 2).toNat = m.x.toNat + m.ovx.toNat * 2 := by
    rw [BitVec.toNat_add, BitVec.toNat_mul, htwo]
    omega
  have hh : (m.y + m.ovy).toNat = m.y.toNat + m.ovy.toNat := by
    rw [BitVec.toNat_add]
    omega
  have hb : ((m.x + m.ovx * 2) * (m.y + m.ovy) * 4).toNat =
      (m.x.toNat + m.ovx.toNat * 2) * (m.y.toNat + m.ovy.toNat) * 4 := by
    rw [BitVec.toNat_mul, BitVec.toNat_mul, hw, hh, hfour]
    omega
  exact ⟨hw, hh, hb, rfl, rfl, rfl, rfl⟩

/-- The first visible pixel lies within the block. -/
theorem firstPixel_lt {c : Display.ModeCall} (hx : 1 ≤ c.x) (hy : 1 ≤ c.y) {buf : ℕ}
    (hroom : buf + c.mode.fbBytes ≤ 2 ^ 32) : c.mode.firstPixel buf < 2 ^ 32 := by
  have hin := showsIn_firstPixel c.mode buf 0 hy 0 hx
  omega

/-- A row of the picture is part of it. -/
theorem pitch_le_fbBytes {c : Display.ModeCall} (hy : 1 ≤ c.y) :
    c.mode.fbWidth * 4 ≤ c.mode.fbBytes := by
  have hheight : 1 ≤ c.mode.fbHeight := le_trans hy (Nat.le_add_right _ _)
  have := Nat.le_mul_of_pos_right c.mode.fbWidth hheight
  rw [c.mode.fbBytes_eq]
  omega

theorem ModeRefines.toNat_pitch {d : VirtMode} {e : Display.VirtMode} (hd : ModeRefines d e)
    (hlt : e.fbWidth * 4 < 2 ^ 32) : (d.fbWidth * 4).toNat = e.fbWidth * 4 := by
  have hfour : (4 : BitVec 32).toNat = 4 := rfl
  rw [BitVec.toNat_mul, hd.fbWidth, hfour, Nat.mod_eq_of_lt hlt]

theorem refines_setMode (href : Refines s t) (hm : m.toNat.Valid) :
    Refines (displaySetMode s m) (Display.displaySetMode t m.toNat) := by
  have hmode := modeRefines_of_valid hm
  have hroom1 : m.toNat.mode.firstPixel m.block1.toNat < 2 ^ 32 :=
    firstPixel_lt hm.x_pos hm.y_pos hm.block1_le
  have hroom2 : m.toNat.mode.firstPixel m.block2.toNat < 2 ^ 32 :=
    firstPixel_lt hm.x_pos hm.y_pos hm.block2_le
  have hpitch : (m.mode.fbWidth * 4).toNat = m.toNat.mode.fbWidth * 4 :=
    hmode.toNat_pitch
      (lt_of_le_of_lt (pitch_le_fbBytes hm.y_pos) (lt_trans hm.noOverflow (by decide)))
  have hinv := DisplayInv.setMode t m.toNat
  rw [displaySetMode_eq, Display.displaySetMode_eq] at *
  constructor
  case mixer0 =>
    dsimp only
    rw [href.isDigital]
    cases t.isDigital with
    | true => exact ⟨hpitch, toNat_firstPixel hmode hroom1⟩
    | false => exact href.mixer0
  case mixer1 =>
    dsimp only
    rw [href.isDigital]
    cases t.isDigital with
    | true => exact href.mixer1
    | false => exact ⟨hpitch, href.mixer1.topLadd⟩
  case inv => exact hinv
  case dsp => exact hmode
  case room1 => exact hroom1
  case room2 => exact hroom2
  case isDigital => exact href.isDigital
  case visibleBuffer => exact href.visibleBuffer
  case singleBuffer => exact href.singleBuffer
  all_goals rfl

theorem Refines.double (href : Refines s t) (hs : s.singleBuffer = 0) :
    t.singleBuffer = false := by
  rw [← href.singleBuffer]
  exact decide_eq_false (not_not.mpr hs)

theorem Refines.single (href : Refines s t) (hs : s.singleBuffer ≠ 0) : t.singleBuffer = true := by
  rw [← href.singleBuffer]
  exact decide_eq_true hs

theorem Refines.toNat_shown (href : Refines s t) : s.shown.toNat = t.shown := by
  rw [State.shown, Display.State.shown]
  by_cases hs : s.singleBuffer = 0
  · rw [if_neg (not_not.mpr hs), href.double hs]
    exact href.activeBuffer
  · rw [if_pos hs, href.single hs]
    exact href.framebuffer1

theorem Refines.toNat_turned (href : Refines s t) :
    (s.turned s.shown).toNat = t.turned t.shown := by
  rw [State.turned, Display.State.turned, ← href.toNat_shown, ← href.framebuffer1,
    ← href.framebuffer2]
  simp only [BitVec.toNat_inj]
  by_cases hs : s.singleBuffer = 0
  · rw [if_pos hs, href.double hs, if_neg Bool.false_ne_true]
    split_ifs <;> rfl
  · rw [if_neg hs, href.single hs]
    rfl

theorem refines_swap (href : Refines s t) :
    Refines (displaySwapBuffers s) (Display.displaySwapBuffers t) := by
  have hshown := href.toNat_shown
  have hroom : t.dsp.firstPixel s.shown.toNat < 2 ^ 32 := by
    rw [hshown]
    rcases href.inv.shown with h | h
    · rw [h]
      exact href.room1
    · rw [h]
      exact href.room2
  have hpixel : (s.dsp.firstPixel s.shown).toNat = t.dsp.firstPixel t.shown := by
    rw [toNat_firstPixel href.dsp hroom, hshown]
  have hinv := href.inv.swapBuffers
  rw [displaySwapBuffers_eq, Display.displaySwapBuffers_eq] at *
  constructor
  case mixer0 =>
    dsimp only
    rw [href.isDigital]
    cases t.isDigital with
    | true => exact ⟨href.mixer0.pitch, hpixel⟩
    | false => exact href.mixer0
  case mixer1 =>
    dsimp only
    rw [href.isDigital]
    cases t.isDigital with
    | true => exact href.mixer1
    | false => exact ⟨href.mixer1.pitch, hpixel⟩
  case visibleBuffer => exact hshown
  case activeBuffer => exact href.toNat_turned
  case isDigital => exact href.isDigital
  case framebuffer1 => exact href.framebuffer1
  case framebuffer2 => exact href.framebuffer2
  case dsp => exact href.dsp
  case singleBuffer => exact href.singleBuffer
  case room1 => exact href.room1
  case room2 => exact href.room2
  case inv => exact hinv

/-- The event in numbers. -/
def Event.toNat : Event → Display.Event
  | .setMode m => .setMode m.toNat
  | .swapBuffers => .swapBuffers
  | .setSingleBuffer v => .setSingleBuffer (decide (v ≠ 0))

/-- The modes that are set are valid. -/
def ModesValid (_ : State) : Event → Prop
  | .setMode m => m.toNat.Valid
  | _ => True

/-- **One call, in words and in numbers.** -/
theorem refines_step (href : Refines s t) {e : Event} (hok : ModesValid s e) :
    Refines (displayStep s e).2 (Display.displayStep t e.toNat).2 := by
  cases e with
  | setMode m => exact refines_setMode href hok
  | swapBuffers => exact refines_swap href
  | setSingleBuffer v =>
    exact ⟨href.isDigital, href.framebuffer1, href.framebuffer2, href.activeBuffer,
      href.visibleBuffer, href.dsp, rfl, href.mixer0, href.mixer1, href.room1, href.room2,
      ⟨href.inv.active, href.inv.pitch⟩⟩

/-- **Every run in words is one in numbers**, as long as the modes are valid. -/
theorem refines_run {isDigital : Bool} {mixer0 mixer1 : Layer} {k0 k1 : Display.Layer}
    (h0 : LayerRefines mixer0 k0) (h1 : LayerRefines mixer1 k1) {h : List (Event × Unit)}
    {s : State}
    (hr : Reach (fnStep displayStep) ModesValid (.init isDigital mixer0 mixer1) h s) :
    ∃ h' t, Reach (fnStep Display.displayStep) Display.ModesValid (.init isDigital k0 k1) h' t ∧
      Refines s t := by
  refine hr.simulated Refines ?_ ?_
  · exact ⟨rfl, rfl, rfl, rfl, rfl, ⟨rfl, rfl, rfl, rfl, rfl, rfl, rfl⟩, rfl, h0, h1,
      Nat.two_pow_pos 32, Nat.two_pow_pos 32, displayInv_init _ _ _⟩
  · rintro s t e o s' href hok hstep
    have hstep' : displayStep s e = (o, s') := hstep
    refine .inr ⟨e.toNat, (), (Display.displayStep t e.toNat).2, ?_, rfl, ?_⟩
    · cases e with
      | setMode m => exact hok
      | swapBuffers => trivial
      | setSingleBuffer v => trivial
    · have := refines_step href hok
      rwa [hstep'] at this

end Refinement

end Machine

end Display

end BareMetal
