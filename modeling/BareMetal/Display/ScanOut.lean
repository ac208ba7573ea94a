import BareMetal.Runs
import Mathlib.Tactic.Ring

/-!
# What the display engine scans out

`display_set_mode` frees the two frame buffers, allocates two others and tells the display
engine the size of the picture; `display_swap_buffers` shows the buffer that has been drawn
and turns to the other. The engine goes on reading memory on its own, a window of `y` rows of
`x` pixels from the address of its layer, on the digital output by mixer 0 and on the analog
output by mixer 1.

What is wanted is that the window lies in one of the buffers that are allocated
(`BareMetal.Display.ScanOk`). The arithmetic of the window is settled first
(`BareMetal.Display.showsIn_iff`): in a virtual mode, the window that starts at the first
visible pixel of a buffer lies in that buffer (`BareMetal.Display.showsIn_firstPixel`). So
`display_swap_buffers` always establishes the property (`BareMetal.Display.scanOk_swap`).
`display_set_mode` does not: it writes no layer address on the analog output and leaves
`display_visible_buffer` as it was on either. What has to hold for it to be right is
`BareMetal.Display.scanOk_setMode_iff`.

Pointers are natural numbers, 0 is the null pointer, and the blocks that `calloc` returns are
arguments of the call.
-/

namespace BareMetal

namespace Display

/-! ### The window of a layer -/

/-- The window of `rows` rows of `cols` pixels of four bytes each, at a distance of `pitch`
bytes from the address `ladd`, **lies in the block** of `bytes` bytes at `buf`. -/
def ShowsIn (rows cols pitch ladd buf bytes : ℕ) : Prop :=
  ∀ r < rows, ∀ c < cols,
    buf ≤ ladd + r * pitch + c * 4 ∧ ladd + r * pitch + c * 4 + 4 ≤ buf + bytes

/-- **The window by its corners**: it lies in a block if its first and its last pixel do. -/
theorem showsIn_iff {rows cols pitch ladd buf bytes : ℕ} (hrows : 1 ≤ rows) (hcols : 1 ≤ cols) :
    ShowsIn rows cols pitch ladd buf bytes ↔
      buf ≤ ladd ∧ ladd + (rows - 1) * pitch + cols * 4 ≤ buf + bytes := by
  constructor
  · intro hin
    have hfirst := (hin 0 hrows 0 hcols).1
    have hlast := (hin (rows - 1) (by omega) (cols - 1) (by omega)).2
    omega
  · rintro ⟨hfirst, hlast⟩ r hr c hc
    have hrow : r * pitch ≤ (rows - 1) * pitch := Nat.mul_le_mul_right pitch (by omega)
    omega

/-! ### The code -/

/-- `struct virt_mode_t`: the visible part of the picture and the margins around it, with the
size of a frame buffer that this makes. -/
structure VirtMode where
  fbWidth : ℕ
  fbHeight : ℕ
  fbBytes : ℕ
  x : ℕ
  y : ℕ
  ovx : ℕ
  ovy : ℕ
  fbWidth_eq : fbWidth = x + ovx * 2
  fbHeight_eq : fbHeight = y + ovy
  fbBytes_eq : fbBytes = fbWidth * fbHeight * 4
  deriving DecidableEq

/-- The mode that `display_set_mode` stores in `dsp`. -/
def VirtMode.of (x y ovx ovy : ℕ) : VirtMode :=
  ⟨x + ovx * 2, y + ovy, (x + ovx * 2) * (y + ovy) * 4, x, y, ovx, ovy, rfl, rfl, rfl⟩

/-- The address `buf + dsp.fb_width * dsp.ovy + dsp.ovx`, of the first pixel that is visible. -/
def VirtMode.firstPixel (d : VirtMode) (buf : ℕ) : ℕ := buf + (d.fbWidth * d.ovy + d.ovx) * 4

/-- `DE_SIZE`. -/
def deSize (x y : ℕ) : ℕ := ((y - 1) <<< 16) ||| (x - 1)

/-- The registers of a layer: `MBSIZE`, `PITCH` and `TOP_LADD`. -/
structure Layer where
  mbsize : ℕ
  pitch : ℕ
  topLadd : ℕ
  deriving DecidableEq

/-- The variables of `display.c` and the registers of the two mixers. -/
structure State where
  isDigital : Bool
  framebuffer1 : ℕ
  framebuffer2 : ℕ
  activeBuffer : ℕ
  visibleBuffer : ℕ
  dsp : VirtMode
  singleBuffer : Bool
  mixer0 : Layer
  mixer1 : Layer
  deriving DecidableEq

/-- Before the first call, on either output, with whatever the two layers hold. -/
def State.init (isDigital : Bool) (mixer0 mixer1 : Layer) : State :=
  ⟨isDigital, 0, 0, 0, 0, .of 0 0 0 0, false, mixer0, mixer1⟩

/-- The layer that is scanned out. -/
def State.layer (s : State) : Layer := if s.isDigital then s.mixer0 else s.mixer1

/-- `de2_init` programs the layer of mixer 0, its address included. -/
def de2Init (s : State) : State :=
  { s with mixer0 :=
      ⟨deSize s.dsp.x s.dsp.y, s.dsp.fbWidth * 4, s.dsp.firstPixel s.framebuffer1⟩ }

/-- `tve_de2_init` programs the size and the pitch of the layer of mixer 1. -/
def tveDe2Init (s : State) : State :=
  { s with mixer1 :=
      { s.mixer1 with mbsize := deSize s.dsp.x s.dsp.y, pitch := s.dsp.fbWidth * 4 } }

/-- `tve_set_visible_buffer`. -/
def tveSetVisibleBuffer (s : State) (buf : ℕ) : State :=
  { s with mixer1 := { s.mixer1 with topLadd := buf } }

/-- A call of `display_set_mode`, with the blocks its two `calloc`s return. -/
structure ModeCall where
  x : ℕ
  y : ℕ
  ovx : ℕ
  ovy : ℕ
  block1 : ℕ
  block2 : ℕ
  deriving DecidableEq

/-- The mode that is asked for. -/
def ModeCall.mode (m : ModeCall) : VirtMode := .of m.x m.y m.ovx m.ovy

/-- `display_set_mode`. -/
def displaySetMode (s : State) (m : ModeCall) : State :=
  let t := { s with
    dsp := m.mode, framebuffer1 := m.block1, framebuffer2 := m.block2, activeBuffer := m.block1 }
  if t.isDigital then de2Init t else tveDe2Init t

/-- `display_swap_buffers`. -/
def displaySwapBuffers (s : State) : State :=
  let shown := if s.singleBuffer then s.framebuffer1 else s.activeBuffer
  let t := { s with activeBuffer := shown, visibleBuffer := shown }
  let u :=
    if t.isDigital then { t with mixer0 := { t.mixer0 with topLadd := t.dsp.firstPixel shown } }
    else tveSetVisibleBuffer t (t.dsp.firstPixel shown)
  if u.singleBuffer then u
  else if u.activeBuffer = u.framebuffer1 then { u with activeBuffer := u.framebuffer2 }
  else if u.activeBuffer = u.framebuffer2 then { u with activeBuffer := u.framebuffer1 }
  else u

/-- A call, or a store of the application to `display_single_buffer`. -/
inductive Event where
  | setMode (m : ModeCall)
  | swapBuffers
  | setSingleBuffer (on : Bool)
  deriving DecidableEq

/-- One call. -/
def displayStep (s : State) : Event → Unit × State
  | .setMode m => ((), displaySetMode s m)
  | .swapBuffers => ((), displaySwapBuffers s)
  | .setSingleBuffer on => ((), { s with singleBuffer := on })

/-! ### The property -/

/-- The window of a state lies in a buffer. -/
def State.Shows (s : State) (buf : ℕ) : Prop :=
  ShowsIn s.dsp.y s.dsp.x s.layer.pitch s.layer.topLadd buf s.dsp.fbBytes

/-- **No freed memory is scanned out**: the window, at the pitch of the mode, lies in one of
the two frame buffers, and the visible buffer is none or one of them. Before the first mode
the window has no rows. -/
structure ScanOk (s : State) : Prop where
  pitch : 1 ≤ s.dsp.y → s.layer.pitch = s.dsp.fbWidth * 4
  window : s.Shows s.framebuffer1 ∨ s.Shows s.framebuffer2
  visible : s.visibleBuffer = 0 ∨ s.visibleBuffer = s.framebuffer1 ∨
    s.visibleBuffer = s.framebuffer2

/-- The picture has a pixel, its sizes do not overflow an `int`, and the two allocations
succeed: they return two blocks of that size that have no byte in common. -/
structure ModeCall.Valid (m : ModeCall) : Prop where
  x_pos : 1 ≤ m.x
  y_pos : 1 ≤ m.y
  noOverflow : m.mode.fbBytes < 2 ^ 31
  block1_ne : m.block1 ≠ 0
  block2_ne : m.block2 ≠ 0
  block1_le : m.block1 + m.mode.fbBytes ≤ 2 ^ 32
  block2_le : m.block2 + m.mode.fbBytes ≤ 2 ^ 32
  disjoint : m.block1 + m.mode.fbBytes ≤ m.block2 ∨ m.block2 + m.mode.fbBytes ≤ m.block1

/-- The modes that are set are valid. -/
def ModesValid (_ : State) : Event → Prop
  | .setMode m => m.Valid
  | _ => True

/-- The first and the last pixel of a window at `ladd` lie in the block at `buf`, in the mode
that is asked for. -/
def ModeCall.Fits (m : ModeCall) (ladd buf : ℕ) : Prop :=
  buf ≤ ladd ∧ ladd + (m.y - 1) * (m.mode.fbWidth * 4) + m.x * 4 ≤ buf + m.mode.fbBytes

/-- What `display_set_mode` leaves as it was has to be right in the new mode: the visible
buffer is none, or `calloc` has returned it again; and on the analog output the old address of
the layer has room for the new picture in one of the new buffers. -/
def Outlives (s : State) (m : ModeCall) : Prop :=
  (s.visibleBuffer = 0 ∨ s.visibleBuffer = m.block1 ∨ s.visibleBuffer = m.block2) ∧
    (s.isDigital = false → m.Fits s.mixer1.topLadd m.block1 ∨ m.Fits s.mixer1.topLadd m.block2)

/-- Valid modes are set, in states that outlive the change. -/
def ModesOutlived (s : State) : Event → Prop
  | .setMode m => m.Valid ∧ Outlives s m
  | _ => True

/-! ### The window of a mode -/

/-- **The window that starts at the first visible pixel of a buffer lies in the buffer.** -/
theorem showsIn_firstPixel (d : VirtMode) (buf : ℕ) :
    ShowsIn d.y d.x (d.fbWidth * 4) (d.firstPixel buf) buf d.fbBytes := by
  intro r hr c hc
  rw [VirtMode.firstPixel, d.fbBytes_eq, d.fbHeight_eq]
  refine ⟨by omega, ?_⟩
  -- the rows above the window, the rows in it, and the row of the pixel
  have hrows : (r + d.ovy + 1) * d.fbWidth ≤ (d.y + d.ovy) * d.fbWidth :=
    Nat.mul_le_mul_right _ (by omega)
  have hrow : d.ovx + c + 1 ≤ d.fbWidth := by
    have := d.fbWidth_eq
    omega
  calc
    buf + (d.fbWidth * d.ovy + d.ovx) * 4 + r * (d.fbWidth * 4) + c * 4 + 4
      = buf + ((r + d.ovy) * d.fbWidth + (d.ovx + c + 1)) * 4 := by ring
    _ ≤ buf + (r + d.ovy + 1) * d.fbWidth * 4 := by
      rw [Nat.succ_mul]
      omega
    _ ≤ buf + (d.y + d.ovy) * d.fbWidth * 4 := by omega
    _ = buf + d.fbWidth * (d.y + d.ovy) * 4 := by ring

/-- A window at the old address of the layer lies in a new buffer if it fits. -/
theorem ModeCall.Valid.showsIn_iff_fits {m : ModeCall} (hm : m.Valid) (ladd buf : ℕ) :
    ShowsIn m.mode.y m.mode.x (m.mode.fbWidth * 4) ladd buf m.mode.fbBytes ↔ m.Fits ladd buf :=
  showsIn_iff hm.y_pos hm.x_pos

/-! ### What a call leaves behind -/

section Calls

variable {s : State} {m : ModeCall}

/-- **What `display_set_mode` does**: it changes the mode and the buffers, and of the layer in
use all registers on the digital output, but not the address on the analog output. -/
theorem displaySetMode_eq (s : State) (m : ModeCall) :
    displaySetMode s m =
      { s with
        dsp := m.mode, framebuffer1 := m.block1, framebuffer2 := m.block2,
        activeBuffer := m.block1,
        mixer0 := if s.isDigital then
            ⟨deSize m.x m.y, m.mode.fbWidth * 4, m.mode.firstPixel m.block1⟩ else s.mixer0,
        mixer1 := if s.isDigital then s.mixer1 else
            ⟨deSize m.x m.y, m.mode.fbWidth * 4, s.mixer1.topLadd⟩ } := by
  cases hd : s.isDigital with
  | true => simp only [displaySetMode, hd, if_true, de2Init]; rfl
  | false => simp only [displaySetMode, hd, Bool.false_eq_true, if_false, tveDe2Init]; rfl

@[simp] theorem displaySetMode_dsp : (displaySetMode s m).dsp = m.mode := by
  rw [displaySetMode_eq]

@[simp] theorem displaySetMode_framebuffer1 : (displaySetMode s m).framebuffer1 = m.block1 := by
  rw [displaySetMode_eq]

@[simp] theorem displaySetMode_framebuffer2 : (displaySetMode s m).framebuffer2 = m.block2 := by
  rw [displaySetMode_eq]

@[simp] theorem displaySetMode_visibleBuffer :
    (displaySetMode s m).visibleBuffer = s.visibleBuffer := by
  rw [displaySetMode_eq]

theorem displaySetMode_layer (s : State) (m : ModeCall) :
    (displaySetMode s m).layer = ⟨deSize m.x m.y, m.mode.fbWidth * 4,
      if s.isDigital then m.mode.firstPixel m.block1 else s.mixer1.topLadd⟩ := by
  rw [State.layer, displaySetMode_eq]
  cases s.isDigital <;> rfl

/-- The buffer that `display_swap_buffers` shows. -/
def State.shown (s : State) : ℕ := if s.singleBuffer then s.framebuffer1 else s.activeBuffer

/-- The buffer that is drawn after a swap that shows `buf`. -/
def State.turned (s : State) (buf : ℕ) : ℕ :=
  if s.singleBuffer then buf
  else if buf = s.framebuffer1 then s.framebuffer2
  else if buf = s.framebuffer2 then s.framebuffer1
  else buf

/-- **What `display_swap_buffers` does**, on either output: it shows a buffer from its first
visible pixel on, and turns to the other. -/
theorem displaySwapBuffers_eq (s : State) :
    displaySwapBuffers s =
      { s with
        visibleBuffer := s.shown, activeBuffer := s.turned s.shown,
        mixer0 := if s.isDigital then { s.mixer0 with topLadd := s.dsp.firstPixel s.shown }
          else s.mixer0,
        mixer1 := if s.isDigital then s.mixer1
          else { s.mixer1 with topLadd := s.dsp.firstPixel s.shown } } := by
  cases hd : s.isDigital <;> cases hs : s.singleBuffer <;>
    simp only [displaySwapBuffers, State.shown, State.turned, tveSetVisibleBuffer, hd, hs, if_true,
      Bool.false_eq_true, if_false]
  all_goals split_ifs <;> rfl

theorem State.turned_cases (s : State) (buf : ℕ) :
    s.turned buf = buf ∨ s.turned buf = s.framebuffer1 ∨ s.turned buf = s.framebuffer2 := by
  unfold State.turned
  split_ifs <;> simp

/-- What is left alone, and which buffers it turns to. -/
theorem displaySwapBuffers_spec (s : State) :
    let t := displaySwapBuffers s
    t.isDigital = s.isDigital ∧ t.dsp = s.dsp ∧ t.framebuffer1 = s.framebuffer1 ∧
      t.framebuffer2 = s.framebuffer2 ∧ t.visibleBuffer = s.shown ∧
      t.layer = { s.layer with topLadd := s.dsp.firstPixel s.shown } ∧
      (t.activeBuffer = s.shown ∨ t.activeBuffer = s.framebuffer1 ∨
        t.activeBuffer = s.framebuffer2) := by
  rw [displaySwapBuffers_eq]
  refine ⟨rfl, rfl, rfl, rfl, rfl, ?_, s.turned_cases s.shown⟩
  rw [State.layer, State.layer]
  cases s.isDigital <;> rfl

end Calls

/-! ### The invariant of all runs -/

/-- **What holds whatever is called**: the buffer that is drawn is one of the two, and the
layer has the pitch of the mode. -/
structure DisplayInv (s : State) : Prop where
  active : s.activeBuffer = s.framebuffer1 ∨ s.activeBuffer = s.framebuffer2
  pitch : s.dsp.y = 0 ∨ s.layer.pitch = s.dsp.fbWidth * 4

theorem displayInv_init (isDigital : Bool) (mixer0 mixer1 : Layer) :
    DisplayInv (.init isDigital mixer0 mixer1) :=
  ⟨Or.inl rfl, Or.inl rfl⟩

theorem DisplayInv.shown {s : State} (hinv : DisplayInv s) :
    s.shown = s.framebuffer1 ∨ s.shown = s.framebuffer2 := by
  unfold State.shown
  split
  · exact Or.inl rfl
  · exact hinv.active

theorem DisplayInv.setMode (s : State) (m : ModeCall) : DisplayInv (displaySetMode s m) where
  active := Or.inl (by rw [displaySetMode_eq])
  pitch := Or.inr (by rw [displaySetMode_layer, displaySetMode_dsp])

theorem DisplayInv.swapBuffers {s : State} (hinv : DisplayInv s) :
    DisplayInv (displaySwapBuffers s) := by
  obtain ⟨-, hdsp, hfb1, hfb2, -, hlayer, hactive⟩ := displaySwapBuffers_spec s
  constructor
  · rw [hfb1, hfb2]
    rcases hactive with hactive | hactive
    · rw [hactive]
      exact hinv.shown
    · exact hactive
  · rw [hdsp, hlayer]
    exact hinv.pitch

theorem displayInv_step {s : State} (hinv : DisplayInv s) (e : Event) :
    DisplayInv (displayStep s e).2 := by
  cases e with
  | setMode m => exact DisplayInv.setMode s m
  | swapBuffers => exact hinv.swapBuffers
  | setSingleBuffer on => exact ⟨hinv.active, hinv.pitch⟩

/-! ### One call -/

/-- **A swap is always right**, in whatever state it is called. -/
theorem scanOk_swap {s : State} (hinv : DisplayInv s) : ScanOk (displaySwapBuffers s) := by
  obtain ⟨-, hdsp, hfb1, hfb2, hvisible, hlayer, -⟩ := displaySwapBuffers_spec s
  have hshows : (displaySwapBuffers s).Shows s.shown := by
    rw [State.Shows, hdsp, hlayer]
    rcases hinv.pitch with hzero | hpitch
    · intro r hr
      omega
    · simp only [hpitch]
      exact showsIn_firstPixel s.dsp s.shown
  constructor
  · rw [hdsp, hlayer]
    intro hy
    rcases hinv.pitch with hzero | hpitch
    · omega
    · exact hpitch
  · rw [hfb1, hfb2]
    rcases hinv.shown with hshown | hshown
    · exact Or.inl (hshown ▸ hshows)
    · exact Or.inr (hshown ▸ hshows)
  · rw [hvisible, hfb1, hfb2]
    exact Or.inr hinv.shown

/-- The window after a change of the mode: on the digital output it lies in the first of the
new buffers, on the analog output it stays where it was. -/
theorem shows_setMode_iff {s : State} {m : ModeCall} (hm : m.Valid) :
    ((displaySetMode s m).Shows m.block1 ∨ (displaySetMode s m).Shows m.block2) ↔
      (s.isDigital = false →
        m.Fits s.mixer1.topLadd m.block1 ∨ m.Fits s.mixer1.topLadd m.block2) := by
  cases hd : s.isDigital with
  | true =>
    refine iff_of_true (Or.inl ?_) (by simp)
    rw [State.Shows, displaySetMode_layer, hd, displaySetMode_dsp]
    exact showsIn_firstPixel m.mode m.block1
  | false =>
    simp only [State.Shows, displaySetMode_layer, hd, displaySetMode_dsp, Bool.false_eq_true,
      if_false, hm.showsIn_iff_fits, true_implies]

/-- **When a change of the mode is right**: if and only if what it leaves as it was outlives
the change. -/
theorem scanOk_setMode_iff {s : State} {m : ModeCall} (hm : m.Valid) :
    ScanOk (displaySetMode s m) ↔ Outlives s m := by
  constructor
  · intro hok
    refine ⟨by simpa using hok.visible, (shows_setMode_iff hm).mp ?_⟩
    simpa using hok.window
  · rintro ⟨hvisible, hfits⟩
    refine ⟨fun hy => ?_, by simpa using (shows_setMode_iff hm).mpr hfits, by simpa using hvisible⟩
    rcases (DisplayInv.setMode s m).pitch with hzero | hpitch
    · omega
    · exact hpitch

/-! ### Every run -/

theorem scanOk_init (isDigital : Bool) (mixer0 mixer1 : Layer) :
    ScanOk (.init isDigital mixer0 mixer1) where
  pitch hy := absurd hy (by simp [State.init, VirtMode.of])
  window := Or.inl fun r hr => absurd hr (by simp [State.init, VirtMode.of])
  visible := Or.inl rfl

/-- **No freed memory is scanned out** after any history of calls in which every change of the
mode is made in a state that outlives it. -/
theorem scanOk_of_modesOutlived {isDigital : Bool} {mixer0 mixer1 : Layer}
    {h : List (Event × Unit)} {s : State}
    (hr : Reach (fnStep displayStep) ModesOutlived (.init isDigital mixer0 mixer1) h s) :
    ScanOk s := by
  refine (hr.fnInvariant (fun _ s => DisplayInv s ∧ ScanOk s)
    ⟨displayInv_init _ _ _, scanOk_init _ _ _⟩ ?_).2
  rintro h s e ⟨hinv, hok⟩ hguard
  refine ⟨displayInv_step hinv e, ?_⟩
  cases e with
  | setMode m => exact (scanOk_setMode_iff hguard.1).mpr hguard.2
  | swapBuffers => exact scanOk_swap hinv
  | setSingleBuffer on => exact ⟨hok.pitch, hok.window, hok.visible⟩

/-- The layers as `tve_init` leaves that of mixer 1: it shows the program text. -/
def layerZero : Layer := ⟨0, 0, 0⟩
def layerText : Layer := ⟨deSize 720 576, 0xB40, 0x40000000⟩

/-- A picture of 640 by 480, and one of 800 by 600. -/
def mode640 : ModeCall := ⟨640, 480, 0, 0, 0x50000000, 0x50200000⟩
def mode800 : ModeCall := ⟨800, 600, 16, 8, 0x51000000, 0x51400000⟩

theorem mode640_valid : mode640.Valid := by
  constructor <;> decide

theorem mode800_valid : mode800.Valid := by
  constructor <;> decide

/-- On the digital output a mode is set once, and buffers are swapped ever after. -/
theorem scanOk_of_modesOutlived_digital :
    ScanOk (runFn displayStep [] (.init true layerZero layerText)
      [.setMode mode800, .swapBuffers, .swapBuffers]).2 :=
  scanOk_of_modesOutlived
    (reach_runFn ⟨⟨mode800_valid, Or.inl rfl, by simp [State.init]⟩, trivial, trivial, trivial⟩)

/-- **A change of the mode leaves the engine in other memory.** On the analog output the first
mode leaves the layer at the program text; on the digital output, and with any, a second mode
leaves the visible buffer a buffer that has been freed. -/
theorem not_scanOk_setMode :
    let analog := runFn displayStep [] (.init false layerZero layerText) [.setMode mode640]
    let digital := runFn displayStep [] (.init true layerZero layerText)
      [.setMode mode640, .swapBuffers, .setMode mode800]
    (Reach (fnStep displayStep) ModesValid (.init false layerZero layerText) analog.1 analog.2 ∧
      analog.2.layer.topLadd = 0x40000000 ∧ ¬ScanOk analog.2) ∧
    (Reach (fnStep displayStep) ModesValid (.init true layerZero layerText)
        digital.1 digital.2 ∧
      digital.2.visibleBuffer = mode640.block1 ∧ ¬ScanOk digital.2) := by
  refine ⟨⟨reach_runFn ⟨mode640_valid, trivial⟩, rfl, ?_⟩,
    ⟨reach_runFn ⟨mode640_valid, trivial, mode800_valid, trivial⟩, by decide, ?_⟩⟩
  · -- the first pixel lies below both buffers
    intro hok
    rcases hok.window with hin | hin
    · exact absurd (hin 0 (by decide) 0 (by decide)).1 (by decide)
    · exact absurd (hin 0 (by decide) 0 (by decide)).1 (by decide)
  · intro hok
    exact absurd hok.visible (by decide)

end Display

end BareMetal
