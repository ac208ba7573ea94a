import BareMetal.LibcIo.Descriptors
import BareMetal.Usb.Drives

/-!
# The lock around FatFs

FatFs is built without its own locking, so two of its calls must never overlap, and with four
cores it is `fs_lock_v` of `libc_io.c` that has to keep them apart. Every file and directory
call there makes its one FatFs call **between `fs_lock` and `fs_unlock`**. The hot-plug paths
– `sd_detect`, and the mass-storage callbacks that `usb_task` runs – call `f_mount` without
it.

What an entry point does to the lock is a list of sections (`BareMetal.LibcIo.script`), each
under the lock or **bare**. The cores run their scripts in any interleaving; taking the lock,
releasing it, and entering and leaving FatFs are the steps. The calls exclude each other
(`BareMetal.LibcIo.FsExclusive`) in the interleavings that serialize the hot-plug calls
(`BareMetal.LibcIo.fsExclusive_of_serialized`), and not in all.

The branches of an entry point that decide whether it gets as far as FatFs depend on its
arguments and on tables modelled elsewhere; here they are part of the call.
-/

namespace BareMetal

namespace LibcIo

open Usb (UsbDrives MscEvent UsbCall mscStep)

/-! ### What the entry points do -/

/-- The FatFs functions the program calls; `f_unmount` is `f_mount`, `f_rmdir` is
`f_unlink`. -/
inductive Api where
  | fOpen | fRead | fWrite | fLseek | fClose | fUnlink | fOpendir | fClosedir | fReaddir | fChdir
  | fGetcwd | fStat | fRename | fMkdir | fMount
  deriving DecidableEq, Repr

/-- A part of an entry point that matters to the lock. -/
inductive Section where
  /-- From `fs_lock` to `fs_unlock`, with the FatFs call in between if there is one. -/
  | locked (api : Option Api)
  /-- A FatFs call without the lock. -/
  | bare (api : Api)
  deriving DecidableEq, Repr

/-- A call of one of the functions that reach FatFs, with what its branches depend on. -/
inductive EntryPoint where
  | writeR (fd : ℤ)
  | readR (fd : ℤ)
  | lseekR (fd : ℤ) (dir : Whence)
  | fstatR (fd : ℤ)
  /-- `slot`: some slot is free. -/
  | openR (slot : Bool)
  | closeR (fd : ℤ)
  | unlinkR
  /-- `mem`: there is memory for the `DIR`. -/
  | opendir (mem : Bool)
  | closedir
  | readdir
  | chdir
  | getcwd
  | statR
  | renameR
  | mkdir
  | rmdir
  /-- The flag, the pin, and whether `disk_initialize` succeeds. -/
  | sdDetect (detected pin initOk : Bool)
  /-- The callbacks of one round of the host stacks, each with the table it finds. -/
  | usbTask (cbs : List (UsbDrives × MscEvent))

/-- The sections of a callback: it mounts or unmounts without the lock. -/
def callSections : UsbCall → List Section
  | .controller .. => []
  | .fMount .. => [.bare .fMount]
  | .fUnmount .. => [.bare .fMount]

/-- The FatFs call of a function that looks up its descriptor under the lock. -/
def onDescr (fd : ℤ) (api : Api) : List Section :=
  [.locked ((getDescr fd).map fun _ => api)]

/-- What an entry point does to the lock and to FatFs. -/
def script : EntryPoint → List Section
  | .writeR fd => if fd = 1 ∨ fd = 2 then [] else onDescr fd .fWrite
  | .readR fd => if fd = 1 ∨ fd = 2 then [] else onDescr fd .fRead
  | .lseekR fd dir => if dir = .other then [.locked none] else onDescr fd .fLseek
  | .fstatR _ => [.locked none]
  | .openR slot => [.locked (if slot then some .fOpen else none)]
  | .closeR fd => onDescr fd .fClose
  | .unlinkR => [.locked (some .fUnlink)]
  | .opendir mem => if mem then [.locked (some .fOpendir)] else []
  | .closedir => [.locked (some .fClosedir)]
  | .readdir => [.locked (some .fReaddir)]
  | .chdir => [.locked (some .fChdir)]
  | .getcwd => [.locked (some .fGetcwd)]
  | .statR => [.locked (some .fStat)]
  | .renameR => [.locked (some .fRename)]
  | .mkdir => [.locked (some .fMkdir)]
  | .rmdir => [.locked (some .fUnlink)]
  | .sdDetect detected pin initOk =>
      if !detected && !pin then
        -- `fs_init` returns before `f_mount` if the drive is not ready
        if initOk then [.bare .fMount] else []
      else if detected && pin then [.bare .fMount]
      else []
  | .usbTask cbs => cbs.flatMap fun cb => (mscStep cb.1 cb.2).1.calls.flatMap callSections

/-! ### Four cores -/

/-- Where a core is. -/
inductive Phase where
  /-- Neither in FatFs nor holding the lock. -/
  | outside
  /-- It holds the lock, and this is the call it has yet to make. -/
  | holding (api : Option Api)
  /-- In FatFs, with the lock. -/
  | inLocked (api : Api)
  /-- In FatFs, without it. -/
  | inBare (api : Api)
  deriving DecidableEq, Repr

/-- A core: where it is and the sections it has not begun. -/
structure Core where
  phase : Phase
  todo : List Section
  deriving DecidableEq, Repr

/-- `fs_lock_v` and the cores. -/
structure FsCores where
  lockV : Bool
  core : Fin 4 → Core

/-- Power-on. -/
def FsCores.init : FsCores := ⟨false, fun _ => ⟨.outside, []⟩⟩

/-- What happens next: an idle core calls a function, or a core gets a turn. -/
inductive FsEvent where
  | call (c : Fin 4) (e : EntryPoint)
  | run (c : Fin 4)

/-- Replace a core. -/
def FsCores.setCore (s : FsCores) (c : Fin 4) (core : Core) : FsCores :=
  { s with core := Function.update s.core c core }

/-- A turn of a core: `fs_lock` goes through if the lock is free and spins otherwise, a
FatFs call begins or ends, or `fs_unlock`. -/
def turn (s : FsCores) (c : Fin 4) : FsCores :=
  match (s.core c).phase, (s.core c).todo with
  | .outside, [] => s
  | .outside, .locked api :: todo =>
      if s.lockV then s else { s.setCore c ⟨.holding api, todo⟩ with lockV := true }
  | .outside, .bare api :: todo => s.setCore c ⟨.inBare api, todo⟩
  | .holding (some api), todo => s.setCore c ⟨.inLocked api, todo⟩
  | .inLocked _, todo => s.setCore c ⟨.holding none, todo⟩
  | .holding none, todo => { s.setCore c ⟨.outside, todo⟩ with lockV := false }
  | .inBare _, todo => s.setCore c ⟨.outside, todo⟩

/-- One event. -/
def fsStep (s : FsCores) : FsEvent → Unit × FsCores
  | .call c e =>
      ((), if s.core c = ⟨.outside, []⟩ then s.setCore c ⟨.outside, script e⟩ else s)
  | .run c => ((), turn s c)

/-! ### What the lock is for -/

/-- The FatFs call a core is in. -/
def Phase.api : Phase → Option Api
  | .inLocked api | .inBare api => some api
  | _ => none

/-- **No two FatFs calls are in progress at the same time.** -/
def FsExclusive (s : FsCores) : Prop :=
  ∀ c d, (s.core c).phase.api ≠ none → (s.core d).phase.api ≠ none → c = d

/-- The core holds the lock. -/
def Phase.HoldsLock : Phase → Prop
  | .holding _ | .inLocked _ => True
  | _ => False

/-- No hot-plug path is in FatFs. -/
def NoHotplug (s : FsCores) : Prop := ∀ c api, (s.core c).phase ≠ .inBare api

/-- The section a core begins with its next turn. -/
def Core.next (k : Core) : Option Section :=
  if k.phase = .outside then k.todo.head? else none

/-- Hot-plug calls are serialized: one begins while the lock is free and no other is in
progress, and the lock is not taken during one. -/
def Serialized (s : FsCores) : FsEvent → Prop
  | .call .. => True
  | .run c =>
      match (s.core c).next with
      | some (.bare _) => s.lockV = false ∧ NoHotplug s
      | some (.locked _) => s.lockV = false → NoHotplug s
      | none => True

/-! ### The invariant -/

/-- The invariant: whoever holds the lock has set it, and one core at most is anywhere but
outside. -/
structure FsInv (s : FsCores) : Prop where
  locked : ∀ c, (s.core c).phase.HoldsLock → s.lockV = true
  alone : ∀ c d, (s.core c).phase ≠ .outside → (s.core d).phase ≠ .outside → c = d

theorem fsInv_init : FsInv FsCores.init :=
  ⟨fun _ h => h.elim, fun _ _ h => absurd rfl h⟩

/-- With the lock free and no hot-plug path in FatFs, every core is outside. -/
theorem FsInv.outside {s : FsCores} (hinv : FsInv s) (hfree : s.lockV = false)
    (hbare : NoHotplug s) (c : Fin 4) : (s.core c).phase = .outside := by
  have hlock : ¬(s.core c).phase.HoldsLock := fun h => by
    have := hinv.locked c h
    simp [hfree] at this
  cases hphase : (s.core c).phase with
  | outside => rfl
  | holding api => exact absurd (by rw [hphase]; trivial) hlock
  | inLocked api => exact absurd (by rw [hphase]; trivial) hlock
  | inBare api => exact absurd hphase (hbare c api)

/-- While a core is not outside, all others are. -/
theorem FsInv.others {s : FsCores} (hinv : FsInv s) {c : Fin 4}
    (hc : (s.core c).phase ≠ .outside) (d : Fin 4) (hd : d ≠ c) : (s.core d).phase = .outside := by
  by_contra hout
  exact hd (hinv.alone d c hout hc)

/-- One core moves while all others are outside. -/
theorem fsInv_move {s : FsCores} {c : Fin 4} (hothers : ∀ d, d ≠ c → (s.core d).phase = .outside)
    {k : Core} {lockV : Bool} (hk : k.phase.HoldsLock → lockV = true) :
    FsInv ⟨lockV, Function.update s.core c k⟩ where
  locked d hd := by
    by_cases hdc : d = c
    · subst hdc
      simp only [Function.update_self] at hd
      exact hk hd
    · simp only [Function.update_of_ne hdc, hothers d hdc] at hd
      exact hd.elim
  alone d e hd he := by
    have hout : ∀ x, (Function.update s.core c k x).phase ≠ .outside → x = c := by
      intro x hx
      by_contra hxc
      rw [Function.update_of_ne hxc] at hx
      exact hx (hothers x hxc)
    rw [hout d hd, hout e he]

/-- **Every turn keeps the invariant.** -/
theorem fsInv_turn {s : FsCores} (hinv : FsInv s) {c : Fin 4} (hok : Serialized s (.run c)) :
    FsInv (turn s c) := by
  unfold turn
  split
  · exact hinv
  · -- `fs_lock`
    rename_i api todo hphase htodo
    split
    · exact hinv
    · rename_i hfree
      rw [Bool.not_eq_true] at hfree
      have hbare : NoHotplug s := by
        simp only [Serialized, Core.next, hphase, htodo, if_true, List.head?_cons] at hok
        exact hok hfree
      exact fsInv_move (fun d _ => hinv.outside hfree hbare d) fun _ => rfl
  · -- a hot-plug path enters FatFs
    rename_i api todo hphase htodo
    simp only [Serialized, Core.next, hphase, htodo, if_true, List.head?_cons] at hok
    exact fsInv_move (fun d _ => hinv.outside hok.1 hok.2 d) fun h => h.elim
  · rename_i api hphase
    exact fsInv_move (hinv.others (by simp [hphase])) fun _ =>
      hinv.locked c (by rw [hphase]; trivial)
  · rename_i api hphase
    exact fsInv_move (hinv.others (by simp [hphase])) fun _ =>
      hinv.locked c (by rw [hphase]; trivial)
  · rename_i hphase
    exact fsInv_move (hinv.others (by simp [hphase])) fun h => h.elim
  · rename_i api hphase
    exact fsInv_move (hinv.others (by simp [hphase])) fun h => h.elim

theorem fsInv_call {s : FsCores} (hinv : FsInv s) (c : Fin 4) (e : EntryPoint) :
    FsInv (fsStep s (.call c e)).2 := by
  unfold fsStep
  dsimp only
  split
  · rename_i hidle
    have hphase : ∀ d, ((s.setCore c ⟨.outside, script e⟩).core d).phase = (s.core d).phase := by
      intro d
      by_cases hd : d = c
      · subst hd
        simp only [FsCores.setCore, Function.update_self, hidle]
      · simp only [FsCores.setCore, Function.update_of_ne hd]
    exact ⟨fun d hd => hinv.locked d (by rwa [hphase] at hd),
      fun d d' hd hd' => hinv.alone d d' (by rwa [hphase] at hd) (by rwa [hphase] at hd')⟩
  · exact hinv

/-! ### Every run -/

theorem FsInv.exclusive {s : FsCores} (hinv : FsInv s) : FsExclusive s := by
  have hout : ∀ c, (s.core c).phase.api ≠ none → (s.core c).phase ≠ .outside := by
    intro c hc hcon
    rw [hcon] at hc
    exact hc rfl
  exact fun c d hc hd => hinv.alone c d (hout c hc) (hout d hd)

/-- **The lock keeps the FatFs calls of four cores apart** in every interleaving that
serializes the hot-plug calls, which do not take it. -/
theorem fsExclusive_of_serialized {h : List (FsEvent × Unit)} {s : FsCores}
    (hr : Reach (fnStep fsStep) Serialized FsCores.init h s) : FsExclusive s := by
  have hinv : FsInv s := by
    refine hr.fnInvariant (fun _ => FsInv) fsInv_init ?_
    intro h s e hinv hok
    cases e with
    | call c e => exact fsInv_call hinv c e
    | run c => exact fsInv_turn hinv hok
  exact hinv.exclusive

/-- Core 1 is in `f_read` while core 0 spins on the lock. -/
theorem fsExclusive_of_serialized_spin :
    let r := runFn fsStep [] FsCores.init
      [.call 1 (.readR 3), .call 0 .unlinkR, .run 1, .run 1, .run 0]
    FsExclusive r.2 ∧ (r.2.core 1).phase = .inLocked .fRead ∧
      (r.2.core 0).todo = [.locked (some .fUnlink)] := by
  intro r
  have hout : ∀ c, ((runFn fsStep [] FsCores.init
      [.call 1 (.readR 3), .call 0 .unlinkR]).2.core c).phase = .outside := by decide
  have hnone : NoHotplug (runFn fsStep [] FsCores.init
      [.call 1 (.readR 3), .call 0 .unlinkR]).2 := by
    intro c api
    rw [hout c]
    simp
  have hreach : Reach (fnStep fsStep) Serialized FsCores.init r.1 r.2 :=
    reach_runFn ⟨trivial, trivial, fun _ => hnone, trivial, fun hfree => absurd hfree (by decide),
      trivial⟩
  exact ⟨fsExclusive_of_serialized hreach, by decide, by decide⟩

/-- **A card is mounted in the middle of a read.** Core 0 finds a card and is in `f_mount`,
without the lock, when core 1 takes the free lock and enters `f_read`. -/
theorem not_fsExclusive_cardIn :
    let r := runFn fsStep [] FsCores.init
      [.call 0 (.sdDetect false false true), .run 0, .call 1 (.readR 3), .run 1, .run 1]
    Reach (fnStep fsStep) Always FsCores.init r.1 r.2 ∧ (r.2.core 0).phase.api = some .fMount ∧
      (r.2.core 1).phase.api = some .fRead ∧ ¬FsExclusive r.2 := by
  intro r
  refine ⟨reach_runFn okAlong_always, by decide, by decide, fun hex => ?_⟩
  exact absurd (hex 0 1 (by decide) (by decide)) (by decide)

/-! ### Without hot-plug -/

/-- The entry points that call FatFs without the lock. -/
def EntryPoint.Hotplug : EntryPoint → Prop
  | .sdDetect .. | .usbTask _ => True
  | _ => False

/-- **Every file and directory call makes its FatFs call under the lock.** -/
theorem bare_notMem_script {e : EntryPoint} (he : ¬e.Hotplug) (api : Api) :
    .bare api ∉ script e := by
  cases e with
  | sdDetect detected pin initOk => exact absurd trivial he
  | usbTask cbs => exact absurd trivial he
  | writeR fd => simp only [script]; split <;> simp [onDescr]
  | readR fd => simp only [script]; split <;> simp [onDescr]
  | lseekR fd dir => simp only [script]; split <;> simp [onDescr]
  | opendir mem => simp only [script]; split <;> simp
  | _ => simp [script, onDescr]

/-- A core that is in no hot-plug path. -/
structure Core.Bareless (k : Core) : Prop where
  phase : ∀ api, k.phase ≠ .inBare api
  todo : ∀ api, .bare api ∉ k.todo

theorem bareless_setCore {s : FsCores} (hs : ∀ d, (s.core d).Bareless) {k : Core}
    (hk : k.Bareless) (c d : Fin 4) : (Function.update s.core c k d).Bareless := by
  by_cases hd : d = c
  · subst hd
    rwa [Function.update_self]
  · rw [Function.update_of_ne hd]
    exact hs d

theorem bareless_turn {s : FsCores} (hs : ∀ d, (s.core d).Bareless) (c : Fin 4) :
    ∀ d, ((turn s c).core d).Bareless := by
  have htail : ∀ {x todo}, (s.core c).todo = x :: todo → ∀ api, .bare api ∉ todo := by
    intro x todo htodo api hmem
    exact (hs c).todo api (by rw [htodo]; exact List.mem_cons_of_mem x hmem)
  unfold turn
  split
  · exact hs
  · rename_i htodo
    split
    · exact hs
    · refine bareless_setCore hs ?_ c
      exact ⟨by simp, htail htodo⟩
  · rename_i api todo hphase htodo
    exact absurd (by rw [htodo]; exact List.mem_cons_self) ((hs c).todo api)
  -- in the other phases the list of sections stays
  all_goals
    refine bareless_setCore hs ?_ c
    exact ⟨by simp, (hs c).todo⟩

theorem serialized_of_bareless {s : FsCores} (hs : ∀ d, (s.core d).Bareless) (c : Fin 4) :
    Serialized s (.run c) := by
  simp only [Serialized]
  split
  · rename_i api hnext
    unfold Core.next at hnext
    split at hnext
    · exact absurd (List.mem_of_head? hnext) ((hs c).todo api)
    · simp at hnext
  · exact fun _ d => (hs d).phase
  · trivial

/-- **The file and directory calls exclude each other** in every interleaving of four
cores. -/
theorem fsExclusive_of_files {h : List (FsEvent × Unit)} {s : FsCores}
    (hr : Reach (fnStep fsStep) (fun _ ev => ∀ c e, ev = .call c e → ¬e.Hotplug) FsCores.init h s) :
    FsExclusive s := by
  have hinv : FsInv s ∧ ∀ d, (s.core d).Bareless := by
    refine hr.fnInvariant (fun _ s => FsInv s ∧ ∀ d, (s.core d).Bareless)
      ⟨fsInv_init, fun _ => ⟨by simp [FsCores.init], by simp [FsCores.init]⟩⟩ ?_
    rintro h s e ⟨hinv, hbare⟩ hok
    cases e with
    | call c e =>
      refine ⟨fsInv_call hinv c e, ?_⟩
      unfold fsStep
      dsimp only
      split
      · exact bareless_setCore hbare ⟨by simp, bare_notMem_script (hok c e rfl)⟩ c
      · exact hbare
    | run c => exact ⟨fsInv_turn hinv (serialized_of_bareless hbare c), bareless_turn hbare c⟩
  exact hinv.1.exclusive

end LibcIo

end BareMetal
