import BareMetal.LibcIo.FsLock
import Mathlib.Tactic.Common

/-!
# What a file call does to the lock

The entry points of `libc_io.c` once more, with all their branches: each is a small program
(`BareMetal.LibcIo.Neutral.Prog`) that takes and releases `fs_lock_v`, allocates and frees its
bounce buffer, and calls FatFs, which answers with any result.

A program **is neutral** if it takes the lock once at most, calls FatFs only while it holds it,
and has released it when it returns (`BareMetal.LibcIo.Neutral.Prog.Ok`). All are
(`BareMetal.LibcIo.Neutral.ok_prog`), whatever their arguments, and the sections they go through
are those of the coarser model (`BareMetal.LibcIo.Neutral.does_script`).

That is not enough for the system, because FatFs calls back. It runs a disk driver, and a driver
may print or allocate; then the C library calls the entry points again, on a core that holds the
lock. `_write_r` and `_read_r` return at once for the console, `_isatty_r` and `_sbrk_r` have
no use for the lock, but `_fstat_r`, `_lseek_r` and `_close_r` take it for any descriptor. So
the system is neutral (`BareMetal.LibcIo.Neutral.LockNeutral`) in the runs in which the C library
only calls the former there (`BareMetal.LibcIo.Neutral.lockNeutral_of_quiet`), and a core that
prints for the first time while it is in FatFs stops at a lock of its own.

Which of its subroutines `printf` calls is for the C library to say. It is documented to need
`close`, `fstat`, `isatty`, `lseek`, `read`, `sbrk` and `write`, and any sequence of them is
allowed here; `malloc` needs `sbrk`. Taking and releasing a spinlock are single steps
(`BareMetal.Spinlock.refines_of_unlocksHeld`).
-/

namespace BareMetal

namespace LibcIo

namespace Neutral

open FatFs (FResult)

/-! ### The code -/

/-- How a call returns: with a result, or with a failure and what it stores in `errno`. -/
inductive Outcome where
  | ok
  | failed (errno : Option Errno)
  deriving DecidableEq, Repr

/-- **The rest of a call**: what it does next, and what follows on each answer. -/
inductive Prog where
  | done (o : Outcome)
  | fsLock (k : Prog)
  | fsUnlock (k : Prog)
  /-- Whether there is memory. -/
  | malloc (k : Bool → Prog)
  | free (k : Prog)
  /-- Whether the search of `_open_r` finds a slot. -/
  | findSlot (k : Bool → Prog)
  | fatFs (api : Api) (k : FResult → Prog)

/-- `fs_unlock_ret`. -/
def fsUnlockRet (o : Outcome) : Prog := .fsUnlock (.done o)

/-- `if (free_tmp_buffer) free(bbuf)`. -/
def freeTmp (tmp : Bool) (k : Prog) : Prog := if tmp then .free k else k

/-- The end of `_read_r` and `_write_r`, which work on a bounce buffer if `tmp`. -/
def transfer (api : Api) (fd : ℤ) (tmp : Bool) : Prog :=
  .fsLock <|
    match getDescr fd with
    | none => freeTmp tmp <| fsUnlockRet (.failed (some .ebadf))
    | some _ => .fatFs api fun rc =>
        if rc ≠ .ok then freeTmp tmp <| fsUnlockRet (.failed (rc2errno rc))
        else freeTmp tmp <| fsUnlockRet .ok

/-- `_write_r`. -/
def writeR (fd : ℤ) (buf : ℕ) : Prog :=
  if fd = 1 ∨ fd = 2 then .done .ok
  else if buf % 4 ≠ 0 then .malloc fun _ => transfer .fWrite fd true
  else transfer .fWrite fd false

/-- `_read_r`. -/
def readR (fd : ℤ) (ptr : ℕ) : Prog :=
  if fd = 1 ∨ fd = 2 then .done (.failed none)
  else if ptr % 4 ≠ 0 then .malloc fun _ => transfer .fRead fd true
  else transfer .fRead fd false

/-- `_lseek_r`. -/
def lseekR (fd : ℤ) (dir : Whence) : Prog :=
  .fsLock <|
    match getDescr fd with
    | none => fsUnlockRet (.failed (some .ebadf))
    | some _ =>
        if dir = .other then fsUnlockRet (.failed (some .einval))
        else .fatFs .fLseek fun rc =>
          if rc ≠ .ok then fsUnlockRet (.failed (rc2errno rc)) else fsUnlockRet .ok

/-- `_fstat_r`. -/
def fstatR (fd : ℤ) : Prog :=
  .fsLock <|
    match getDescr fd with
    | none => fsUnlockRet (.failed (some .ebadf))
    | some _ => fsUnlockRet .ok

/-- `_open_r`. -/
def openR : Prog :=
  .fsLock <| .findSlot fun slot =>
    if slot = false then fsUnlockRet (.failed (some .enomem))
    else .fatFs .fOpen fun rc =>
      if rc ≠ .ok then fsUnlockRet (.failed (rc2errno rc)) else fsUnlockRet .ok

/-- `_close_r`. -/
def closeR (fd : ℤ) : Prog :=
  .fsLock <|
    match getDescr fd with
    | none => fsUnlockRet (.failed (some .ebadf))
    | some _ => .fatFs .fClose fun rc =>
        if rc ≠ .ok then fsUnlockRet (.failed (rc2errno rc)) else fsUnlockRet .ok

/-- The functions that make one FatFs call under the lock and look at its result afterwards. -/
def around (api : Api) (k : FResult → Prog) : Prog :=
  .fsLock <| .fatFs api fun rc => .fsUnlock (k rc)

/-- The result of most of them. -/
def doneRc (rc : FResult) : Prog := if rc ≠ .ok then .done (.failed (rc2errno rc)) else .done .ok

def unlinkR : Prog := around .fUnlink doneRc
def readdir : Prog := around .fReaddir doneRc
def chdir : Prog := around .fChdir doneRc
def getcwd : Prog := around .fGetcwd doneRc
def statR : Prog := around .fStat doneRc
def renameR : Prog := around .fRename doneRc
def mkdir : Prog := around .fMkdir doneRc
def rmdir : Prog := around .fUnlink doneRc

/-- `opendir` allocates the directory first, and frees it again if it cannot be opened. -/
def opendir : Prog :=
  .malloc fun mem =>
    if mem = false then .done (.failed (some .enomem))
    else around .fOpendir fun rc =>
      if rc ≠ .ok then .free (.done (.failed (rc2errno rc))) else .done .ok

/-- `closedir`. -/
def closedir : Prog :=
  around .fClosedir fun rc =>
    if rc ≠ .ok then .done (.failed (rc2errno rc)) else .free (.done .ok)

/-- A call of the file layer; `_isatty_r` and `_sbrk_r` are those that have no use for the
lock. -/
inductive Call where
  | writeR (fd : ℤ) (buf : ℕ)
  | readR (fd : ℤ) (ptr : ℕ)
  | lseekR (fd : ℤ) (dir : Whence)
  | fstatR (fd : ℤ)
  | openR
  | closeR (fd : ℤ)
  | unlinkR
  | opendir
  | closedir
  | readdir
  | chdir
  | getcwd
  | statR
  | renameR
  | mkdir
  | rmdir
  | isattyR (fd : ℤ)
  | sbrkR (incr : ℤ)
  deriving DecidableEq, Repr

/-- What is run for a call. -/
def Call.prog : Call → Prog
  | .writeR fd buf => Neutral.writeR fd buf
  | .readR fd ptr => Neutral.readR fd ptr
  | .lseekR fd dir => Neutral.lseekR fd dir
  | .fstatR fd => Neutral.fstatR fd
  | .openR => Neutral.openR
  | .closeR fd => Neutral.closeR fd
  | .unlinkR => Neutral.unlinkR
  | .opendir => Neutral.opendir
  | .closedir => Neutral.closedir
  | .readdir => Neutral.readdir
  | .chdir => Neutral.chdir
  | .getcwd => Neutral.getcwd
  | .statR => Neutral.statR
  | .renameR => Neutral.renameR
  | .mkdir => Neutral.mkdir
  | .rmdir => Neutral.rmdir
  | .isattyR _ => .done .ok
  | .sbrkR _ => .done .ok

/-! ### The cores -/

/-- A function in progress: one of ours, or a FatFs call, with what follows on its result. -/
inductive Frame where
  | prog (p : Prog)
  | inFatFs (api : Api) (k : FResult → Prog)

/-- A core: its frames, the innermost first, whether it holds the lock, and how often it has
taken it since its outermost call began. -/
structure Core where
  frames : List Frame
  holds : Bool
  acquired : ℕ

/-- `fs_lock_v` and the cores. -/
structure Cores where
  lockV : Bool
  core : Fin 4 → Core

/-- Power-on. -/
def Cores.init : Cores := ⟨false, fun _ => ⟨[], false, 0⟩⟩

/-- The subroutines that `printf` is documented to need. -/
inductive Subroutine where
  | close (fd : ℤ)
  | fstat (fd : ℤ)
  | isatty (fd : ℤ)
  | lseek (fd : ℤ) (dir : Whence)
  | read (fd : ℤ) (ptr : ℕ)
  | sbrk (incr : ℤ)
  | write (fd : ℤ) (buf : ℕ)
  deriving DecidableEq, Repr

def Subroutine.call : Subroutine → Call
  | .close fd => .closeR fd
  | .fstat fd => .fstatR fd
  | .isatty fd => .isattyR fd
  | .lseek fd dir => .lseekR fd dir
  | .read fd ptr => .readR fd ptr
  | .sbrk incr => .sbrkR incr
  | .write fd buf => .writeR fd buf

/-- What a driver does while FatFs waits for it, with the subroutines the C library calls. -/
inductive Callback where
  | printf (subs : List Subroutine)
  | malloc (incrs : List ℤ)
  deriving DecidableEq, Repr

def Callback.calls : Callback → List Call
  | .printf subs => subs.map Subroutine.call
  | .malloc incrs => incrs.map Call.sbrkR

/-- What happens next on a core: a call, a turn, a callback from FatFs, or the end of a FatFs
call. The Boolean of a turn answers the questions of `Prog`. -/
inductive Event where
  | call (c : Fin 4) (e : Call)
  | run (c : Fin 4) (b : Bool)
  | callback (c : Fin 4) (cb : Callback)
  | answer (c : Fin 4) (rc : FResult)
  deriving DecidableEq

/-- A turn of a core: where `fs_lock` finds the lock taken, it goes on spinning. -/
def turn (lockV : Bool) (k : Core) (b : Bool) : Bool × Core :=
  match k.frames with
  | .prog (.done _) :: rest => (lockV, { k with frames := rest })
  | .prog (.fsLock p) :: rest =>
      if lockV then (lockV, k) else (true, ⟨.prog p :: rest, true, k.acquired + 1⟩)
  | .prog (.fsUnlock p) :: rest => (false, ⟨.prog p :: rest, false, k.acquired⟩)
  | .prog (.malloc p) :: rest => (lockV, { k with frames := .prog (p b) :: rest })
  | .prog (.free p) :: rest => (lockV, { k with frames := .prog p :: rest })
  | .prog (.findSlot p) :: rest => (lockV, { k with frames := .prog (p b) :: rest })
  | .prog (.fatFs api p) :: rest => (lockV, { k with frames := .inFatFs api p :: rest })
  | _ => (lockV, k)

/-- One event on its core. -/
def coreStep (lockV : Bool) (k : Core) : Event → Bool × Core
  | .call _ e =>
      match k.frames with
      | [] => (lockV, ⟨[.prog e.prog], k.holds, 0⟩)
      | _ => (lockV, k)
  | .run _ b => turn lockV k b
  | .callback _ cb =>
      match k.frames with
      | .inFatFs .. :: _ =>
          (lockV, { k with frames := cb.calls.map (fun e => Frame.prog e.prog) ++ k.frames })
      | _ => (lockV, k)
  | .answer _ rc =>
      match k.frames with
      | .inFatFs _ p :: rest => (lockV, { k with frames := .prog (p rc) :: rest })
      | _ => (lockV, k)

/-- The core of an event. -/
def Event.on : Event → Fin 4
  | .call c _ | .run c _ | .callback c _ | .answer c _ => c

/-- One event. -/
def step (s : Cores) (e : Event) : Unit × Cores :=
  let r := coreStep s.lockV (s.core e.on) e
  ((), ⟨r.1, Function.update s.core e.on r.2⟩)

/-! ### The property -/

/-- **The calls are lock-neutral.** No core has taken the lock twice in a call or is about to
take it while it holds it; it holds it in every FatFs call, and no longer when its call has
returned; so that it is free when no call is in progress. -/
structure LockNeutral (s : Cores) : Prop where
  once : ∀ c, (s.core c).acquired ≤ 1
  noReentry : ∀ c p rest, (s.core c).frames = .prog (.fsLock p) :: rest → (s.core c).holds = false
  held : ∀ c api p, .inFatFs api p ∈ (s.core c).frames → (s.core c).holds = true
  released : ∀ c, (s.core c).frames = [] → (s.core c).holds = false
  free : (∀ c, (s.core c).frames = []) → s.lockV = false

/-- The subroutine has no use for the lock. -/
def Subroutine.LockFree : Subroutine → Prop
  | .isatty _ | .sbrk _ => True
  | .read fd _ | .write fd _ => fd = 1 ∨ fd = 2
  | .close _ | .fstat _ | .lseek .. => False

/-- What prints from within FatFs has no use for the lock. -/
def Quiet (_ : Cores) : Event → Prop
  | .callback _ (.printf subs) => ∀ x ∈ subs, x.LockFree
  | _ => True

/-! ### One call by itself -/

/-- Where a call is in its use of the lock. -/
inductive Stage where
  | before | during | after
  deriving DecidableEq, Repr

/-- **The discipline of a call**: the lock is taken once, before, released once, after, and FatFs
is called in between. -/
def Prog.Ok : Stage → Prog → Prop
  | st, .done _ => st ≠ .during
  | st, .fsLock p => st = .before ∧ p.Ok .during
  | st, .fsUnlock p => st = .during ∧ p.Ok .after
  | st, .malloc p => ∀ b, (p b).Ok st
  | st, .free p => p.Ok st
  | st, .findSlot p => ∀ b, (p b).Ok st
  | st, .fatFs _ p => st = .during ∧ ∀ rc, (p rc).Ok .during

theorem ok_fsUnlockRet (o : Outcome) : (fsUnlockRet o).Ok .during := ⟨rfl, Stage.noConfusion⟩

theorem ok_freeTmp {tmp : Bool} {p : Prog} {st : Stage} (hp : p.Ok st) : (freeTmp tmp p).Ok st := by
  cases tmp with
  | true => exact hp
  | false => exact hp

theorem ok_ite {c : Prop} [Decidable c] {p q : Prog} {st : Stage} (hp : p.Ok st) (hq : q.Ok st) :
    (if c then p else q).Ok st := by
  split
  · exact hp
  · exact hq

theorem ok_done (o : Outcome) {st : Stage} (hst : st ≠ .during) : (Prog.done o).Ok st := hst

theorem ok_free {p : Prog} {st : Stage} (hp : p.Ok st) : (Prog.free p).Ok st := hp

theorem ok_transfer (api : Api) (fd : ℤ) (tmp : Bool) : (transfer api fd tmp).Ok .before := by
  refine ⟨rfl, ?_⟩
  split
  · exact ok_freeTmp (ok_fsUnlockRet _)
  · exact ⟨rfl, fun rc => ok_ite (ok_freeTmp (ok_fsUnlockRet _)) (ok_freeTmp (ok_fsUnlockRet _))⟩

theorem ok_around {api : Api} {k : FResult → Prog} (hk : ∀ rc, (k rc).Ok .after) :
    (around api k).Ok .before :=
  ⟨rfl, rfl, fun rc => ⟨rfl, hk rc⟩⟩

theorem ok_doneRc (rc : FResult) : (doneRc rc).Ok .after :=
  ok_ite (ok_done _ Stage.noConfusion) (ok_done _ Stage.noConfusion)

/-- The functions that look at a result with the lock in hand. -/
theorem ok_unlockRc (api : Api) :
    (Prog.fatFs api fun rc =>
      if rc ≠ .ok then fsUnlockRet (.failed (rc2errno rc)) else fsUnlockRet .ok).Ok .during :=
  ⟨rfl, fun _ => ok_ite (ok_fsUnlockRet _) (ok_fsUnlockRet _)⟩

/-- **Every call keeps the discipline**, whatever its arguments and whatever FatFs answers. -/
theorem ok_prog (e : Call) : e.prog.Ok .before := by
  cases e with
  | writeR fd buf =>
    exact ok_ite (ok_done _ Stage.noConfusion)
      (ok_ite (fun _ => ok_transfer ..) (ok_transfer ..))
  | readR fd ptr =>
    exact ok_ite (ok_done _ Stage.noConfusion)
      (ok_ite (fun _ => ok_transfer ..) (ok_transfer ..))
  | lseekR fd dir =>
    refine ⟨rfl, ?_⟩
    split
    · exact ok_fsUnlockRet _
    · exact ok_ite (ok_fsUnlockRet _) (ok_unlockRc _)
  | fstatR fd =>
    refine ⟨rfl, ?_⟩
    split
    · exact ok_fsUnlockRet _
    · exact ok_fsUnlockRet _
  | openR => exact ⟨rfl, fun slot => ok_ite (ok_fsUnlockRet _) (ok_unlockRc _)⟩
  | closeR fd =>
    refine ⟨rfl, ?_⟩
    split
    · exact ok_fsUnlockRet _
    · exact ok_unlockRc _
  | opendir =>
    refine fun mem => ok_ite (ok_done _ Stage.noConfusion) (ok_around fun rc => ?_)
    exact ok_ite (ok_free (ok_done _ Stage.noConfusion)) (ok_done _ Stage.noConfusion)
  | closedir =>
    refine ok_around fun rc => ?_
    exact ok_ite (ok_done _ Stage.noConfusion) (ok_free (ok_done _ Stage.noConfusion))
  | unlinkR | readdir | chdir | getcwd | statR | renameR | mkdir | rmdir =>
    exact ok_around ok_doneRc
  | isattyR fd | sbrkR incr => exact ok_done _ Stage.noConfusion

/-! ### The sections of a call -/

/-- **The sections a program goes through**, on every answer: what holds of their list. Under the
lock, `cur` is the FatFs call that has been made. -/
def Prog.Does : Option (Option Api) → Prog → (List Section → Prop) → Prop
  | none, .done _, Q => Q []
  | some _, .done _, _ => False
  | none, .fsLock p, Q => p.Does (some none) Q
  | some _, .fsLock _, _ => False
  | some api, .fsUnlock p, Q => p.Does none fun l => Q (.locked api :: l)
  | none, .fsUnlock _, _ => False
  | cur, .malloc p, Q => ∀ b, (p b).Does cur Q
  | cur, .free p, Q => p.Does cur Q
  | cur, .findSlot p, Q => ∀ b, (p b).Does cur Q
  | some none, .fatFs api p, Q => ∀ rc, (p rc).Does (some (some api)) Q
  | _, .fatFs .., _ => False

/-- The sections a call may turn out to have in the coarser model. -/
def Call.scripts : Call → List (List Section)
  | .writeR fd _ => [script (.writeR fd)]
  | .readR fd _ => [script (.readR fd)]
  | .lseekR fd dir => [script (.lseekR fd dir)]
  | .fstatR fd => [script (.fstatR fd)]
  | .openR => [script (.openR true), script (.openR false)]
  | .closeR fd => [script (.closeR fd)]
  | .unlinkR => [script .unlinkR]
  | .opendir => [script (.opendir true), script (.opendir false)]
  | .closedir => [script .closedir]
  | .readdir => [script .readdir]
  | .chdir => [script .chdir]
  | .getcwd => [script .getcwd]
  | .statR => [script .statR]
  | .renameR => [script .renameR]
  | .mkdir => [script .mkdir]
  | .rmdir => [script .rmdir]
  | .isattyR _ | .sbrkR _ => [[]]

section Does

variable {cur : Option (Option Api)} {p q : Prog} {Q : List Section → Prop}

theorem does_ite {c : Prop} [Decidable c] (hp : c → p.Does cur Q) (hq : ¬c → q.Does cur Q) :
    (if c then p else q).Does cur Q := by
  split
  · exact hp ‹_›
  · exact hq ‹_›

theorem does_freeTmp {tmp : Bool} : (freeTmp tmp p).Does cur Q ↔ p.Does cur Q := by
  cases tmp with
  | true => simp [freeTmp, Prog.Does]
  | false => rfl

theorem does_transfer {api : Api} {fd : ℤ} {tmp : Bool} (hQ : Q (onDescr fd api)) :
    (transfer api fd tmp).Does none Q := by
  unfold transfer
  unfold onDescr at hQ
  cases hd : getDescr fd <;> rw [hd] at hQ
  case none => exact does_freeTmp.mpr hQ
  case some i =>
    exact fun rc => does_ite (fun _ => does_freeTmp.mpr hQ) (fun _ => does_freeTmp.mpr hQ)

theorem does_around {api : Api} {k : FResult → Prog}
    (hk : ∀ rc, (k rc).Does none fun l => Q (.locked (some api) :: l)) :
    (around api k).Does none Q := hk

theorem does_doneRc {rc : FResult} (hQ : Q []) : (doneRc rc).Does none Q :=
  does_ite (fun _ => hQ) (fun _ => hQ)

/-- A FatFs call whose result is looked at with the lock in hand. -/
theorem does_unlockRc {api : Api} (hQ : Q [.locked (some api)]) :
    (Prog.fatFs api fun rc =>
      if rc ≠ .ok then fsUnlockRet (.failed (rc2errno rc)) else fsUnlockRet .ok).Does
      (some none) Q :=
  fun _ => does_ite (fun _ => hQ) (fun _ => hQ)

end Does

/-- **The sections of a call are those of the coarser model.** -/
theorem does_script (e : Call) : e.prog.Does none (· ∈ e.scripts) := by
  cases e with
  | writeR fd buf =>
    refine does_ite (fun h => ?_) fun h => does_ite (fun _ _ => does_transfer ?_) fun _ =>
      does_transfer ?_
    · exact List.mem_singleton.mpr (if_pos h).symm
    · exact List.mem_singleton.mpr (if_neg h).symm
    · exact List.mem_singleton.mpr (if_neg h).symm
  | readR fd ptr =>
    refine does_ite (fun h => ?_) fun h => does_ite (fun _ _ => does_transfer ?_) fun _ =>
      does_transfer ?_
    · exact List.mem_singleton.mpr (if_pos h).symm
    · exact List.mem_singleton.mpr (if_neg h).symm
    · exact List.mem_singleton.mpr (if_neg h).symm
  | lseekR fd dir =>
    simp only [Call.prog, Neutral.lseekR, Call.scripts, script, onDescr, Prog.Does]
    cases getDescr fd with
    | none => exact List.mem_singleton.mpr (by simp)
    | some i =>
      refine does_ite (fun h => ?_) fun h => does_unlockRc ?_
      · exact List.mem_singleton.mpr (if_pos h).symm
      · exact List.mem_singleton.mpr (if_neg h).symm
  | fstatR fd =>
    simp only [Call.prog, Neutral.fstatR, Prog.Does]
    cases getDescr fd with
    | none => exact List.mem_singleton.mpr rfl
    | some i => exact List.mem_singleton.mpr rfl
  | openR =>
    intro slot
    cases slot with
    | true => exact does_unlockRc (List.mem_cons_self)
    | false => exact List.mem_cons_of_mem _ (List.mem_singleton.mpr rfl)
  | closeR fd =>
    simp only [Call.prog, Neutral.closeR, Call.scripts, script, onDescr, Prog.Does]
    cases getDescr fd with
    | none => exact List.mem_singleton.mpr rfl
    | some i => exact does_unlockRc (List.mem_singleton.mpr rfl)
  | opendir =>
    intro mem
    cases mem with
    | true =>
      exact does_around fun rc => does_ite (fun _ => List.mem_cons_self) fun _ => List.mem_cons_self
    | false => exact List.mem_cons_of_mem _ (List.mem_singleton.mpr rfl)
  | closedir =>
    exact does_around fun rc =>
      does_ite (fun _ => List.mem_singleton.mpr rfl) fun _ => List.mem_singleton.mpr rfl
  | unlinkR | readdir | chdir | getcwd | statR | renameR | mkdir | rmdir =>
    exact does_around fun rc => does_doneRc (List.mem_singleton.mpr rfl)
  | isattyR fd | sbrkR incr => exact List.mem_singleton.mpr rfl

/-! ### The invariant -/

/-- What a core in a stage has done to the lock. -/
def Stage.holds : Stage → Bool
  | .during => true
  | _ => false

def Stage.acquired : Stage → ℕ
  | .before => 0
  | _ => 1

/-- **A core that keeps the discipline**: idle, in a call that keeps it, or in a FatFs call with
subroutines on top that only have to return. -/
inductive CoreOk (k : Core) : Prop
  | idle (hframes : k.frames = []) (hholds : k.holds = false) (hacq : k.acquired ≤ 1)
  | running (st : Stage) (p : Prog) (hp : p.Ok st) (hframes : k.frames = [.prog p])
      (hholds : k.holds = st.holds) (hacq : k.acquired = st.acquired)
  | inFatFs (api : Api) (p : FResult → Prog) (inner : List Outcome)
      (hp : ∀ rc, (p rc).Ok .during)
      (hframes : k.frames = inner.map (fun o => Frame.prog (.done o)) ++ [.inFatFs api p])
      (hholds : k.holds = true) (hacq : k.acquired = 1)

/-- What a step does to the lock and to a core's hold on it. -/
inductive LockMove (lockV holds lockV' holds' : Bool) : Prop
  | stay (hlock : lockV' = lockV) (hholds : holds' = holds)
  | take (hfree : lockV = false) (hlock : lockV' = true) (hholds : holds' = true)
  | release (hheld : holds = true) (hlock : lockV' = false) (hholds : holds' = false)

section Cores

variable {lockV b : Bool} {k : Core} {s : Cores}

theorem turn_prog {st : Stage} {p : Prog} (hp : p.Ok st) (hframes : k.frames = [.prog p])
    (hholds : k.holds = st.holds) (hacq : k.acquired = st.acquired) :
    CoreOk (turn lockV k b).2 ∧
      LockMove lockV k.holds (turn lockV k b).1 (turn lockV k b).2.holds := by
  cases p with
  | done o =>
    simp only [turn, hframes]
    refine ⟨.idle rfl ?_ ?_, .stay rfl rfl⟩
    · cases st with
      | during => exact absurd rfl hp
      | before | after => exact hholds
    · cases st <;> simp [hacq, Stage.acquired]
  | fsLock p =>
    obtain ⟨rfl, hp⟩ := hp
    simp only [turn, hframes]
    cases lockV with
    | true => exact ⟨.running .before (.fsLock p) ⟨rfl, hp⟩ hframes hholds hacq, .stay rfl rfl⟩
    | false =>
      refine ⟨.running .during p hp rfl rfl ?_, .take rfl rfl rfl⟩
      exact congrArg (· + 1) hacq
  | fsUnlock p =>
    obtain ⟨rfl, hp⟩ := hp
    simp only [turn, hframes]
    exact ⟨.running .after p hp rfl rfl hacq, .release hholds rfl rfl⟩
  | malloc p =>
    simp only [turn, hframes]
    exact ⟨.running st (p b) (hp b) rfl hholds hacq, .stay rfl rfl⟩
  | free p =>
    simp only [turn, hframes]
    exact ⟨.running st p hp rfl hholds hacq, .stay rfl rfl⟩
  | findSlot p =>
    simp only [turn, hframes]
    exact ⟨.running st (p b) (hp b) rfl hholds hacq, .stay rfl rfl⟩
  | fatFs api p =>
    obtain ⟨rfl, hp⟩ := hp
    simp only [turn, hframes]
    exact ⟨.inFatFs api p [] hp rfl hholds hacq, .stay rfl rfl⟩

/-- **A turn of a core that keeps the discipline.** -/
theorem turn_ok (hk : CoreOk k) (b : Bool) :
    CoreOk (turn lockV k b).2 ∧
      LockMove lockV k.holds (turn lockV k b).1 (turn lockV k b).2.holds := by
  cases id hk with
  | idle hframes hholds hacq =>
    simp only [turn, hframes]
    exact ⟨hk, .stay rfl rfl⟩
  | running st p hp hframes hholds hacq => exact turn_prog hp hframes hholds hacq
  | inFatFs api p inner hp hframes hholds hacq =>
    cases inner with
    | nil =>
      simp only [turn, hframes, List.map_nil, List.nil_append]
      exact ⟨hk, .stay rfl rfl⟩
    | cons o inner =>
      simp only [turn, hframes, List.map_cons, List.cons_append]
      exact ⟨.inFatFs api p inner hp rfl hholds hacq, .stay rfl rfl⟩

/-- A subroutine that has no use for the lock returns at once. -/
theorem prog_of_lockFree {x : Subroutine} (hx : x.LockFree) : ∃ o, x.call.prog = .done o := by
  cases x with
  | read fd ptr => exact ⟨_, if_pos hx⟩
  | write fd buf => exact ⟨_, if_pos hx⟩
  | isatty fd | sbrk incr => exact ⟨_, rfl⟩
  | close fd | fstat fd | lseek fd dir => exact hx.elim

/-- So the frames of a quiet callback are of that kind. -/
theorem frames_of_quiet {s : Cores} {c : Fin 4} {cb : Callback} (hq : Quiet s (.callback c cb)) :
    ∃ os : List Outcome, cb.calls.map (fun e => Frame.prog e.prog) =
      os.map fun o => Frame.prog (.done o) := by
  cases cb with
  | malloc incrs =>
    refine ⟨incrs.map fun _ => .ok, ?_⟩
    rw [Callback.calls, List.map_map, List.map_map]
    rfl
  | printf subs =>
    have hquiet : ∀ x ∈ subs, x.LockFree := hq
    clear hq
    induction subs with
    | nil => exact ⟨[], rfl⟩
    | cons x subs ih =>
      obtain ⟨o, ho⟩ := prog_of_lockFree (hquiet x List.mem_cons_self)
      obtain ⟨os, hos⟩ := ih fun y hy => hquiet y (List.mem_cons_of_mem x hy)
      exact ⟨o :: os, congrArg₂ List.cons (congrArg Frame.prog ho) hos⟩

/-- **Every quiet event keeps the discipline.** -/
theorem coreStep_ok (lockV : Bool) (hk : CoreOk k) {e : Event} (hq : Quiet s e) :
    CoreOk (coreStep lockV k e).2 ∧
      LockMove lockV k.holds (coreStep lockV k e).1 (coreStep lockV k e).2.holds := by
  cases e with
  | run c b => exact turn_ok hk b
  | call c e =>
    unfold coreStep
    dsimp only
    split
    · rename_i hframes
      refine ⟨?_, .stay rfl rfl⟩
      cases hk with
      | idle _ hholds _ => exact .running .before e.prog (ok_prog e) rfl hholds rfl
      | running st p hp h => simp [h] at hframes
      | inFatFs api p inner hp h => simp [h] at hframes
    · exact ⟨hk, .stay rfl rfl⟩
  | callback c cb =>
    unfold coreStep
    dsimp only
    split
    · rename_i api p rest hframes
      refine ⟨?_, .stay rfl rfl⟩
      obtain ⟨os, hos⟩ := frames_of_quiet hq
      cases hk with
      | idle h => simp [h] at hframes
      | running st p hp h => simp [h] at hframes
      | inFatFs api p inner hp h hholds hacq =>
        refine .inFatFs api p (os ++ inner) hp ?_ hholds hacq
        simp only [hos, h, List.map_append, List.append_assoc]
    · exact ⟨hk, .stay rfl rfl⟩
  | answer c rc =>
    unfold coreStep
    dsimp only
    split
    · rename_i api p rest hframes
      refine ⟨?_, .stay rfl rfl⟩
      cases hk with
      | idle h => simp [h] at hframes
      | running st p hp h => simp [h] at hframes
      | inFatFs api' p' inner hp h hholds hacq =>
        -- nothing is on top of the FatFs call that returns
        cases inner with
        | cons o inner => simp [h] at hframes
        | nil =>
          rw [h] at hframes
          simp only [List.map_nil, List.nil_append, List.cons.injEq, Frame.inFatFs.injEq] at hframes
          obtain ⟨⟨-, rfl⟩, rfl⟩ := hframes
          exact .running .during (p' rc) (hp rc) rfl hholds hacq
    · exact ⟨hk, .stay rfl rfl⟩

/-- **The invariant**: every core keeps the discipline, and the lock is taken just when a core
holds it, and then by one. -/
structure Inv (s : Cores) : Prop where
  core : ∀ c, CoreOk (s.core c)
  locked : s.lockV = true ↔ ∃ c, (s.core c).holds = true
  alone : ∀ c d, (s.core c).holds = true → (s.core d).holds = true → c = d

theorem inv_init : Inv Cores.init :=
  ⟨fun _ => .idle rfl rfl (Nat.zero_le 1), by simp [Cores.init], by simp [Cores.init]⟩

/-- One core moves. -/
theorem inv_update (hinv : Inv s) {c : Fin 4} {l : Bool} {k : Core} (hk : CoreOk k)
    (hmove : LockMove s.lockV (s.core c).holds l k.holds) :
    Inv ⟨l, Function.update s.core c k⟩ := by
  have hself : Function.update s.core c k c = k := Function.update_self ..
  have hother : ∀ d, d ≠ c → Function.update s.core c k d = s.core d :=
    fun d hd => Function.update_of_ne hd ..
  have hcore : ∀ d, CoreOk (Function.update s.core c k d) := by
    intro d
    rcases eq_or_ne d c with rfl | hd
    · rwa [hself]
    · rw [hother d hd]
      exact hinv.core d
  cases hmove with
  | stay hlock hholds =>
    have hsame : ∀ d, (Function.update s.core c k d).holds = (s.core d).holds := by
      intro d
      rcases eq_or_ne d c with rfl | hd
      · rw [hself, hholds]
      · rw [hother d hd]
    refine ⟨hcore, ?_, ?_⟩
    · simpa only [hsame, hlock] using hinv.locked
    · simpa only [hsame] using hinv.alone
  | take hfree hlock hholds =>
    -- no core holds a lock that is free
    have hnone : ∀ d, (s.core d).holds ≠ true := by
      intro d hd
      have := hinv.locked.mpr ⟨d, hd⟩
      simp [hfree] at this
    have honly : ∀ d, (Function.update s.core c k d).holds = true → d = c := by
      intro d hd
      by_contra hne
      rw [hother d hne] at hd
      exact hnone d hd
    refine ⟨hcore, iff_of_true hlock ⟨c, (congrArg Core.holds hself).trans hholds⟩, ?_⟩
    intro d e hd he
    rw [honly d hd, honly e he]
  | release hheld hlock hholds =>
    -- the core that held it was the only one
    have hnone : ∀ d, (Function.update s.core c k d).holds ≠ true := by
      intro d hd
      rcases eq_or_ne d c with rfl | hne
      · rw [hself, hholds] at hd
        exact Bool.false_ne_true hd
      · rw [hother d hne] at hd
        exact hne (hinv.alone d c hd hheld)
    refine ⟨hcore, iff_of_false (by simp [hlock]) ?_, fun d e hd => absurd hd (hnone d)⟩
    rintro ⟨d, hd⟩
    exact hnone d hd

/-- **Every quiet event keeps the invariant.** -/
theorem inv_step (hinv : Inv s) {e : Event} (hq : Quiet s e) : Inv (step s e).2 := by
  obtain ⟨hok, hmove⟩ := coreStep_ok s.lockV (hinv.core e.on) hq
  exact inv_update hinv hok hmove

/-- What the discipline of a core says of its frames. -/
theorem CoreOk.neutral (hk : CoreOk k) :
    k.acquired ≤ 1 ∧ (∀ p rest, k.frames = .prog (.fsLock p) :: rest → k.holds = false) ∧
      (∀ api p, .inFatFs api p ∈ k.frames → k.holds = true) ∧
      (k.frames = [] → k.holds = false) := by
  cases hk with
  | idle hframes hholds hacq => exact ⟨hacq, by simp [hframes], by simp [hframes], fun _ => hholds⟩
  | running st p hp hframes hholds hacq =>
    refine ⟨?_, fun q rest hq => ?_, by simp [hframes], by simp [hframes]⟩
    · cases st <;> simp [hacq, Stage.acquired]
    · rw [hframes] at hq
      simp only [List.cons.injEq, Frame.prog.injEq] at hq
      obtain ⟨rfl, -⟩ := hq
      obtain ⟨rfl, -⟩ := hp
      exact hholds
  | inFatFs api p inner hp hframes hholds hacq =>
    refine ⟨hacq.le, fun q rest hq => ?_, fun _ _ _ => hholds, by simp [hframes]⟩
    cases inner with
    | nil => simp [hframes] at hq
    | cons o inner => simp [hframes] at hq

theorem Inv.lockNeutral (hinv : Inv s) : LockNeutral s where
  once c := (hinv.core c).neutral.1
  noReentry c := (hinv.core c).neutral.2.1
  held c := (hinv.core c).neutral.2.2.1
  released c := (hinv.core c).neutral.2.2.2
  free hidle := by
    rw [← Bool.not_eq_true, hinv.locked]
    rintro ⟨c, hc⟩
    rw [(hinv.core c).neutral.2.2.2 (hidle c)] at hc
    exact Bool.false_ne_true hc

end Cores

/-! ### Every run -/

/-- **The file calls are lock-neutral** in every interleaving of four cores, with any arguments,
any results of FatFs and any callbacks, as long as what prints from within FatFs calls no
subroutine that takes the lock. -/
theorem lockNeutral_of_quiet {h : List (Event × Unit)} {s : Cores}
    (hr : Reach (fnStep step) Quiet Cores.init h s) : LockNeutral s :=
  (hr.fnInvariant (fun _ => Inv) inv_init fun _ _ _ hinv hq => inv_step hinv hq).lockNeutral

theorem lockFree_console : ∀ x ∈ [Subroutine.write 1 0x2000, .isatty 1], x.LockFree := by
  intro x hx
  simp only [List.mem_cons, List.not_mem_nil, or_false] at hx
  rcases hx with rfl | rfl
  · exact .inl rfl
  · trivial

/-- Core 1 reads into an unaligned buffer, and prints from within `f_read`; core 2 waits for
it. -/
theorem lockNeutral_of_quiet_run :
    LockNeutral (runFn step [] Cores.init
      [.call 1 (.readR 3 0x1001), .run 1 true, .run 1 true, .run 1 true,
        .callback 1 (.printf [.write 1 0x2000, .isatty 1]), .call 2 (.fstatR 3), .run 2 true,
        .run 1 true, .run 1 true, .answer 1 .diskErr, .run 1 true]).2 :=
  lockNeutral_of_quiet (reach_runFn ⟨trivial, trivial, trivial, trivial, lockFree_console, trivial,
    trivial, trivial, trivial, trivial, trivial, trivial⟩)

/-- **A core that prints for the first time from within FatFs.** Core 1 is in `f_read` with the
lock, a driver prints, and the C library asks `_fstat_r` about its standard output: the core
spins on a lock that it holds itself, now and ever after. -/
theorem not_lockNeutral_printf :
    let r := runFn step [] Cores.init
      [.call 1 (.readR 3 0x1000), .run 1 true, .run 1 true,
        .callback 1 (.printf [.fstat 1, .isatty 1, .sbrk 1024, .write 1 0x2000])]
    Reach (fnStep step) Always Cores.init r.1 r.2 ∧
      (∃ p rest, (r.2.core 1).frames = .prog (.fsLock p) :: rest) ∧ (r.2.core 1).holds = true ∧
      (∀ b, (step r.2 (.run 1 b)).2.core 1 = r.2.core 1) ∧ ¬LockNeutral r.2 := by
  intro r
  have hframes : ∃ p rest, (r.2.core 1).frames = .prog (.fsLock p) :: rest := ⟨_, _, rfl⟩
  refine ⟨reach_runFn okAlong_always, hframes, rfl, fun b => rfl, fun hneutral => ?_⟩
  obtain ⟨p, rest, hp⟩ := hframes
  exact Bool.false_ne_true ((hneutral.noReentry 1 p rest hp).symm)

end Neutral

end LibcIo

end BareMetal
