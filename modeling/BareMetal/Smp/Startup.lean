import BareMetal.Runs
import BareMetal.Handover

/-!
# Starting the secondary cores

Core 0 starts another core with three stores: the task goes to `tasks[cpuid]`, the top of the
new stack to the one word `_smp_secondary_sp`, and the reset register of the core lets it go.
The core reads that word **twice**, in `boot.S` for its stack pointer and in
`_smp_startup_secondary` for the stack pointer of its interrupts, and never says that it has.
A second call may come in between and replace the word.

The stores of core 0 and the reads of the others are the steps, and any interleaving of them
is a run. A stack pointer is *due* to a core from its release to its second read
(`BareMetal.Smp.dueSp`), which makes this a hand-over through shared memory
(`BareMetal.Undisturbed`). The cores get their own stacks if every call waits for the reads of
the cores before it (`BareMetal.Smp.smpOk_of_acknowledged`); a call that does not wait leaves
a core one read away from another core's stack (`BareMetal.Smp.not_smpOk_of_overwritten`).
-/

namespace BareMetal

namespace Smp

/-! ### The code -/

/-- A call of `smp_start_secondary_core`, for a core other than the calling one. -/
structure StartCall where
  cpuid : Fin 4
  /-- The address of the task; `0` is no task. -/
  task : BitVec 32
  stack : BitVec 32
  stackSize : BitVec 32
  cpuid_pos : 0 < (cpuid : ℕ)
  deriving DecidableEq

/-- What the call stores in `_smp_secondary_sp`. -/
def StartCall.sp (c : StartCall) : BitVec 32 := c.stack + c.stackSize - 0x400#32

/-- The stores of `smp_start_secondary_core`, in their order. -/
inductive Store where
  /-- `tasks[cpuid] = task`. -/
  | task (cpuid : Fin 4) (task : BitVec 32)
  /-- `_smp_secondary_sp = (uint32_t)stack + stack_size - 0x400`. -/
  | secondarySp (sp : BitVec 32)
  /-- `CPU_RST_CTRL_REG(cpuid) = 0x3`. -/
  | release (cpuid : Fin 4)
  deriving DecidableEq, Repr

/-- `smp_start_secondary_core`. -/
def smpStartSecondaryCore (c : StartCall) : List Store :=
  [.task c.cpuid c.task, .secondarySp c.sp, .release c.cpuid]

/-- Where a core is. -/
inductive Core where
  /-- Held in reset. -/
  | held
  /-- Let go, before `ldr sp, _smp_secondary_sp`. -/
  | released
  /-- In `_smp_startup_secondary`, before it reads the word again. -/
  | booting (sp : BitVec 32)
  /-- In the loop of `_smp_startup_secondary`. -/
  | looping (sp irqSp : BitVec 32)
  deriving DecidableEq, Repr

/-- The shared memory, the cores, and the stores that core 0 has still to make. -/
structure SmpState where
  secondarySp : BitVec 32
  tasks : Fin 4 → BitVec 32
  cores : Fin 4 → Core
  todo : List Store

/-- Before the first call. -/
def SmpState.init : SmpState := ⟨0#32, fun _ => 0#32, fun _ => .held, []⟩

/-- A step: core 0 enters a call or makes the next store of the one it is in, or another core
goes on. -/
inductive SmpEvent where
  | call (c : StartCall)
  | store
  | core (i : Fin 4)
  deriving DecidableEq

/-- A task that is run, with the stack pointers of its core. -/
structure Ran where
  task : BitVec 32
  sp : BitVec 32
  irqSp : BitVec 32
  deriving DecidableEq, Repr

/-- One store of core 0. -/
def SmpState.put (s : SmpState) : Store → SmpState
  | .task i t => { s with tasks := Function.update s.tasks i t }
  | .secondarySp sp => { s with secondarySp := sp }
  | .release i => { s with cores := Function.update s.cores i .released }

/-- One step of core `i`: `start_secondary`, the head of `_smp_startup_secondary`, or one turn
of its loop. -/
def SmpState.advance (s : SmpState) (i : Fin 4) : Option Ran × SmpState :=
  match s.cores i with
  | .held => (none, s)
  | .released => (none, { s with cores := Function.update s.cores i (.booting s.secondarySp) })
  | .booting sp =>
      -- `init_sp_irq(_smp_secondary_sp + 0x400)`
      (none, { s with
        cores := Function.update s.cores i (.looping sp (s.secondarySp + 0x400#32)) })
  | .looping sp irqSp =>
      (if s.tasks i ≠ 0#32 then some ⟨s.tasks i, sp, irqSp⟩ else none, s)

/-- One step. Core 0 enters a call only when it is not in one. -/
def smpStep (s : SmpState) : SmpEvent → Option Ran × SmpState
  | .call c => (none, if s.todo = [] then { s with todo := smpStartSecondaryCore c } else s)
  | .store =>
      match s.todo with
      | [] => (none, s)
      | st :: rest => (none, { s.put st with todo := rest })
  | .core i => s.advance i

/-! ### The property -/

/-- **The call that starts a core**: the last one made for it. -/
def startedBy : List (SmpEvent × Option Ran) → Fin 4 → Option StartCall
  | [], _ => none
  | (.call c, _) :: h, i => if c.cpuid = i then some c else startedBy h i
  | _ :: h, i => startedBy h i

/-- A core is where its call put it: whatever it has read is its own stack. -/
def OnStack (c : StartCall) : Core → Prop
  | .held | .released => True
  | .booting sp => sp = c.stack + c.stackSize - 0x400#32
  | .looping sp irqSp => sp = c.stack + c.stackSize - 0x400#32 ∧ irqSp = c.stack + c.stackSize

/-- A task that is run is the one of the core's call, on the core's stacks. -/
def RanOk (c : StartCall) (r : Ran) : Prop :=
  r = ⟨c.task, c.stack + c.stackSize - 0x400#32, c.stack + c.stackSize⟩

/-- Every task that was run. -/
def AllRanOk : List (SmpEvent × Option Ran) → Prop
  | [] => True
  | (e, o) :: h => AllRanOk h ∧
      ∀ i r, e = .core i → o = some r → ∃ c, startedBy h i = some c ∧ RanOk c r

/-- **Every core has its own stacks and runs its own task**: so it was in every run of a task
so far, and a core in its loop runs its task next. -/
structure SmpOk (h : List (SmpEvent × Option Ran)) (s : SmpState) : Prop where
  onStack : ∀ i c, startedBy h i = some c → OnStack c (s.cores i)
  ran : AllRanOk h
  runs : ∀ i c sp irqSp, startedBy h i = some c → s.cores i = .looping sp irqSp →
    c.task ≠ 0#32 → ∃ r, (smpStep s (.core i)).1 = some r ∧ RanOk c r

/-- A core between its release and its second read. -/
def Core.reading : Core → Bool
  | .released | .booting _ => true
  | _ => false

/-- Calls are made one after the other, and a core is started once. -/
def StartedOnce (s : SmpState) : SmpEvent → Prop
  | .call c => s.todo = [] ∧ s.cores c.cpuid = .held
  | _ => True

/-- In addition a stack pointer is stored only while no core has still to read the one before
it, or if it is the same. -/
def Acknowledged (s : SmpState) : SmpEvent → Prop
  | .call c => StartedOnce s (.call c)
  | .store => ∀ sp rest, s.todo = .secondarySp sp :: rest →
      ∀ i, (s.cores i).reading → sp = s.secondarySp
  | .core _ => True

/-- With no core between its release and its second read, every store is safe. -/
theorem acknowledged_store {s : SmpState} (hquiet : ∀ i, (s.cores i).reading = false) :
    Acknowledged s .store := by
  intro sp rest _ i hread
  rw [hquiet i] at hread
  exact absurd hread Bool.false_ne_true

/-! ### What is due -/

/-- The stack pointer due to a core: the one of its call, until it has read it twice. -/
def dueSp (h : List (SmpEvent × Option Ran)) (s : SmpState) (i : Fin 4) : Option (BitVec 32) :=
  if (s.cores i).reading then (startedBy h i).map StartCall.sp else none

/-- Every core sees the whole word. -/
def seesSp (m : BitVec 32) (_ : Fin 4) : BitVec 32 := m

/-- **The invariant**: no stack pointer that is due is disturbed, every core that has been let
go has a call whose task is in place and whose stacks it is on, and core 0 is at most in one
call, with its stores partly made. -/
structure SmpInv (h : List (SmpEvent × Option Ran)) (s : SmpState) : Prop where
  undisturbed : Undisturbed seesSp (dueSp h s) s.secondarySp
  started : ∀ i, s.cores i ≠ .held → ∃ c, startedBy h i = some c ∧ s.tasks i = c.task
  onStack : ∀ i c, startedBy h i = some c → OnStack c (s.cores i)
  todo : s.todo = [] ∨ ∃ c, startedBy h c.cpuid = some c ∧ s.cores c.cpuid = .held ∧
    (s.todo = smpStartSecondaryCore c ∨
      (s.tasks c.cpuid = c.task ∧ s.todo = [.secondarySp c.sp, .release c.cpuid]) ∨
      (s.tasks c.cpuid = c.task ∧ s.secondarySp = c.sp ∧ s.todo = [.release c.cpuid]))

theorem smpInv_init : SmpInv [] SmpState.init where
  undisturbed := undisturbed_none fun _ => rfl
  started i hi := absurd rfl hi
  onStack i c hc := by simp [startedBy] at hc
  todo := Or.inl rfl

/-! ### One step -/

section OneStep

variable {h : List (SmpEvent × Option Ran)} {s : SmpState}

/-- Only a call changes which call starts a core. -/
theorem startedBy_store (o : Option Ran) (i : Fin 4) :
    startedBy ((.store, o) :: h) i = startedBy h i := rfl

theorem startedBy_core (j : Fin 4) (o : Option Ran) (i : Fin 4) :
    startedBy ((.core j, o) :: h) i = startedBy h i := rfl

theorem startedBy_call (c : StartCall) (o : Option Ran) (i : Fin 4) :
    startedBy ((.call c, o) :: h) i = if c.cpuid = i then some c else startedBy h i := rfl

/-- A call for a core that is held concerns no core that was let go. -/
theorem startedBy_call_of_ne {c : StartCall} (hheld : s.cores c.cpuid = .held) {i : Fin 4}
    (hi : s.cores i ≠ .held) (o : Option Ran) :
    startedBy ((.call c, o) :: h) i = startedBy h i := by
  rw [startedBy_call, if_neg]
  rintro rfl
  exact hi hheld

/-- Entering a call. -/
theorem SmpInv.call (hinv : SmpInv h s) {c : StartCall} (hheld : s.cores c.cpuid = .held) :
    SmpInv ((.call c, none) :: h) { s with todo := smpStartSecondaryCore c } where
  undisturbed := by
    refine hinv.undisturbed.settle fun i v hv => ?_
    simp only [dueSp] at hv ⊢
    split at hv
    · rename_i hread
      rw [if_pos hread]
      rwa [startedBy_call_of_ne hheld] at hv
      intro hcon
      rw [hcon] at hread
      exact Bool.false_ne_true hread
    · exact absurd hv (by simp)
  started i hi := by
    rw [startedBy_call_of_ne hheld hi]
    exact hinv.started i hi
  onStack i d hd := by
    by_cases hi : c.cpuid = i
    · subst hi
      change OnStack d (s.cores c.cpuid)
      rw [hheld]
      trivial
    · rw [startedBy_call, if_neg hi] at hd
      exact hinv.onStack i d hd
  todo := Or.inr ⟨c, if_pos rfl, hheld, Or.inl rfl⟩

/-- A store of core 0. -/
theorem SmpInv.store (hinv : SmpInv h s) {st : Store} {rest : List Store}
    (htodo : s.todo = st :: rest) (hack : Acknowledged s .store) :
    SmpInv ((.store, none) :: h) { s.put st with todo := rest } := by
  rcases hinv.todo with hnil | ⟨c, hc, hheld, hcases⟩
  · rw [htodo] at hnil
    exact absurd hnil (by simp)
  rcases hcases with hfull | ⟨htask, hsp⟩ | ⟨htask, hword, hrel⟩
  · -- the task of a core that is held
    obtain ⟨rfl, rfl⟩ := List.cons.inj (htodo.symm.trans hfull)
    refine ⟨hinv.undisturbed, fun i hi => ?_, hinv.onStack, Or.inr ⟨c, hc, hheld, Or.inr ?_⟩⟩
    · have hne : i ≠ c.cpuid := by
        rintro rfl
        exact hi hheld
      simpa [SmpState.put, Function.update_of_ne hne, startedBy_store] using hinv.started i hi
    · exact Or.inl ⟨Function.update_self _ _ _, rfl⟩
  · -- the stack pointer, which nobody has still to read
    obtain ⟨rfl, rfl⟩ := List.cons.inj (htodo.symm.trans hsp)
    refine ⟨?_, hinv.started, hinv.onStack, Or.inr ⟨c, hc, hheld, Or.inr (Or.inr ?_)⟩⟩
    · refine hinv.undisturbed.write fun i v hv => ?_
      refine hack c.sp _ htodo i ?_
      by_contra hnot
      simp [dueSp, hnot] at hv
    · exact ⟨htask, rfl, rfl⟩
  · -- the release, with which the word is due to the core
    obtain ⟨rfl, rfl⟩ := List.cons.inj (htodo.symm.trans hrel)
    refine ⟨?_, fun i hi => ?_, fun i d hd => ?_, Or.inl rfl⟩
    · refine hinv.undisturbed.grant c.cpuid hword ?_ fun i hne => ?_
      · simp [dueSp, SmpState.put, Core.reading, startedBy_store, hc]
      · simp [dueSp, SmpState.put, Function.update_of_ne hne, startedBy_store]
    · by_cases hc' : i = c.cpuid
      · subst hc'
        exact ⟨c, hc, htask⟩
      · simp only [SmpState.put, Function.update_of_ne hc'] at hi
        exact hinv.started i hi
    · by_cases hi : i = c.cpuid
      · subst hi
        simp [SmpState.put, OnStack]
      · simpa [SmpState.put, Function.update_of_ne hi] using hinv.onStack i d hd

/-- What a core that is reading reads. -/
theorem SmpInv.secondarySp_eq (hinv : SmpInv h s) {i : Fin 4} {c : StartCall}
    (hread : (s.cores i).reading) (hc : startedBy h i = some c) : s.secondarySp = c.sp := by
  refine hinv.undisturbed i c.sp ?_
  rw [dueSp, if_pos hread, hc]
  rfl

/-- A core that changes its place, but not to or from its reset. -/
theorem SmpInv.move (hinv : SmpInv h s) {i : Fin 4} {p : Core} (hlive : s.cores i ≠ .held)
    (hreading : p.reading → (s.cores i).reading)
    (hp : ∀ c, startedBy h i = some c → OnStack c p) :
    SmpInv ((.core i, none) :: h) { s with cores := Function.update s.cores i p } where
  undisturbed := by
    refine hinv.undisturbed.settle fun j v hv => ?_
    by_cases hj : j = i
    · subst hj
      simp only [dueSp, Function.update_self, startedBy_core] at hv ⊢
      split at hv
      · rw [if_pos (hreading ‹_›)]
        exact hv
      · exact absurd hv (by simp)
    · simpa [dueSp, Function.update_of_ne hj, startedBy_core] using hv
  started j hj := by
    by_cases hji : j = i
    · subst hji
      exact hinv.started j hlive
    · exact hinv.started j (by simpa [Function.update_of_ne hji] using hj)
  onStack j c hc := by
    by_cases hji : j = i
    · subst hji
      simpa using hp c hc
    · simpa [Function.update_of_ne hji] using hinv.onStack j c hc
  todo := by
    rcases hinv.todo with hnil | ⟨c, hc, hheld, hcases⟩
    · exact Or.inl hnil
    · have hne : c.cpuid ≠ i := by
        intro hcon
        rw [hcon] at hheld
        exact hlive hheld
      exact Or.inr ⟨c, hc, by simpa [Function.update_of_ne hne] using hheld, hcases⟩

/-- A core goes on: the invariant is kept, and a task it runs is the right one. -/
theorem SmpInv.advance (hinv : SmpInv h s) (i : Fin 4) :
    SmpInv ((.core i, (s.advance i).1) :: h) (s.advance i).2 ∧
      ∀ r, (s.advance i).1 = some r → ∃ c, startedBy h i = some c ∧ RanOk c r := by
  unfold SmpState.advance
  split
  · exact ⟨⟨hinv.undisturbed, hinv.started, hinv.onStack, hinv.todo⟩, by simp⟩
  · rename_i hcore
    refine ⟨hinv.move (by simp [hcore]) (by simp [hcore, Core.reading]) fun c hc => ?_, by simp⟩
    exact hinv.secondarySp_eq (by rw [hcore]; rfl) hc
  · rename_i sp hcore
    refine ⟨hinv.move (by simp [hcore]) (by simp [hcore, Core.reading]) fun c hc => ⟨?_, ?_⟩,
      by simp⟩
    · have hon := hinv.onStack i c hc
      rw [hcore] at hon
      exact hon
    · rw [hinv.secondarySp_eq (by rw [hcore]; rfl) hc, StartCall.sp, BitVec.sub_add_cancel]
  · rename_i sp irqSp hcore
    refine ⟨⟨hinv.undisturbed, hinv.started, hinv.onStack, hinv.todo⟩, fun r hr => ?_⟩
    obtain ⟨c, hc, htask⟩ := hinv.started i (by simp [hcore])
    have hon := hinv.onStack i c hc
    rw [hcore] at hon
    split at hr
    · refine ⟨c, hc, ?_⟩
      rw [← Option.some.inj hr, htask, hon.1, hon.2]
      rfl
    · exact absurd hr (by simp)

end OneStep

/-- **Every acknowledged step keeps the invariant**, and every task that is run is the right
one. -/
theorem smpInv_step {h : List (SmpEvent × Option Ran)} {s : SmpState} (hinv : SmpInv h s)
    {e : SmpEvent} (hack : Acknowledged s e) :
    SmpInv ((e, (smpStep s e).1) :: h) (smpStep s e).2 ∧
      ∀ i r, e = .core i → (smpStep s e).1 = some r →
        ∃ c, startedBy h i = some c ∧ RanOk c r := by
  cases e with
  | call c =>
    refine ⟨?_, by simp⟩
    simp only [smpStep, if_pos hack.1]
    exact hinv.call hack.2
  | store =>
    refine ⟨?_, by simp⟩
    cases htodo : s.todo with
    | nil =>
      simp only [smpStep, htodo]
      exact ⟨hinv.undisturbed, hinv.started, hinv.onStack, hinv.todo⟩
    | cons st rest =>
      simp only [smpStep, htodo]
      exact hinv.store htodo hack
  | core i =>
    obtain ⟨hnext, hran⟩ := hinv.advance i
    refine ⟨hnext, ?_⟩
    rintro j r hj hr
    obtain rfl := SmpEvent.core.inj hj
    exact hran r hr

/-! ### Every run -/

theorem smpInv_of_acknowledged {h : List (SmpEvent × Option Ran)} {s : SmpState}
    (hr : Reach (fnStep smpStep) Acknowledged SmpState.init h s) : SmpInv h s ∧ AllRanOk h := by
  refine hr.fnInvariant (fun h s => SmpInv h s ∧ AllRanOk h) ⟨smpInv_init, trivial⟩ ?_
  rintro h s e ⟨hinv, hran⟩ hack
  obtain ⟨hnext, hnew⟩ := smpInv_step hinv hack
  exact ⟨hnext, hran, hnew⟩

/-- **The cores get their own stacks** in every interleaving in which each call waits, before
it stores its stack pointer, for the reads of the cores let go before it. -/
theorem smpOk_of_acknowledged {h : List (SmpEvent × Option Ran)} {s : SmpState}
    (hr : Reach (fnStep smpStep) Acknowledged SmpState.init h s) : SmpOk h s := by
  obtain ⟨hinv, hran⟩ := smpInv_of_acknowledged hr
  refine ⟨hinv.onStack, hran, fun i c sp irqSp hc hcore htask => ?_⟩
  obtain ⟨d, hd, htasks⟩ := hinv.started i (by simp [hcore])
  obtain rfl := Option.some.inj (hc.symm.trans hd)
  have hon := hinv.onStack i c hc
  rw [hcore] at hon
  refine ⟨⟨c.task, sp, irqSp⟩, ?_, ?_⟩
  · simp [smpStep, SmpState.advance, hcore, htasks, htask]
  · rw [RanOk, hon.1, hon.2]

/-- Two calls with separate stacks of 4 KiB. -/
def startOne : StartCall :=
  ⟨⟨1, by decide⟩, 0x1000#32, 0x50000000#32, 0x1000#32, by decide⟩
def startTwo : StartCall :=
  ⟨⟨2, by decide⟩, 0x2000#32, 0x50001000#32, 0x1000#32, by decide⟩

/-- Core 1 is started and reads its stack pointers, then core 2; both run their tasks. -/
theorem smpOk_of_acknowledged_inTurn :
    let r := runFn smpStep [] SmpState.init
      [.call startOne, .store, .store, .store, .core 1, .core 1,
        .call startTwo, .store, .store, .store, .core 2, .core 2, .core 1, .core 2]
    SmpOk r.1 r.2 ∧ r.2.cores 1 = .looping 0x50000C00#32 0x50001000#32 ∧
      r.2.cores 2 = .looping 0x50001C00#32 0x50002000#32 := by
  intro r
  have hreach : Reach (fnStep smpStep) Acknowledged SmpState.init r.1 r.2 :=
    reach_runFn ⟨⟨rfl, rfl⟩, acknowledged_store (by decide), acknowledged_store (by decide),
      acknowledged_store (by decide), trivial, trivial, ⟨rfl, rfl⟩,
      acknowledged_store (by decide), acknowledged_store (by decide),
      acknowledged_store (by decide), trivial, trivial, trivial, trivial, trivial⟩
  exact ⟨smpOk_of_acknowledged hreach, by decide, by decide⟩

/-- **A second call overtakes a core.** Cores 1 and 2 are started one after the other with
separate stacks; core 1 reads the word only then, and runs its task on the stack of core 2. -/
theorem not_smpOk_overtaken :
    let r := runFn smpStep [] SmpState.init [.call startOne, .store, .store, .store,
      .call startTwo, .store, .store, .store, .core 1, .core 1, .core 2, .core 2, .core 1]
    Reach (fnStep smpStep) StartedOnce SmpState.init r.1 r.2 ∧
      startOne.stack.toNat + startOne.stackSize.toNat ≤ startTwo.stack.toNat ∧
      r.2.cores 1 = r.2.cores 2 ∧
      r.1.head? = some (.core 1, some ⟨0x1000#32, 0x50001C00#32, 0x50002000#32⟩) ∧
      ¬SmpOk r.1 r.2 := by
  intro r
  refine ⟨reach_runFn ⟨⟨rfl, rfl⟩, trivial, trivial, trivial, ⟨rfl, rfl⟩, trivial, trivial, trivial,
    trivial, trivial, trivial, trivial, trivial, trivial⟩, by decide, by decide, by decide,
    fun hok => ?_⟩
  have hon : OnStack startOne (.looping 0x50001C00#32 0x50002000#32) :=
    hok.onStack 1 startOne (by decide)
  exact absurd hon.1 (by decide)

/-! ### The condition is needed -/

/-- **A call that does not wait can cost a core its stack**: from a state reached so far
without a fault, a stack pointer stored while another core has still to read leaves that core
one step away from a wrong one. -/
theorem not_smpOk_of_overwritten {h : List (SmpEvent × Option Ran)} {s : SmpState}
    (hr : Reach (fnStep smpStep) Acknowledged SmpState.init h s) (hbad : ¬Acknowledged s .store) :
    ∃ i, let r := runFn smpStep h s [.store, .core i]
      ¬SmpOk r.1 r.2 := by
  obtain ⟨hinv, -⟩ := smpInv_of_acknowledged hr
  simp only [Acknowledged, Classical.not_imp, not_forall] at hbad
  obtain ⟨sp, rest, htodo, i, hread, hne⟩ := hbad
  obtain ⟨c, hc, -⟩ := hinv.started i (by rintro hheld; rw [hheld] at hread; cases hread)
  have hword := hinv.secondarySp_eq hread hc
  refine ⟨i, fun hok => ?_⟩
  have hon := hok.onStack i c (by simpa [runFn, startedBy_core, startedBy_store] using hc)
  cases hcore : s.cores i with
  | held => simp [hcore, Core.reading] at hread
  | looping sp irqSp => simp [hcore, Core.reading] at hread
  | released =>
    simp only [runFn, smpStep, htodo, SmpState.put, SmpState.advance, hcore,
      Function.update_self] at hon
    exact hne (hon.trans hword.symm)
  | booting sp₀ =>
    simp only [runFn, smpStep, htodo, SmpState.put, SmpState.advance, hcore,
      Function.update_self] at hon
    refine hne ?_
    rw [hword, StartCall.sp, ← hon.2, BitVec.add_sub_cancel]

end Smp

end BareMetal
