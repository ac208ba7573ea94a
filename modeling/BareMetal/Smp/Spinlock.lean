import BareMetal.Runs
import Mathlib.Data.Option.Basic
import Mathlib.Logic.Function.Basic
import Mathlib.Tactic.Common

/-!
# The spin lock

`spin_lock` is six instructions. It loads the lock word and reserves it, stores a one if the
word was zero and the **reservation** is still there, and goes round if either was not so;
that nothing happened in between is told by the condition flag, which four of the six
instructions look at. `spin_unlock` stores a zero. A store to the word takes away the
reservations of all other cores.

Each instruction of each core is a step, and any interleaving of any number of cores is a run.
What the lock is for is an abstract lock that is free or has one holder
(`BareMetal.Spinlock.LockStep`). The instructions implement it
(`BareMetal.Spinlock.Refines`): the store of `strexeq` that goes through acquires it, the store
of `spin_unlock` releases it, and every other instruction leaves it alone. What makes this work
is that a core which has seen a zero and still has its reservation knows that the word **is**
zero.
-/

namespace BareMetal

namespace Spinlock

variable {ι : Type*}

/-! ### The code -/

/-- The instruction a core executes next, or where it is between the two functions. -/
inductive Pc where
  /-- In neither function, and not in the region that the lock protects. -/
  | outside
  | ldrex | teq | wfene | strexeq | teqeq | bne
  /-- `spin_lock` has returned. -/
  | region
  | str | dsb | sev
  deriving DecidableEq, Repr

/-- A core: where it is, the register `%0`, the flag `z` that makes the condition `eq`, and
whether its reservation of the lock word is intact. -/
structure Core where
  pc : Pc
  tmp : BitVec 32
  z : Bool
  reserved : Bool
  deriving DecidableEq, Repr

/-- The lock word and the cores. -/
structure State (ι : Type*) where
  word : BitVec 32
  core : ι → Core

/-- Before the first call: the lock is free, and the registers hold whatever they hold. -/
def State.init (cores : ι → Core) : State ι := ⟨0#32, fun c => { cores c with pc := .outside }⟩

/-- What happens next. -/
inductive Event (ι : Type*) where
  /-- A core calls `spin_lock`. -/
  | lock (c : ι)
  /-- A core calls `spin_unlock`. -/
  | unlock (c : ι)
  /-- A core executes its next instruction. With `go` a waiting `wfe` returns, and a `strex`
  that may store does. -/
  | exec (c : ι) (go : Bool)
  /-- A core loses its reservation for a reason of its own. -/
  | lose (c : ι)
  deriving DecidableEq

section Code

variable [DecidableEq ι]

/-- Replace a core. -/
def State.setCore (s : State ι) (c : ι) (k : Core) : State ι :=
  { s with core := Function.update s.core c k }

/-- A store of a core to the lock word: the other cores lose their reservations. -/
def State.store (s : State ι) (c : ι) (v : BitVec 32) : State ι :=
  ⟨v, fun d => if d = c then s.core d else { s.core d with reserved := false }⟩

/-- One instruction. -/
def exec (s : State ι) (c : ι) (go : Bool) : State ι :=
  let k := s.core c
  match k.pc with
  | .ldrex => s.setCore c { k with pc := .teq, tmp := s.word, reserved := true }
  | .teq => s.setCore c { k with pc := .wfene, z := k.tmp == 0#32 }
  | .wfene => if k.z || go then s.setCore c { k with pc := .strexeq } else s
  | .strexeq =>
      if k.z then
        if k.reserved && go then
          (s.store c 1#32).setCore c { k with pc := .teqeq, tmp := 0#32, reserved := false }
        else s.setCore c { k with pc := .teqeq, tmp := 1#32, reserved := false }
      else s.setCore c { k with pc := .teqeq }
  | .teqeq => s.setCore c { k with pc := .bne, z := k.z && k.tmp == 0#32 }
  | .bne => s.setCore c { k with pc := if k.z then .region else .ldrex }
  | .str => (s.store c 0#32).setCore c { k with pc := .dsb }
  | .dsb => s.setCore c { k with pc := .sev }
  | .sev => s.setCore c { k with pc := .outside }
  | .outside | .region => s

/-- One step. A core calls a function only while it is in none. -/
def spinStep (s : State ι) : Event ι → Unit × State ι
  | .lock c =>
      ((), if (s.core c).pc = .outside then s.setCore c { s.core c with pc := .ldrex } else s)
  | .unlock c =>
      ((), if (s.core c).pc = .outside ∨ (s.core c).pc = .region then
        s.setCore c { s.core c with pc := .str } else s)
  | .exec c go => ((), exec s c go)
  | .lose c => ((), s.setCore c { s.core c with reserved := false })

end Code

/-- `spin_unlock` is called only while holding the lock. -/
def UnlocksHeld (s : State ι) : Event ι → Prop
  | .unlock c => (s.core c).pc = .region
  | _ => True

/-! ### What the lock is for -/

/-- The core is **in the region**: `spin_lock` has returned, and `spin_unlock` has not stored
yet. -/
def Core.InRegion (k : Core) : Prop := k.pc = .region ∨ k.pc = .str

/-- The `strex` of the core **has just succeeded**: the rest of `spin_lock` returns. -/
def Core.Stored (k : Core) : Prop :=
  (k.pc = .teqeq ∧ k.z = true ∧ k.tmp = 0#32) ∨ (k.pc = .bne ∧ k.z = true)

/-- **Mutual exclusion**: one core at most is in the region, and the word is non-zero exactly
while some core is there or has just succeeded its `strex`. -/
structure SpinExclusive (s : State ι) : Prop where
  one : ∀ c d, (s.core c).InRegion → (s.core d).InRegion → c = d
  word : s.word ≠ 0#32 ↔ ∃ c, (s.core c).InRegion ∨ (s.core c).Stored

/-- What is done to an abstract lock. -/
inductive LockEvent (ι : Type*) where
  | acquire (c : ι)
  | release (c : ι)

/-- **An abstract lock** is free or has a holder. -/
inductive LockStep : Option ι → LockEvent ι → Unit → Option ι → Prop
  | acquire {c : ι} : LockStep none (.acquire c) () (some c)
  | release {c : ι} : LockStep (some c) (.release c) () none

/-! ### The instructions implement the abstract lock -/

/-- The core holds the lock. -/
def Core.Holds (k : Core) : Prop := k.InRegion ∨ k.Stored

/-- The core has loaded a zero and its `strex` is still to come. -/
def Core.Seen (k : Core) : Prop :=
  (k.pc = .teq ∧ k.tmp = 0#32) ∨ ((k.pc = .wfene ∨ k.pc = .strexeq) ∧ k.z = true)

/-- The state of the instructions **refines** that of the abstract lock: the holder is the core
that holds the lock, the word says whether there is one, and a reservation of a core that has
loaded a zero is worth something. -/
structure Refines (s : State ι) (o : Option ι) : Prop where
  holder : ∀ c, (s.core c).Holds ↔ o = some c
  word : s.word ≠ 0#32 ↔ o ≠ none
  seen : ∀ c, (s.core c).reserved = true → (s.core c).Seen → s.word = 0#32

theorem Refines.exclusive {s : State ι} {o : Option ι} (href : Refines s o) : SpinExclusive s where
  one c d hc hd := by
    have hoc := (href.holder c).mp (Or.inl hc)
    have hod := (href.holder d).mp (Or.inl hd)
    exact Option.some_injective _ (hoc.symm.trans hod)
  word := by
    rw [href.word, Option.ne_none_iff_exists']
    exact exists_congr fun c => (href.holder c).symm

theorem refines_init (cores : ι → Core) : Refines (State.init cores) none where
  holder c := by simp [State.init, Core.Holds, Core.InRegion, Core.Stored]
  word := by simp [State.init]
  seen c _ _ := rfl

section Steps

variable [DecidableEq ι] {s : State ι} {o : Option ι} {c : ι} {k : Core}

theorem core_setCore (d : ι) : (s.setCore c k).core d = if d = c then k else s.core d := by
  by_cases hd : d = c
  · subst hd
    simp [State.setCore]
  · simp [State.setCore, hd]

/-- The cores after a store of a core that goes on as `k`. -/
theorem core_store_setCore (v : BitVec 32) (d : ι) :
    ((s.store c v).setCore c k).core d =
      if d = c then k else { s.core d with reserved := false } := by
  rw [core_setCore]
  by_cases hd : d = c
  · rw [if_pos hd, if_pos hd]
  · simp [State.store, hd]

/-- **A core that changes nothing but itself**: the lock is as before if the core holds it
afterwards just if it did, and knows no more than is true. -/
theorem Refines.setCore (href : Refines s o) (hholds : k.Holds ↔ (s.core c).Holds)
    (hseen : k.reserved = true → k.Seen → s.word = 0#32) : Refines (s.setCore c k) o where
  holder d := by
    rw [core_setCore]
    by_cases hd : d = c
    · subst hd
      rw [if_pos rfl, hholds]
      exact href.holder d
    · rw [if_neg hd]
      exact href.holder d
  word := href.word
  seen d := by
    rw [core_setCore]
    by_cases hd : d = c
    · rw [if_pos hd]
      exact hseen
    · rw [if_neg hd]
      exact href.seen d

/-- **A store moves the lock**: the other cores hold it just as before, and none of them has a
reservation left. -/
theorem Refines.store {o' : Option ι} {v : BitVec 32} (href : Refines s o)
    (hothers : ∀ d, d ≠ c → (o' = some d ↔ o = some d)) (hholds : k.Holds ↔ o' = some c)
    (hword : v ≠ 0#32 ↔ o' ≠ none) (hseen : ¬k.Seen) :
    Refines ((s.store c v).setCore c k) o' where
  holder d := by
    rw [core_store_setCore]
    by_cases hd : d = c
    · subst hd
      rwa [if_pos rfl]
    · rw [if_neg hd, hothers d hd]
      exact href.holder d
  word := hword
  seen d := by
    rw [core_store_setCore]
    by_cases hd : d = c
    · rw [if_pos hd]
      exact fun _ h => absurd h hseen
    · rw [if_neg hd]
      intro h
      exact absurd h Bool.false_ne_true

/-- What an instruction does to the abstract lock: nothing, or one step. -/
def Moves (t : State ι) (o : Option ι) : Prop :=
  Refines t o ∨ ∃ f p o', LockStep o f p o' ∧ Refines t o'

/-- A `strex` that goes through acquires the lock, which is free. -/
theorem moves_strex (href : Refines s o) (hpc : (s.core c).pc = .strexeq)
    (hz : (s.core c).z = true) (hres : (s.core c).reserved = true) :
    Moves ((s.store c 1#32).setCore c
      { s.core c with pc := .teqeq, tmp := 0#32, reserved := false }) o := by
  have hzero : s.word = 0#32 := href.seen c hres (Or.inr ⟨Or.inr hpc, hz⟩)
  have hfree : o = none := by
    by_contra hne
    exact href.word.mpr hne hzero
  subst hfree
  refine Or.inr ⟨_, _, _, LockStep.acquire (c := c), href.store ?_ ?_ ?_ ?_⟩
  · intro d hd
    simpa using Ne.symm hd
  · simp [Core.Holds, Core.Stored, hz]
  · simp
  · simp [Core.Seen]

/-- The store of `spin_unlock` releases the lock, which the core holds. -/
theorem moves_str (href : Refines s o) (hpc : (s.core c).pc = .str) :
    Moves ((s.store c 0#32).setCore c { s.core c with pc := .dsb }) o := by
  have hheld : o = some c := (href.holder c).mp (Or.inl (Or.inr hpc))
  subst hheld
  refine Or.inr ⟨_, _, _, LockStep.release (c := c), href.store ?_ ?_ ?_ ?_⟩
  · intro d hd
    simpa using Ne.symm hd
  · simp [Core.Holds, Core.InRegion, Core.Stored]
  · simp
  · simp [Core.Seen]

/-- **What one instruction does to the abstract lock.** -/
theorem moves_exec (href : Refines s o) (c : ι) (go : Bool) : Moves (exec s c go) o := by
  have hseen := href.seen c
  unfold exec
  dsimp only
  split
  · -- `ldrex`: what has been loaded is the word
    rename_i hpc
    refine Or.inl (href.setCore ?_ ?_)
    · simp [Core.Holds, Core.InRegion, Core.Stored, hpc]
    · simp [Core.Seen]
  · rename_i hpc
    refine Or.inl (href.setCore ?_ ?_)
    · simp [Core.Holds, Core.InRegion, Core.Stored, hpc]
    · simpa [Core.Seen, hpc] using hseen
  · rename_i hpc
    split
    · refine Or.inl (href.setCore ?_ ?_)
      · simp [Core.Holds, Core.InRegion, Core.Stored, hpc]
      · simpa [Core.Seen, hpc] using hseen
    · exact Or.inl href
  · rename_i hpc
    split
    · rename_i hz
      split
      · rename_i hgo
        rw [Bool.and_eq_true] at hgo
        exact moves_strex href hpc hz hgo.1
      · -- it did not go through, and the register says so
        refine Or.inl (href.setCore ?_ ?_)
        · simp [Core.Holds, Core.InRegion, Core.Stored, hpc]
        · simp
    · rename_i hz
      refine Or.inl (href.setCore ?_ ?_)
      · simp [Core.Holds, Core.InRegion, Core.Stored, hpc, hz]
      · simp [Core.Seen]
  · rename_i hpc
    refine Or.inl (href.setCore ?_ ?_)
    · simp [Core.Holds, Core.InRegion, Core.Stored, hpc]
    · simp [Core.Seen]
  · rename_i hpc
    refine Or.inl (href.setCore ?_ ?_)
    · cases hz : (s.core c).z <;> simp [Core.Holds, Core.InRegion, Core.Stored, hpc, hz]
    · cases hz : (s.core c).z <;> simp [Core.Seen]
  · rename_i hpc
    exact moves_str href hpc
  · rename_i hpc
    refine Or.inl (href.setCore ?_ ?_)
    · simp [Core.Holds, Core.InRegion, Core.Stored, hpc]
    · simp [Core.Seen]
  · rename_i hpc
    refine Or.inl (href.setCore ?_ ?_)
    · simp [Core.Holds, Core.InRegion, Core.Stored, hpc]
    · simp [Core.Seen]
  · exact Or.inl href
  · exact Or.inl href

/-- **What one step does to the abstract lock.** -/
theorem moves_step (href : Refines s o) {e : Event ι} (hok : UnlocksHeld s e) :
    Moves (spinStep s e).2 o := by
  cases e with
  | exec c go => exact moves_exec href c go
  | lock c =>
    simp only [spinStep]
    split
    · rename_i hpc
      refine Or.inl (href.setCore ?_ ?_)
      · simp [Core.Holds, Core.InRegion, Core.Stored, hpc]
      · simp [Core.Seen]
    · exact Or.inl href
  | unlock c =>
    have hpc : (s.core c).pc = .region := hok
    simp only [spinStep, hpc]
    refine Or.inl (href.setCore ?_ ?_)
    · simp [Core.Holds, Core.InRegion, hpc]
    · simp [Core.Seen]
  | lose c =>
    refine Or.inl (href.setCore ?_ ?_)
    · simp [Core.Holds, Core.InRegion, Core.Stored]
    · simp

end Steps

/-! ### Every run -/

section Run

variable [DecidableEq ι] {cores : ι → Core}

/-- **The instructions implement the abstract lock**, in every interleaving of cores that call
`spin_unlock` only while they hold it. -/
theorem refines_of_unlocksHeld {h : List (Event ι × Unit)} {s : State ι}
    (hr : Reach (fnStep spinStep) UnlocksHeld (State.init cores) h s) :
    ∃ h' o, Reach LockStep Always none h' o ∧ Refines s o := by
  refine hr.simulated Refines (refines_init cores) ?_
  rintro s o e p s' href hok hstep
  have hmoves := moves_step href hok
  rw [show spinStep s e = (p, s') from hstep] at hmoves
  rcases hmoves with hstay | ⟨f, q, o', hmove, href'⟩
  · exact Or.inl hstay
  · exact Or.inr ⟨f, q, o', trivial, hmove, href'⟩

/-- **The spin lock excludes**: in every interleaving of any number of cores that call
`spin_unlock` only while they hold the lock, one core at most is in the region, and the word is
non-zero exactly while some core is there or has just succeeded its `strex`. -/
theorem spinExclusive_of_unlocksHeld {h : List (Event ι × Unit)} {s : State ι}
    (hr : Reach (fnStep spinStep) UnlocksHeld (State.init cores) h s) : SpinExclusive s := by
  obtain ⟨-, o, -, href⟩ := refines_of_unlocksHeld hr
  exact href.exclusive

end Run

/-- Two cores load a zero one after the other, and the second finds its reservation gone. -/
theorem spinExclusive_of_unlocksHeld_race :
    let r := runFn spinStep [] (State.init fun _ : Fin 2 => ⟨.outside, 0#32, false, false⟩)
      [.lock 0, .lock 1, .exec 0 true, .exec 1 true, .exec 0 true, .exec 1 true, .exec 0 true,
        .exec 1 true, .exec 0 true, .exec 1 true, .exec 0 true, .exec 0 true]
    SpinExclusive r.2 ∧ (r.2.core 0).pc = .region ∧ (r.2.core 1).pc = .teqeq ∧
      (r.2.core 1).tmp = 1#32 := by
  intro r
  have hreach : Reach (fnStep spinStep) UnlocksHeld
      (State.init fun _ : Fin 2 => ⟨.outside, 0#32, false, false⟩) r.1 r.2 :=
    reach_runFn (by simp [OkAlong, UnlocksHeld])
  exact ⟨spinExclusive_of_unlocksHeld hreach, by decide, by decide, by decide⟩

end Spinlock

end BareMetal
