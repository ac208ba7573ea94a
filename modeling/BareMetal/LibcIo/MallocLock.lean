import BareMetal.Runs
import Mathlib.Algebra.Order.Ring.Nat
import Mathlib.Tactic.Common

/-!
# The recursive lock of the allocator

newlib takes a lock around every allocator call and takes it again in the calls it nests,
so `libc_io.c` keeps an owner and a count next to its spin lock. The sections under the
spin lock are the atomic steps: one turn of the loop of `__wrap___malloc_lock`, which
acquires, nests or tries again, and the whole of `__wrap___malloc_unlock`. Neither looks at
who is calling `unlock`, and the owner is meaningless while the count is zero.

The count is a C `int`. An increment at `INT_MAX` is undefined, so a turn that would make
one has no result (`BareMetal.LibcIo.mallocLockTurn` is `none` there) and the runs below are
the defined executions; `BareMetal.LibcIo.mallocLockTurn_eq_none_iff` says that nothing but
a core nested `INT_MAX` deep can meet that case.

The whole development is one observation, `BareMetal.LibcIo.MallocInv`: at any time the lock
is free, or there is one core it is **held by**, whose depth is the count.
-/

namespace BareMetal

namespace LibcIo

/-! ### The code -/

/-- `INT_MAX`. -/
def intMax : ℤ := 2 ^ 31 - 1

/-- `malloc_lock_owner` and `malloc_lock_count`. -/
structure MallocLock where
  owner : ℤ
  count : ℤ
  deriving DecidableEq, Repr

/-- How a turn of the loop of `__wrap___malloc_lock` ends. -/
inductive Turn where
  /-- The lock was free: the call returns. -/
  | acquired
  /-- The lock was the caller's already: the call returns. -/
  | nested
  /-- The lock is another core's: the loop goes round. -/
  | retry
  deriving DecidableEq, Repr

/-- One turn of the loop of `__wrap___malloc_lock`, between taking and releasing
`malloc_lock_v`, on the core that `smp_get_core_id` names. -/
def mallocLockTurn (m : MallocLock) (core : Fin 4) : Option (Turn × MallocLock) :=
  if m.count ≤ 0 then
    some (.acquired, ⟨core, 1⟩)
  else if m.owner = core then
    if m.count = intMax then none else some (.nested, { m with count := m.count + 1 })
  else
    some (.retry, m)

/-- `__wrap___malloc_unlock`. The decrement is made on a count that is never negative, so
it is defined. -/
def mallocUnlock (m : MallocLock) : MallocLock :=
  if m.count - 1 ≤ 0 then { m with count := 0 } else { m with count := m.count - 1 }

/-! ### Four cores -/

/-- The lock, and how deep each core is in the allocator: how many of its calls of
`__wrap___malloc_lock` have returned and not been undone. -/
structure MallocCores where
  lock : MallocLock
  depth : Fin 4 → ℕ

/-- What a core does next. -/
inductive MallocCall where
  /-- One turn of the loop of `__wrap___malloc_lock`. -/
  | lock (core : Fin 4)
  /-- `__wrap___malloc_unlock`. -/
  | unlock (core : Fin 4)
  deriving DecidableEq, Repr

/-- The power-on state: everything is zero. -/
def MallocCores.init : MallocCores := ⟨⟨0, 0⟩, fun _ => 0⟩

/-- One atomic step of one core. -/
inductive MallocStep : MallocCores → MallocCall → Option Turn → MallocCores → Prop
  /-- A turn that returns takes its core one deeper. -/
  | enter {s : MallocCores} {c : Fin 4} {a : Turn} {l : MallocLock}
      (hturn : mallocLockTurn s.lock c = some (a, l)) (ha : a ≠ .retry) :
      MallocStep s (.lock c) (some a) ⟨l, Function.update s.depth c (s.depth c + 1)⟩
  /-- A turn that goes round leaves the depths alone. -/
  | retry {s : MallocCores} {c : Fin 4} {l : MallocLock}
      (hturn : mallocLockTurn s.lock c = some (.retry, l)) :
      MallocStep s (.lock c) (some .retry) ⟨l, s.depth⟩
  /-- `unlock` takes its core one up. -/
  | leave {s : MallocCores} {c : Fin 4} :
      MallocStep s (.unlock c) none
        ⟨mallocUnlock s.lock, Function.update s.depth c (s.depth c - 1)⟩

/-- A core unlocks only as often as it has locked. -/
def Balanced (s : MallocCores) : MallocCall → Prop
  | .lock _ => True
  | .unlock c => 0 < s.depth c

/-! ### Free, or held by one core -/

/-- Nobody is in the allocator. -/
structure Free (s : MallocCores) : Prop where
  count : s.lock.count = 0
  depth : ∀ c, s.depth c = 0

/-- Core `c` is in the allocator, and it is alone there. -/
structure HeldBy (s : MallocCores) (c : Fin 4) : Prop where
  owner : s.lock.owner = c
  count : s.lock.count = s.depth c
  pos : 0 < s.depth c
  others : ∀ d, d ≠ c → s.depth d = 0

/-- The invariant of the lock. -/
def MallocInv (s : MallocCores) : Prop := Free s ∨ ∃ c, HeldBy s c

theorem HeldBy.count_pos {s : MallocCores} {c : Fin 4} (h : HeldBy s c) : 0 < s.lock.count := by
  have := h.pos
  rw [h.count]
  omega

/-- Whoever is in the allocator is the core that holds the lock. -/
theorem HeldBy.eq_of_pos {s : MallocCores} {c d : Fin 4} (h : HeldBy s c) (hd : 0 < s.depth d) :
    d = c := by
  by_contra hne
  rw [h.others d hne] at hd
  exact absurd hd (lt_irrefl 0)

theorem HeldBy.owner_eq_iff {s : MallocCores} {c d : Fin 4} (h : HeldBy s c) :
    s.lock.owner = d ↔ d = c := by
  rw [h.owner]
  omega

/-- A turn on a free lock acquires it. -/
theorem mallocLockTurn_free {s : MallocCores} (h : Free s) (c : Fin 4) :
    mallocLockTurn s.lock c = some (.acquired, ⟨c, 1⟩) := by
  rw [mallocLockTurn, if_pos h.count.le]

/-- A turn of the holder nests, while the count can still be incremented. -/
theorem mallocLockTurn_own {s : MallocCores} {c : Fin 4} (h : HeldBy s c) :
    mallocLockTurn s.lock c = if s.lock.count = intMax then none else
      some (.nested, { s.lock with count := s.lock.count + 1 }) := by
  rw [mallocLockTurn, if_neg (not_le.mpr h.count_pos), if_pos h.owner]

/-- A turn of another core goes round and changes nothing. -/
theorem mallocLockTurn_other {s : MallocCores} {c d : Fin 4} (h : HeldBy s c) (hne : d ≠ c) :
    mallocLockTurn s.lock d = some (.retry, s.lock) := by
  rw [mallocLockTurn, if_neg (not_le.mpr h.count_pos),
    if_neg (fun he => hne (h.owner_eq_iff.mp he))]

/-- Entering a free lock leaves it held, one deep. -/
theorem Free.enter {s : MallocCores} (h : Free s) (c : Fin 4) :
    HeldBy ⟨⟨c, 1⟩, Function.update s.depth c (s.depth c + 1)⟩ c where
  owner := rfl
  count := by simp [h.depth c]
  pos := by simp
  others d hd := by simp [hd, h.depth d]

/-- Nesting keeps the holder, one deeper. -/
theorem HeldBy.nest {s : MallocCores} {c : Fin 4} (h : HeldBy s c) :
    HeldBy ⟨{ s.lock with count := s.lock.count + 1 },
      Function.update s.depth c (s.depth c + 1)⟩ c where
  owner := h.owner
  count := by simp [h.count]
  pos := by simp
  others d hd := by simp [hd, h.others d hd]

/-- Unlocking brings the holder one up: out of the allocator at depth one, else it stays. -/
theorem HeldBy.leave {s : MallocCores} {c : Fin 4} (h : HeldBy s c) :
    MallocInv ⟨mallocUnlock s.lock, Function.update s.depth c (s.depth c - 1)⟩ := by
  have hpos := h.pos
  have hcount := h.count
  by_cases hone : s.depth c = 1
  · refine Or.inl ⟨?_, fun d => ?_⟩
    · rw [mallocUnlock, if_pos (by omega)]
    · by_cases hd : d = c
      · simp [hd, hone]
      · simp [hd, h.others d hd]
  · refine Or.inr ⟨c, ?_, ?_, ?_, fun d hd => ?_⟩
    · rw [mallocUnlock, if_neg (by omega)]
      exact h.owner
    · rw [mallocUnlock, if_neg (by omega)]
      simp only [Function.update_self]
      omega
    · simp only [Function.update_self]
      omega
    · simp [hd, h.others d hd]

/-- **Every step keeps the invariant.** -/
theorem mallocInv_step {s t : MallocCores} {e : MallocCall} {o : Option Turn}
    (hinv : MallocInv s) (hok : Balanced s e) (hstep : MallocStep s e o t) : MallocInv t := by
  cases hstep with
  | @enter c a l hturn ha =>
    rcases hinv with hfree | ⟨d, hheld⟩
    · rw [mallocLockTurn_free hfree] at hturn
      simp only [Option.some.injEq, Prod.mk.injEq] at hturn
      obtain ⟨-, rfl⟩ := hturn
      exact Or.inr ⟨c, hfree.enter c⟩
    · by_cases hc : c = d
      · subst hc
        rw [mallocLockTurn_own hheld] at hturn
        split at hturn
        · simp at hturn
        · simp only [Option.some.injEq, Prod.mk.injEq] at hturn
          obtain ⟨-, rfl⟩ := hturn
          exact Or.inr ⟨c, hheld.nest⟩
      · -- another core does not get in
        rw [mallocLockTurn_other hheld hc] at hturn
        simp only [Option.some.injEq, Prod.mk.injEq] at hturn
        exact absurd hturn.1.symm ha
  | @retry c l hturn =>
    rcases hinv with hfree | ⟨d, hheld⟩
    · rw [mallocLockTurn_free hfree] at hturn
      simp at hturn
    · by_cases hc : c = d
      · subst hc
        rw [mallocLockTurn_own hheld] at hturn
        split at hturn <;> simp at hturn
      · rw [mallocLockTurn_other hheld hc] at hturn
        simp only [Option.some.injEq, Prod.mk.injEq, true_and] at hturn
        subst hturn
        exact Or.inr ⟨d, hheld⟩
  | @leave c =>
    rcases hinv with hfree | ⟨d, hheld⟩
    · exact absurd (hfree.depth c) hok.ne'
    · -- whoever unlocks is in the allocator, and that is the holder
      obtain rfl := hheld.eq_of_pos hok
      exact hheld.leave

/-! ### Every run -/

/-- What the lock is for: one core at most is in the allocator, the count is its depth and
the owner is that core while the count is positive, and the count is zero exactly when
nobody is in. -/
def MallocExclusive (s : MallocCores) : Prop :=
  (∀ c d, 0 < s.depth c → 0 < s.depth d → c = d) ∧
    (∀ c, 0 < s.depth c → s.lock.count = s.depth c) ∧
    (0 < s.lock.count → ∃ c : Fin 4, s.lock.owner = c ∧ 0 < s.depth c) ∧
    (s.lock.count = 0 ↔ ∀ c, s.depth c = 0)

theorem MallocInv.exclusive {s : MallocCores} (hinv : MallocInv s) : MallocExclusive s := by
  rcases hinv with hfree | ⟨c, hheld⟩
  · have hdepth : ∀ d, ¬0 < s.depth d := fun d hd => hd.ne' (hfree.depth d)
    refine ⟨fun d _ hd => absurd hd (hdepth d), fun d hd => absurd hd (hdepth d), fun hpos => ?_,
      fun _ => hfree.depth, fun _ => hfree.count⟩
    exact absurd hfree.count hpos.ne'
  · refine ⟨fun d d' hd hd' => ?_, fun d hd => ?_, fun _ => ⟨c, hheld.owner, hheld.pos⟩,
      fun h0 => absurd h0 hheld.count_pos.ne', fun h0 => absurd (h0 c) hheld.pos.ne'⟩
    · rw [hheld.eq_of_pos hd, hheld.eq_of_pos hd']
    · rw [hheld.eq_of_pos hd, hheld.count]

/-- Along the balanced runs the lock is free or held by one core. -/
theorem mallocInv_of_reach {h : List (MallocCall × Option Turn)} {s : MallocCores}
    (hr : Reach MallocStep Balanced MallocCores.init h s) : MallocInv s :=
  hr.invariant (fun _ => MallocInv) (Or.inl ⟨rfl, fun _ => rfl⟩)
    fun _ _ _ _ _ hinv hok hstep => mallocInv_step hinv hok hstep

/-- **The allocator lock excludes the other cores**, in every interleaving of four cores
that unlock only as often as they have locked. -/
theorem mallocExclusive_of_balanced {h : List (MallocCall × Option Turn)} {s : MallocCores}
    (hr : Reach MallocStep Balanced MallocCores.init h s) : MallocExclusive s :=
  (mallocInv_of_reach hr).exclusive

/-- Core 1 enters twice and core 2 goes round. -/
theorem mallocExclusive_of_balanced_nested :
    MallocExclusive ⟨⟨1, 2⟩, Function.update (Function.update (fun _ => 0) 1 1) 1 2⟩ := by
  have h1 : Reach MallocStep Balanced MallocCores.init _ _ :=
    Reach.start.next (e := MallocCall.lock 1) trivial (.enter rfl (by decide))
  have h2 := h1.next (e := MallocCall.lock 2) trivial (.retry rfl)
  have h3 := h2.next (e := MallocCall.lock 1) trivial (.enter rfl (by decide))
  exact mallocExclusive_of_balanced h3

/-- **A turn is undefined in one case only**: its core is in the allocator already, nested
`INT_MAX` deep. -/
theorem mallocLockTurn_eq_none_iff {h : List (MallocCall × Option Turn)} {s : MallocCores}
    (hr : Reach MallocStep Balanced MallocCores.init h s) (c : Fin 4) :
    mallocLockTurn s.lock c = none ↔ (s.depth c : ℤ) = intMax := by
  have hmax : intMax ≠ 0 := by decide
  rcases mallocInv_of_reach hr with hfree | ⟨d, hheld⟩
  · rw [mallocLockTurn_free hfree, hfree.depth c]
    simpa using hmax.symm
  · by_cases hc : c = d
    · subst hc
      rw [mallocLockTurn_own hheld, hheld.count]
      simp
    · rw [mallocLockTurn_other hheld hc, hheld.others c hc]
      simpa using hmax.symm

end LibcIo

end BareMetal
