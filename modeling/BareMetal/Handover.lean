import Mathlib.Logic.Function.Basic
import Mathlib.Tactic.Common

/-!
# Handing over through shared memory

One party leaves a value in memory it shares with others, tells one of them, and goes on;
the reader looks at the value at some later moment, and nothing tells the first party that
it has. Between the two moments a value is **due** to the reader. The pattern is safe as long
as nothing that is due is disturbed (`BareMetal.Undisturbed`): every reader that has still to
read would, reading now, find the value it is due.

This file is the induction step of that argument, over an arbitrary memory, arbitrary
readers and whatever each of them sees of the memory. A step of a system writes to the
memory, makes a value due, or settles one, and `BareMetal.Undisturbed.step` covers the three
at once.
-/

namespace BareMetal

variable {M R V : Type*} {view : M → R → V} {due due' : R → Option V} {m m' : M}

/-- **Nothing that is due has been disturbed**: every reader to which a value is due would
read that value now. -/
def Undisturbed (view : M → R → V) (due : R → Option V) (m : M) : Prop :=
  ∀ r v, due r = some v → view m r = v

/-- Nothing is due at the start. -/
theorem undisturbed_none (hdue : ∀ r, due r = none) : Undisturbed view due m := by
  intro r v hv
  rw [hdue r] at hv
  exact absurd hv (by simp)

/-- **One step**: a value that is due afterwards was due before, and the memory its reader
sees is the same, or it is what the reader sees now. -/
theorem Undisturbed.step (h : Undisturbed view due m)
    (hstep : ∀ r v, due' r = some v →
      (due r = some v ∧ view m' r = view m r) ∨ view m' r = v) :
    Undisturbed view due' m' := by
  intro r v hv
  rcases hstep r v hv with ⟨hdue, hsame⟩ | hnow
  · rw [hsame]
    exact h r v hdue
  · exact hnow

/-- Settling what is due to some of the readers disturbs nobody. -/
theorem Undisturbed.settle (h : Undisturbed view due m)
    (hless : ∀ r v, due' r = some v → due r = some v) : Undisturbed view due' m :=
  h.step fun r v hv => Or.inl ⟨hless r v hv, rfl⟩

/-- A write that no reader sees to whom a value is due. -/
theorem Undisturbed.write (h : Undisturbed view due m)
    (hsame : ∀ r v, due r = some v → view m' r = view m r) : Undisturbed view due m' :=
  h.step fun r v hv => Or.inl ⟨hv, hsame r v hv⟩

/-- **The hand-over itself**: a value that one more reader would read now becomes due to it. -/
theorem Undisturbed.grant (h : Undisturbed view due m) (r₀ : R) {v₀ : V} (hsees : view m r₀ = v₀)
    (hself : due' r₀ = some v₀) (hother : ∀ r, r ≠ r₀ → due' r = due r) :
    Undisturbed view due' m := by
  refine h.step fun r v hv => ?_
  by_cases hr : r = r₀
  · subst hr
    rw [hself] at hv
    exact Or.inr (hsees.trans (Option.some.inj hv))
  · rw [hother r hr] at hv
    exact Or.inl ⟨hv, rfl⟩

end BareMetal
