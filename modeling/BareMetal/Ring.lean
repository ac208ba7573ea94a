import Mathlib.Algebra.Group.Fin.Basic
import Mathlib.Algebra.Order.Ring.Nat
import Mathlib.Tactic.Common

/-!
# Queues in a ring

A ring of `N` cells with a position in it, over an arbitrary type of items. A producer fills
the cells one after the other and goes round; a consumer empties them in the same order. A
cell is empty or holds one item, and that is all that is written down: there is no count and
no second index.

`BareMetal.RingHolds` says that the ring, read from a position on, **holds a queue**: its
items are in the first cells and the cells after them are empty. The producer's step appends
to the queue (`BareMetal.RingHolds.push`), the consumer's removes its head and advances the
position (`BareMetal.RingHolds.pop`).
-/

namespace BareMetal

variable {N : ℕ} [NeZero N] {α : Type*}

/-- The cell `j` places after a position. -/
def place (start : Fin N) (j : ℕ) : Fin N := start + Fin.ofNat N j

@[simp] theorem place_zero (start : Fin N) : place start 0 = start := by
  simp [place]

theorem place_add_one (start : Fin N) (j : ℕ) : place start j + 1 = place start (j + 1) := by
  have hone : (Fin.ofNat N (j + 1) : Fin N) = Fin.ofNat N j + 1 := by
    ext
    simp [Fin.val_add]
  rw [place, place, hone, add_assoc]

theorem place_succ (start : Fin N) (j : ℕ) : place start (j + 1) = place (start + 1) j := by
  rw [← place_add_one, place, place, add_right_comm]

theorem place_injective {start : Fin N} {i j : ℕ} (hi : i < N) (hj : j < N)
    (h : place start i = place start j) : i = j := by
  have hof : Fin.ofNat N i = Fin.ofNat N j := add_left_cancel h
  have hval : i % N = j % N := congrArg Fin.val hof
  rwa [Nat.mod_eq_of_lt hi, Nat.mod_eq_of_lt hj] at hval

/-- After the last place comes the first. -/
theorem place_last (start : Fin N) : place start N = start := by
  have hzero : (Fin.ofNat N N : Fin N) = 0 := by
    ext
    simp
  rw [place, hzero, add_zero]

/-- **The ring holds a queue** from a position on. -/
structure RingHolds (cell : Fin N → Option α) (start : Fin N) (xs : List α) : Prop where
  length_le : xs.length ≤ N
  cell_eq : ∀ j < N, cell (place start j) = xs[j]?

variable {cell : Fin N → Option α} {start : Fin N} {xs : List α}

theorem ringHolds_empty (h : ∀ i, cell i = none) (start : Fin N) : RingHolds cell start [] :=
  ⟨Nat.zero_le N, fun j _ => by simp [h]⟩

/-- The cell at the position is the head of the queue. -/
theorem RingHolds.head (h : RingHolds cell start xs) : cell start = xs[0]? := by
  have := h.cell_eq 0 (Nat.pos_of_ne_zero (NeZero.ne N))
  rwa [place_zero] at this

/-- The cell after the queue is empty only if the queue leaves room for it. -/
theorem RingHolds.length_lt (h : RingHolds cell start xs)
    (hnone : cell (place start xs.length) = none) : xs.length < N := by
  refine lt_of_le_of_ne h.length_le fun hfull => ?_
  -- in a full ring the cell after the queue is the one at its head
  rw [hfull, place_last, h.head] at hnone
  have hpos : 0 < xs.length := by
    rw [hfull]
    exact Nat.pos_of_ne_zero (NeZero.ne N)
  rw [List.getElem?_eq_none_iff] at hnone
  omega

/-- **The producer's step**: filling the cell after the queue appends to it. -/
theorem RingHolds.push (h : RingHolds cell start xs) (hlt : xs.length < N) (x : α) :
    RingHolds (Function.update cell (place start xs.length) (some x)) start (xs ++ [x]) where
  length_le := by
    simp only [List.length_append, List.length_singleton]
    omega
  cell_eq j hj := by
    by_cases hjx : j = xs.length
    · subst hjx
      simp
    · have hne : place start j ≠ place start xs.length := fun hcon =>
        hjx (place_injective hj hlt hcon)
      rw [Function.update_of_ne hne, h.cell_eq j hj]
      rcases Nat.lt_or_gt_of_ne hjx with hlt' | hgt
      · rw [List.getElem?_append_left hlt']
      · rw [List.getElem?_eq_none (by omega), List.getElem?_eq_none (by simp; omega)]

/-- **The consumer's step**: emptying the cell at the position and moving on removes the
head. -/
theorem RingHolds.pop {x : α} (h : RingHolds cell start (x :: xs)) :
    RingHolds (Function.update cell start none) (start + 1) xs where
  length_le := by
    have := h.length_le
    simp only [List.length_cons] at this
    omega
  cell_eq j hj := by
    have hlen := h.length_le
    simp only [List.length_cons] at hlen
    rw [← place_succ]
    by_cases hlast : j + 1 = N
    · rw [hlast, place_last, Function.update_self, List.getElem?_eq_none (by omega)]
    · have hne : place start (j + 1) ≠ start := by
        intro hcon
        have h0 : j + 1 = 0 :=
          place_injective (by omega) (by omega) (hcon.trans (place_zero start).symm)
        omega
      rw [Function.update_of_ne hne, h.cell_eq (j + 1) (by omega), List.getElem?_cons_succ]

end BareMetal
