import Mathlib.Data.Nat.Notation
import Mathlib.Tactic.Common

/-!
# Blocks of memory

A memory is a function from addresses to bytes, of whatever type, and a block is an address
and a length. Everything that moves data – a copy, a transfer of a device, a read of a file –
is `BareMetal.blit`: some bytes are stored from an address on, and every other byte is as it
was. Two blocks that are `BareMetal.Apart` have no byte in common, so that storing in one
leaves the other alone.
-/

namespace BareMetal

variable {β : Type*} {m m' : ℕ → β} {f : ℕ → β} {a b n k i : ℕ}

/-- The `n` bytes `f 0`, `f 1`, … are stored from the address `a` on. -/
def blit (m : ℕ → β) (a : ℕ) (f : ℕ → β) (n : ℕ) : ℕ → β :=
  fun x => if a ≤ x ∧ x < a + n then f (x - a) else m x

/-- Two blocks have no byte in common. -/
def Apart (a n b k : ℕ) : Prop := a + n ≤ b ∨ b + k ≤ a

instance : Decidable (Apart a n b k) := inferInstanceAs (Decidable (_ ∨ _))

/-- The bytes of a block. -/
def load (m : ℕ → β) (a n : ℕ) : List β := (List.range n).map fun i => m (a + i)

/-- A byte that is stored. -/
theorem blit_add (hi : i < n) : blit m a f n (a + i) = f i := by
  rw [blit, if_pos (by omega), Nat.add_sub_cancel_left]

/-- A byte behind those that are stored. -/
theorem blit_add_of_le (hi : n ≤ i) : blit m a f n (a + i) = m (a + i) := by
  rw [blit, if_neg (by omega)]

/-- A byte of a block that is apart. -/
theorem blit_apart (h : Apart a n b k) (hi : i < k) : blit m a f n (b + i) = m (b + i) := by
  rw [blit, if_neg]
  rcases h with h | h <;> omega

/-- Nothing is stored. -/
@[simp] theorem blit_zero (m : ℕ → β) (a : ℕ) (f : ℕ → β) : blit m a f 0 = m := by
  funext x
  rw [blit, if_neg (by omega)]

theorem load_congr (h : ∀ i < n, m (a + i) = m' (b + i)) : load m a n = load m' b n :=
  List.map_congr_left fun i hi => h i (List.mem_range.mp hi)

/-- A block in two parts. -/
theorem load_add (m : ℕ → β) (a n k : ℕ) : load m a (n + k) = load m a n ++ load m (a + n) k := by
  rw [load, List.range_add, List.map_append, List.map_map]
  simp [load, Function.comp_def, Nat.add_assoc]

/-- The bytes that are stored. -/
theorem load_blit_self (m : ℕ → β) (a : ℕ) (f : ℕ → β) (n : ℕ) :
    load (blit m a f n) a n = (List.range n).map f :=
  List.map_congr_left fun _ hi => blit_add (List.mem_range.mp hi)

/-- The bytes of a block that is apart. -/
theorem load_blit_apart (h : Apart a n b k) : load (blit m a f n) b k = load m b k :=
  load_congr fun _ hi => blit_apart h hi

/-- **A block begins with some bytes**, as far as both reach, if it has them byte by byte. -/
theorem take_load_eq_iff {bs : List β} :
    (load m a n).take bs.length = bs.take n ↔ ∀ i v, i < n → bs[i]? = some v → m (a + i) = v := by
  rw [List.ext_getElem?_iff]
  refine forall_congr' fun i => ?_
  rw [List.getElem?_take, List.getElem?_take]
  by_cases hn : i < n
  · by_cases hb : i < bs.length
    · simp [load, hn, hb]
    · simp [hn, hb]
  · simp [load, hn]

end BareMetal
