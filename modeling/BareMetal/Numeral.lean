import Mathlib.Data.Nat.Digits.Defs
import Mathlib.Algebra.Order.Ring.Nat
import Mathlib.Algebra.Ring.Parity
import Mathlib.Data.Nat.Prime.Basic
import Mathlib.Tactic.Ring

/-!
# Numerals, and errors in their digits

A numeral is written with its highest digit first (`BareMetal.numeral`). If a reader takes some
of the digits for more than they are, each by the same amount, the number it finds is too large by
that amount times the sum of the places concerned. Where only the lowest `c` bits matter, such an
error is harmless when every marked place is high enough, and, which is the point, **only then**:
the error at the lowest marked place cannot be made up for by those above it
(`BareMetal.two_pow_dvd_marks_iff`).
-/

namespace BareMetal

/-! ### Numerals -/

/-- The number that digits denote, the highest first. -/
def numeral (b : ℕ) (ds : List ℕ) : ℕ := Nat.ofDigits b ds.reverse

section Numeral

variable {b d : ℕ} {ds es : List ℕ}

@[simp] theorem numeral_nil : numeral b [] = 0 := rfl

theorem numeral_cons : numeral b (d :: ds) = d * b ^ ds.length + numeral b ds := by
  rw [numeral, numeral, List.reverse_cons, Nat.ofDigits_append, Nat.ofDigits_singleton,
    List.length_reverse]
  ring

theorem numeral_append : numeral b (ds ++ es) = numeral b ds * b ^ es.length + numeral b es := by
  rw [numeral, numeral, numeral, List.reverse_append, Nat.ofDigits_append, List.length_reverse]
  ring

theorem numeral_lt (hb : 1 < b) (hds : ∀ d ∈ ds, d < b) : numeral b ds < b ^ ds.length := by
  rw [← List.length_reverse]
  exact Nat.ofDigits_lt_base_pow_length hb fun d hd => hds d (List.mem_reverse.mp hd)

end Numeral

/-! ### Marked places -/

/-- The sum of the marked places, in a base that is a power of two; the lowest place is first. -/
def markSum (k : ℕ) (ms : List Bool) : ℕ := Nat.ofDigits (2 ^ k) (ms.map Bool.toNat)

theorem markSum_cons (k : ℕ) (m : Bool) (ms : List Bool) :
    markSum k (m :: ms) = m.toNat + 2 ^ k * markSum k ms := by
  rw [markSum, List.map_cons, Nat.ofDigits_cons, markSum]

theorem two_pow_dvd_mul_odd_iff {c e o : ℕ} (ho : Odd o) : 2 ^ c ∣ 2 ^ e * o ↔ c ≤ e := by
  have hcop : Nat.Coprime (2 ^ c) o := Nat.Coprime.pow_left c (Nat.coprime_two_left.mpr ho)
  rw [← Nat.pow_dvd_pow_iff_le_right (by omega : 1 < 2)]
  exact ⟨fun h => Nat.Coprime.dvd_of_dvd_mul_right hcop h, fun h => Nat.dvd_mul_right_of_dvd h o⟩

/-- **When an error at the marked places is lost above the lowest `c` bits**: just when each of
them alone is. -/
theorem two_pow_dvd_marks_iff {k q : ℕ} (hk : 0 < k) (hq : Odd q) (c e : ℕ) (ms : List Bool) :
    2 ^ c ∣ 2 ^ e * (q * markSum k ms) ↔ ∀ i, ms[i]? = some true → c ≤ e + k * i := by
  induction ms generalizing e with
  | nil => simp [markSum]
  | cons m ms ih =>
    cases m with
    | false =>
      -- no mark at the lowest place: the next one is the lowest, and worth `2 ^ k` more
      have hshift : 2 ^ e * (q * markSum k (false :: ms)) =
          2 ^ (e + k) * (q * markSum k ms) := by
        rw [markSum_cons, Bool.toNat_false, pow_add]
        ring
      rw [hshift, ih]
      constructor
      · rintro h (_ | i) hi
        · simp at hi
        · have := h i hi
          rw [Nat.mul_add_one]
          omega
      · intro h i hi
        have := h (i + 1) hi
        rw [Nat.mul_add_one] at this
        omega
    | true =>
      -- the lowest place is marked: what is added to it is even
      have hodd : Odd (q * markSum k (true :: ms)) := by
        rw [markSum_cons, Bool.toNat_true]
        have heven : Even (2 ^ k * markSum k ms) :=
          ((Nat.even_pow.mpr ⟨even_two, by omega⟩).mul_right _)
        exact hq.mul (odd_one.add_even heven)
      rw [two_pow_dvd_mul_odd_iff hodd]
      constructor
      · intro h i _
        omega
      · intro h
        have := h 0 rfl
        omega

end BareMetal
