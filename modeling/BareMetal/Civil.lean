import Mathlib.Data.Int.Notation
import Mathlib.Data.Nat.Notation
import Mathlib.Tactic.Common

/-!
# The civil calendar

Days and seconds of the Gregorian calendar. Months are counted through: month `k` is month
`k % 12`, from January as zero, of the year `k / 12`. Counted so, a month that is out of the
range of its year needs no rule of its own, and the one recurrence everything rests on is that
a month begins when the one before it has passed (`BareMetal.Civil.monthStart_succ`), across
the ends of the years as within them.
-/

namespace BareMetal

namespace Civil

/-- The leap years. -/
def leap (y : ℕ) : Bool := y % 4 == 0 && (y % 100 != 0 || y % 400 == 0)

/-- The length of a month, counted from January as zero. -/
def daysIn (y m : ℕ) : ℕ :=
  if m = 1 then (if leap y then 29 else 28)
  else if m = 3 ∨ m = 5 ∨ m = 8 ∨ m = 10 then 30 else 31

/-- The days of a year before a month. -/
def daysBeforeMonth (y : ℕ) : ℕ → ℕ
  | 0 => 0
  | m + 1 => daysBeforeMonth y m + daysIn y m

/-- The days before a year. -/
def daysBeforeYear (y : ℕ) : ℕ := 365 * y + (y + 3) / 4 + (y + 399) / 400 - (y + 99) / 100

/-- The day on which a month begins. -/
def monthStart (k : ℕ) : ℕ := daysBeforeYear (k / 12) + daysBeforeMonth (k / 12) (k % 12)

/-- The month in which the seconds begin: January 1970. -/
def epoch : ℕ := 1970 * 12

/-- The seconds since the beginning of 1970 at a day of a month and a time of that day. -/
def seconds (k day hour minute second : ℕ) : ℤ :=
  (monthStart k + day - 1 - monthStart epoch) * 86400 + hour * 3600 + minute * 60 + second

theorem daysIn_ge (y m : ℕ) : 28 ≤ daysIn y m := by
  unfold daysIn
  split_ifs <;> omega

theorem daysIn_le (y m : ℕ) : daysIn y m ≤ 31 := by
  unfold daysIn
  split_ifs <;> omega

theorem leap_iff (y : ℕ) : leap y = true ↔ y % 4 = 0 ∧ (y % 100 ≠ 0 ∨ y % 400 = 0) := by
  simp [leap]

/-- The length of a year. -/
theorem daysBeforeMonth_twelve (y : ℕ) :
    daysBeforeMonth y 12 = if leap y then 366 else 365 := by
  cases hleap : leap y <;> simp [daysBeforeMonth, daysIn, hleap]

/-- How often a multiple of `n` has passed. -/
theorem succ_add_div (y : ℕ) {n : ℕ} (hn : 0 < n) :
    (y + 1 + (n - 1)) / n = (y + (n - 1)) / n + if y % n = 0 then 1 else 0 := by
  have hlt := Nat.mod_lt y hn
  have hrest : (y + (n - 1)) / n = y / n + (y % n + (n - 1)) / n := by
    conv_lhs => rw [← Nat.div_add_mod y n, Nat.add_assoc, Nat.mul_add_div hn]
  rw [show y + 1 + (n - 1) = y + n by omega, Nat.add_div_right y hn, hrest]
  split
  · rename_i h0
    rw [h0, Nat.div_eq_of_lt (show 0 + (n - 1) < n by omega)]
  · rename_i hne
    rw [show y % n + (n - 1) = y % n - 1 + n by omega, Nat.add_div_right _ hn,
      Nat.div_eq_of_lt (show y % n - 1 < n by omega)]

/-- A year begins when the one before it has passed. -/
theorem daysBeforeYear_succ (y : ℕ) :
    daysBeforeYear (y + 1) = daysBeforeYear y + daysBeforeMonth y 12 := by
  have h4 : (y + 1 + 3) / 4 = (y + 3) / 4 + _ := succ_add_div y (n := 4) (by decide)
  have h100 : (y + 1 + 99) / 100 = (y + 99) / 100 + _ := succ_add_div y (n := 100) (by decide)
  have h400 : (y + 1 + 399) / 400 = (y + 399) / 400 + _ := succ_add_div y (n := 400) (by decide)
  have hle : (y + 99) / 100 ≤ (y + 3) / 4 := by omega
  rw [daysBeforeMonth_twelve, daysBeforeYear, daysBeforeYear, h4, h100, h400]
  generalize (y + 3) / 4 = q4, (y + 99) / 100 = q100, (y + 399) / 400 = q400 at hle ⊢
  -- a year divisible by 100 is divisible by 4, and one divisible by 400 by 100
  by_cases h400y : y % 400 = 0
  · have hleap : leap y = true := (leap_iff y).mpr ⟨by omega, Or.inr h400y⟩
    rw [if_pos (show y % 4 = 0 by omega), if_pos (show y % 100 = 0 by omega), if_pos h400y,
      if_pos hleap]
    omega
  · by_cases h100y : y % 100 = 0
    · have hleap : ¬leap y = true := by
        rw [leap_iff]
        rintro ⟨-, h | h⟩
        · exact h h100y
        · exact h400y h
      rw [if_pos (show y % 4 = 0 by omega), if_pos h100y, if_neg h400y, if_neg hleap]
      omega
    · by_cases h4y : y % 4 = 0
      · have hleap : leap y = true := (leap_iff y).mpr ⟨h4y, Or.inl h100y⟩
        rw [if_pos h4y, if_neg h100y, if_neg h400y, if_pos hleap]
        omega
      · have hleap : ¬leap y = true := fun h => h4y ((leap_iff y).mp h).1
        rw [if_neg h4y, if_neg h100y, if_neg h400y, if_neg hleap]
        omega

/-- **A month begins when the one before it has passed.** -/
theorem monthStart_succ (k : ℕ) :
    monthStart (k + 1) = monthStart k + daysIn (k / 12) (k % 12) := by
  by_cases hdec : k % 12 = 11
  · rw [monthStart, monthStart, show (k + 1) / 12 = k / 12 + 1 by omega,
      show (k + 1) % 12 = 0 by omega, hdec, daysBeforeYear_succ]
    simp only [daysBeforeMonth]
    omega
  · rw [monthStart, monthStart, show (k + 1) / 12 = k / 12 by omega,
      show (k + 1) % 12 = k % 12 + 1 by omega, daysBeforeMonth, Nat.add_assoc]

theorem monthStart_mono {k k' : ℕ} (h : k ≤ k') : monthStart k ≤ monthStart k' := by
  induction h with
  | refl => exact Nat.le_refl _
  | step _ ih =>
    rw [monthStart_succ]
    omega

/-- **The same day a month later**, in seconds. -/
theorem seconds_succ (k day hour minute second : ℕ) :
    seconds (k + 1) day hour minute second =
      seconds k day hour minute second + daysIn (k / 12) (k % 12) * 86400 := by
  have hnext := monthStart_succ k
  rw [seconds, seconds, hnext]
  push_cast
  omega

/-- A day of a month is not before the beginning of it. -/
theorem seconds_ge {k k' day : ℕ} (hk : k' ≤ k) (hday : 1 ≤ day) (hour minute second : ℕ) :
    seconds k' 1 0 0 0 ≤ seconds k day hour minute second := by
  have hstart := monthStart_mono hk
  rw [seconds, seconds]
  omega

/-- A day of a month is before the beginning of the next. -/
theorem seconds_lt {k k' day hour minute second : ℕ} (hk : k < k')
    (hday : day ≤ daysIn (k / 12) (k % 12)) (hhour : hour < 24) (hminute : minute < 60)
    (hsecond : second < 60) :
    seconds k day hour minute second < seconds k' 1 0 0 0 := by
  have hstart := monthStart_mono (Nat.succ_le_of_lt hk)
  rw [Nat.succ_eq_add_one, monthStart_succ] at hstart
  rw [seconds, seconds]
  omega

example : seconds (2000 * 12) 1 0 0 0 = 946684800 := by decide

end Civil

end BareMetal
