import Intellibiz.Finance.Written
import Intellibiz.Numeral

/-!
# What is shown and what is charged

`amount` rounds the exact amount to minor units and writes them with a point; `toMinorUnits` rounds
the product to 28 digits, then to an integer, then to a number.

* `Money.amountText`, `toNumber` — the text of an amount, the number of an integer.
* `Displayed` — without its point, the text is the number charged; `Chargeable` — the amounts, in
  minor units, of which it is.

Principal results: `halfEven_decimal` (the 28 digits change the rounding only next to an odd
integer) and `displayed_iff`.
-/

namespace Intellibiz.Finance

open Rounding Numeral

/-- `get amount()` -/
def Money.amountText (m : Money) : String :=
  fixed (getCurrencyDecimals m.currency) (halfEven (m.amount * m.factor))

/-- `toNumber()`; none is an infinity. -/
def toNumber (q : ℚ) : Option ℚ := if |double q| < 2 ^ 1024 then some (double q) else none

/-- The text, its point removed, is the number of minor units. -/
def Displayed (m : Money) : Prop :=
  ∃ n, toNumber (halfEven m.scaled) = some n ∧ value? (withoutPoint m.amountText) = some n

/-- The nearest integer is a finite number, and either even or nearest to the 28 digits, too. -/
structure Chargeable (x : ℚ) : Prop where
  number : Representable 2 53 (halfEven x : ℚ)
  finite : |(halfEven x : ℚ)| < 2 ^ 1024
  noTie : Even (halfEven x) ∨ |decimal x - halfEven x| < 1 / 2

section Digits

variable {x : ℚ}

/-- Below `10 ^ 27`, halves are among the multiples of the last digit. -/
theorem half_multiple (hx : |x| < 10 ^ 27) (n : ℤ) :
    ∃ m : ℤ, (n : ℚ) + 1 / 2 = m * ((10 : ℕ) : ℚ) ^ lastDigit 10 PRECISION x := by
  have hlast : lastDigit 10 PRECISION x ≤ -1 := by
    have hlog : Int.log 10 |x| < 27 := by
      by_cases hzero : x = 0
      · simp [hzero]
      · rw [← Int.lt_zpow_iff_log_lt (by decide) (abs_pos.2 hzero)]
        exact_mod_cast hx
    unfold lastDigit PRECISION
    omega
  obtain ⟨j, hj⟩ := @exists_zpow_eq 10 (by decide) _ _ hlast
  refine ⟨(2 * n + 1) * 5 * j, ?_⟩
  push_cast at hj ⊢
  rw [mul_assoc, ← hj, zpow_neg_one]
  ring

/-- **The 28 digits do not leave the half around an integer**, below `10 ^ 27`. -/
theorem abs_decimal_sub_halfEven_le (hx : |x| < 10 ^ 27) : |decimal x - halfEven x| ≤ 1 / 2 := by
  obtain ⟨hlow, hhigh⟩ := abs_le.1 (abs_sub_halfEven_le x)
  obtain ⟨m, hm⟩ := half_multiple hx (halfEven x)
  obtain ⟨m', hm'⟩ := half_multiple hx (halfEven x - 1)
  have hup : decimal x ≤ halfEven x + 1 / 2 := roundDigits_le (by decide) hm (by linarith)
  have hdown : ((halfEven x - 1 : ℤ) : ℚ) + 1 / 2 ≤ decimal x :=
    le_roundDigits (by decide) hm' (by push_cast; linarith)
  push_cast at hdown
  rw [abs_le]
  constructor <;> linarith

/-- **An amount next to an even integer, or with its 28 digits near one, is rounded alike.** -/
theorem halfEven_decimal (hx : |x| < 10 ^ 27)
    (h : Even (halfEven x) ∨ |decimal x - halfEven x| < 1 / 2) :
    halfEven (decimal x) = halfEven x := by
  refine halfEven_eq_iff.2 ?_
  rcases h with heven | hnear
  · rcases (abs_decimal_sub_halfEven_le hx).lt_or_eq with hlt | heq
    · exact .inl hlt
    · exact .inr ⟨heq, heven⟩
  · exact .inl hnear

/-- The errors of a large amount are below those of a number. -/
theorem double_of_large (hx : 10 ^ 27 ≤ |x|) (h : Representable 2 53 (halfEven x : ℚ)) :
    double (halfEven (decimal x)) = halfEven x := by
  have hdigits := abs_decimal_sub_le x
  have hround := abs_sub_halfEven_le x
  have hround' := abs_sub_halfEven_le (decimal x)
  have hsize := abs_sub_abs_le_abs_sub x (halfEven x)
  have htri := abs_sub_le (halfEven (decimal x) : ℚ) (decimal x) x
  have htri' := abs_sub_le (halfEven (decimal x) : ℚ) x (halfEven x)
  rw [abs_sub_comm (halfEven (decimal x) : ℚ) (decimal x)] at htri
  apply double_of_close h
  linarith

/-- An odd number is below `2 ^ 53`. -/
theorem lt_of_odd {n : ℤ} (h : Representable 2 53 (n : ℚ)) (hodd : ¬ Even n) : |n| < 2 ^ 53 := by
  by_contra hlarge
  have habs : Representable 2 53 ((|n| : ℤ) : ℚ) := by
    rcases abs_choice n with hn | hn
    · rwa [hn]
    · rw [hn]
      push_cast
      exact h.neg
  obtain ⟨k, j, hj, -⟩ := unit_of_large (not_lt.1 hlarge) habs
  apply hodd
  rw [← even_abs, hj]
  exact ⟨j * 2 ^ k, by ring⟩

end Digits

/-- **What is shown is charged exactly if the nearest minor unit is a finite number, and the 28
digits of the amount do not move it to a tie that an odd one loses.** -/
theorem displayed_iff (m : Money) : Displayed m ↔ Chargeable (m.amount * m.factor) := by
  have htext : value? (withoutPoint m.amountText) = some (halfEven (m.amount * m.factor) : ℚ) :=
    value?_withoutPoint _ _
  have hscaled : m.scaled = decimal (m.amount * m.factor) := rfl
  unfold Displayed
  rw [htext, hscaled]
  set x := m.amount * m.factor
  constructor
  · rintro ⟨n, hn, hk⟩
    cases Option.some.inj hk
    unfold toNumber at hn
    split at hn
    · rename_i hfinite
      have hdouble := Option.some.inj hn
      have hnumber : Representable 2 53 (halfEven x : ℚ) := by
        rw [← hdouble]
        exact representable_double _
      refine ⟨hnumber, ?_, ?_⟩
      · rwa [hdouble] at hfinite
      · by_cases heven : Even (halfEven x)
        · exact .inl heven
        · -- an odd integer is a safe one, and no other integer is read as it
          have hsame := int_of_double (lt_of_odd hnumber heven) hdouble
          rcases halfEven_eq_iff.1 hsame with hnear | ⟨-, heven'⟩
          · exact .inr hnear
          · exact absurd heven' heven
    · cases hn
  · rintro ⟨hnumber, hfinite, htie⟩
    have hdouble : double (halfEven (decimal x)) = halfEven x := by
      rcases lt_or_ge |x| (10 ^ 27) with hsmall | hlarge
      · rw [halfEven_decimal hsmall htie]
        exact roundDigits_eq (by decide) (by decide) hnumber
      · exact double_of_large hlarge hnumber
    refine ⟨halfEven x, ?_, rfl⟩
    unfold toNumber
    rw [hdouble, if_pos hfinite]

/-- `money('1.01499999999999999999999999999', 'USD')` is shown as 1.01 and charged as 102, and
2 ^ 53 + 1 cents are charged as 2 ^ 53. -/
theorem shown_not_charged :
    ((money (101499999999999999999999999999 / 10 ^ 29) "USD").amountText = "1.01" ∧
        (money (101499999999999999999999999999 / 10 ^ 29) "USD").toMinorUnits = 102) ∧
      ((money (9007199254740993 / 100) "USD").amountText = "90071992547409.93" ∧
        (money (9007199254740993 / 100) "USD").toMinorUnits = 9007199254740992) ∧
      ¬ Displayed (money (101499999999999999999999999999 / 10 ^ 29) "USD") ∧
      ¬ Displayed (money (9007199254740993 / 100) "USD") := by
  refine ⟨by decide +kernel, by decide +kernel, ?_, ?_⟩
  · rintro ⟨n, hn, htext⟩
    have hcharged : toNumber (halfEven (money (101499999999999999999999999999 / 10 ^ 29)
        "USD").scaled) = some 102 := by decide +kernel
    rw [hcharged] at hn
    cases hn
    exact absurd htext (by decide +kernel)
  · rintro ⟨n, hn, htext⟩
    have hcharged : toNumber (halfEven (money (9007199254740993 / 100) "USD").scaled) =
        some 9007199254740992 := by decide +kernel
    rw [hcharged] at hn
    cases hn
    exact absurd htext (by decide +kernel)

end Intellibiz.Finance
