import Intellibiz.Finance.Display
import Intellibiz.Finance.Tax

/-!
# Money as JSON

`toJSON` of `packages/finance/src/money/index.ts` writes an amount at the precision of its currency,
`money(amount, currency)` reads it back.

* `Money.toJSON`, `MoneyJson.read` — the two directions.
* `Money.settled` — an amount at the precision of its currency.
* `Money.compare` — the comparisons, which refuse different currencies.

Principal results: `read_toJSON`, and from it `json_roundTrip` (what comes back is written alike
and is the same money exactly for whole minor units), `comparisons_settled` (no comparison is
reversed), `settled_toMinorUnits` (what is written is charged) and `allocate_settled` (shares come
back unchanged).
-/

namespace Intellibiz.Finance

open Rounding Numeral

/-! ## Both directions -/

structure MoneyJson where
  amount : String
  currency : String
  deriving DecidableEq

def Money.toJSON (m : Money) : MoneyJson := ⟨m.amountText, m.currency⟩

/-- `money(json.amount, json.currency)`, for the texts of numbers. -/
def MoneyJson.read (json : MoneyJson) : Option Money :=
  (value? json.amount).map (money · json.currency)

/-- The amount rounded to minor units. -/
def Money.settled (m : Money) : Money :=
  money (toFixed (getCurrencyDecimals m.currency) m.amount) m.currency

/-! ## Comparisons -/

/-- A comparison of amounts, behind `_assertSameCurrency`. -/
def Money.compare (holds : ℚ → ℚ → Bool) (m other : Money) : Except FinanceError Bool :=
  if m.currency = other.currency then .ok (holds m.amount other.amount)
  else .error (.currencyMismatch m.currency other.currency)

def Money.equals : Money → Money → Except FinanceError Bool := Money.compare fun a b => a = b

def Money.greaterThan : Money → Money → Except FinanceError Bool := Money.compare fun a b => a > b

def Money.lessThan : Money → Money → Except FinanceError Bool := Money.compare fun a b => a < b

/-! ## The way there and back -/

theorem money_own_currency (m : Money) (amount : ℚ) :
    money amount m.currency = { m with amount } := by
  obtain ⟨a, currency, hupper⟩ := m
  simp only [money, hupper]

@[simp] theorem settled_currency (m : Money) : m.settled.currency = m.currency := m.upper

theorem settled_amount (m : Money) :
    m.settled.amount = halfEven (m.amount * m.factor) / m.factor := rfl

/-- A settled amount in minor units. -/
theorem settled_minor (m : Money) :
    m.settled.amount * m.settled.factor = halfEven (m.amount * m.factor) := by
  have hfactor : m.settled.factor = m.factor := by
    unfold Money.factor
    rw [settled_currency]
  rw [hfactor, settled_amount, div_mul_cancel₀ _ (factor_pos m).ne']

/-- **What is read is the amount rounded to minor units.** -/
theorem read_toJSON (m : Money) : m.toJSON.read = some m.settled := by
  unfold MoneyJson.read Money.toJSON Money.amountText
  rw [value?_fixed]
  rfl

theorem settled_toJSON (m : Money) : m.settled.toJSON = m.toJSON := by
  unfold Money.toJSON Money.amountText
  rw [settled_minor, halfEven_intCast, settled_currency]

theorem settled_eq_iff (m : Money) : m.settled = m ↔ ∃ n : ℤ, m.amount * m.factor = n := by
  constructor
  · intro h
    have hminor := settled_minor m
    rw [h] at hminor
    exact ⟨_, hminor⟩
  · rintro ⟨n, hn⟩
    have hamount : m.settled.amount = m.amount := by
      rw [settled_amount, hn, halfEven_intCast, ← hn, mul_div_cancel_right₀ _ (factor_pos m).ne']
    obtain ⟨amount, currency, hupper⟩ := m
    unfold Money.settled at hamount ⊢
    simp only [money] at hamount ⊢
    simp only [hamount, hupper]

theorem settled_near (m : Money) : |m.settled.amount - m.amount| * m.factor ≤ 1 / 2 := by
  have hpos := factor_pos m
  have hround := abs_sub_halfEven_le (m.amount * m.factor)
  calc |m.settled.amount - m.amount| * m.factor
      = |(m.settled.amount - m.amount) * m.factor| := by rw [abs_mul, abs_of_pos hpos]
    _ = |m.amount * m.factor - halfEven (m.amount * m.factor)| := by
      rw [settled_amount, sub_mul, div_mul_cancel₀ _ hpos.ne', abs_sub_comm]
    _ ≤ 1 / 2 := hround

theorem settled_mono {m other : Money} (hcurrency : m.currency = other.currency)
    (h : m.amount ≤ other.amount) : m.settled.amount ≤ other.settled.amount := by
  have hfactor : other.factor = m.factor := by
    unfold Money.factor
    rw [hcurrency]
  have hpos := factor_pos m
  have hminor := halfEven_mono (mul_le_mul_of_nonneg_right h hpos.le)
  rw [settled_amount, settled_amount, hfactor]
  exact div_le_div_of_nonneg_right (by exact_mod_cast hminor) hpos.le

/-- An answer that rounding keeps is given of the money that comes back. -/
theorem compare_settled {holds : ℚ → ℚ → Bool} {m other : Money} {answer : Bool}
    (hkeeps : m.currency = other.currency → holds m.amount other.amount = answer →
      holds m.settled.amount other.settled.amount = answer)
    (h : m.compare holds other = .ok answer) :
    m.settled.compare holds other.settled = .ok answer := by
  unfold Money.compare at h ⊢
  rw [settled_currency, settled_currency]
  by_cases hcurrency : m.currency = other.currency
  · rw [if_pos hcurrency] at h ⊢
    exact congrArg _ (hkeeps hcurrency (Except.ok.inj h))
  · rw [if_neg hcurrency] at h
    cases h

/-- **No comparison is reversed** on the way: two that are equal stay so, and none becomes less or
greater than another that it was not. -/
theorem comparisons_settled (m other : Money) :
    (m.equals other = .ok true → m.settled.equals other.settled = .ok true) ∧
      (m.greaterThan other = .ok false → m.settled.greaterThan other.settled = .ok false) ∧
      (m.lessThan other = .ok false → m.settled.lessThan other.settled = .ok false) := by
  refine ⟨compare_settled fun hcurrency h => ?_, compare_settled fun hcurrency h => ?_,
    compare_settled fun hcurrency h => ?_⟩
  · have hsame : m.amount = other.amount := of_decide_eq_true h
    exact decide_eq_true (le_antisymm (settled_mono hcurrency hsame.le)
      (settled_mono hcurrency.symm hsame.ge))
  · have hle : m.amount ≤ other.amount := not_lt.1 (of_decide_eq_false h)
    exact decide_eq_false (not_lt.2 (settled_mono hcurrency hle))
  · have hle : other.amount ≤ m.amount := not_lt.1 (of_decide_eq_false h)
    exact decide_eq_false (not_lt.2 (settled_mono hcurrency.symm hle))

/-- **What is written is what is charged** of the money that comes back, below `2 ^ 53` minor units
and whatever the digits of the amount that was written. -/
theorem settled_toMinorUnits {m : Money} (h : |halfEven (m.amount * m.factor)| ≤ 2 ^ 53) :
    value? (withoutPoint m.amountText) = some m.settled.toMinorUnits := by
  have hdigits : |halfEven (m.amount * m.factor)| ≤ 10 ^ PRECISION := h.trans (by decide)
  unfold Money.amountText Money.toMinorUnits Money.scaled
  rw [value?_withoutPoint, settled_minor, decimal_int hdigits, halfEven_intCast, double_int h]

/-- **Shares come back unchanged.** -/
theorem allocate_settled {m : Money} {ratios : List ℕ} {shares : List Money}
    (h : m.allocate ratios = .ok shares) : ∀ share ∈ shares, share.toJSON.read = some share := by
  intro share hshare
  rw [read_toJSON, Option.some.injEq, settled_eq_iff]
  unfold Money.allocate at h
  split at h
  · cases h
  · split at h
    · cases h
    · cases h
      obtain ⟨minor, -, rfl⟩ := List.mem_map.1 hshare
      refine ⟨halfEven (decimal (minor / m.factor) * 10 ^ getCurrencyDecimals m.currency), ?_⟩
      unfold Money.factor toFixed
      rw [money_own_currency]
      exact div_mul_cancel₀ _ (by positivity)

/-- **Money through JSON** is read as the money of the same text, at most half a minor unit from
what was written, and as the very same exactly for whole minor units. -/
theorem json_roundTrip (m : Money) :
    ∃ back, m.toJSON.read = some back ∧ back.toJSON = m.toJSON ∧ back.toJSON.read = some back ∧
      |back.amount - m.amount| * m.factor ≤ 1 / 2 ∧
      (back = m ↔ ∃ n : ℤ, m.amount * m.factor = n) := by
  refine ⟨m.settled, read_toJSON m, settled_toJSON m, ?_, settled_near m, settled_eq_iff m⟩
  rw [settled_toJSON]
  exact read_toJSON m

/-- A price with a sub-minor digit comes back as another one. -/
example : (money (22.9885) "usd").toJSON.read = some (money (22.99) "USD") := by decide +kernel

end Intellibiz.Finance
