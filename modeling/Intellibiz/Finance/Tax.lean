import Intellibiz.Finance.Money

/-!
# What a receipt shows

Model of `packages/finance/src/tax/calculator.ts`.  `calculateTotal` keeps the subtotal, the tax and
the total as they are calculated; each is rounded to minor units on its own.

* `resolveRateBP`, `calculateTotal` — the rate of a destination, the totals of a cart.

Principal results: `calculateTotal_totals` (the three totals), `grandTotal_scaled` and
`receipt_total`.
-/

namespace Intellibiz.Finance

open Rounding

structure TaxDestination where
  country : String
  vatId : Option String

structure Item where
  price : Money
  quantity : ℤ

structure TotalInput where
  items : List Item
  taxRate : Option ℚ
  destination : Option TaxDestination

structure TotalResult where
  subtotal : Money
  taxTotal : Money
  grandTotal : Money
  currency : String
  taxRate : ℚ
  deriving DecidableEq

/-- EU VAT rates as basis points. -/
def EU_VAT_BP : List (String × ℤ) :=
  [("AT", 2000), ("BE", 2100), ("BG", 2000), ("HR", 2500), ("CY", 1900), ("CZ", 2100), ("DK", 2500),
    ("EE", 2000), ("FI", 2400), ("FR", 2000), ("DE", 1900), ("GR", 2400), ("HU", 2700), ("IE", 2300),
    ("IT", 2200), ("LV", 2100), ("LT", 2100), ("LU", 1700), ("MT", 1800), ("NL", 2100), ("PL", 2300),
    ("PT", 2300), ("RO", 1900), ("SK", 2000), ("SI", 2200), ("ES", 2100), ("SE", 2500)]

def OTHER_RATES_BP : List (String × ℤ) :=
  [("GB", 2000), ("ZA", 1500), ("AU", 1000), ("NZ", 1500), ("SG", 900), ("CA", 500)]

def EU_MEMBERS : List String := EU_VAT_BP.map Prod.fst

def resolveRateBP (destination : TaxDestination) : ℤ :=
  let upper := upperCase destination.country
  -- B2B EU reverse charge; an empty VAT id counts as none
  if destination.vatId.getD "" ≠ "" ∧ upper ∈ EU_MEMBERS then 0
  else ((EU_VAT_BP.lookup upper).or (OTHER_RATES_BP.lookup upper)).getD 0

/-- `Math.round` -/
def mathRound (x : ℚ) : ℤ := ⌊x + 1 / 2⌋

def taxRateBP (input : TotalInput) : ℤ :=
  match input.taxRate, input.destination with
  | some taxRate, _ => mathRound (double (taxRate * 10000))
  | none, some destination => resolveRateBP destination
  | none, none => 0

def calculateTotal (input : TotalInput) : Except FinanceError TotalResult :=
  match input.items with
  | [] => .error (.error "finance.calculateTotal: items array is empty")
  | item :: _ => do
    let currency := item.price.currency
    let subtotal ← input.items.foldlM
      (fun acc item => acc.add (item.price.multiply (written item.quantity))) (money 0 currency)
    let taxRate := double (taxRateBP input / 10000)
    let taxTotal := subtotal.multiply (written taxRate)
    let grandTotal ← subtotal.add taxTotal
    return { subtotal, taxTotal, grandTotal, currency, taxRate }

/-! ## The three totals -/

theorem representable_decimal (q : ℚ) : Representable 10 PRECISION (decimal q) :=
  representable_roundDigits (by decide) q

@[simp] theorem Money.multiply_currency (m : Money) (factor : ℚ) :
    (m.multiply factor).currency = m.currency := m.upper

theorem Money.add_eq_ok {m other sum : Money} (h : m.add other = .ok sum) :
    sum.amount = decimal (m.amount + other.amount) ∧ sum.currency = m.currency := by
  unfold Money.add at h
  split at h
  · cases h
    exact ⟨rfl, m.upper⟩
  · cases h

/-- A sum of prices has few enough digits. -/
theorem subtotal_representable {items : List Item} {acc subtotal : Money}
    (hacc : Representable 10 PRECISION acc.amount)
    (h : items.foldlM (fun acc item => acc.add (item.price.multiply (written item.quantity))) acc =
      (.ok subtotal : Except FinanceError Money)) : Representable 10 PRECISION subtotal.amount := by
  induction items generalizing acc with
  | nil =>
    cases h
    exact hacc
  | cons item items ih =>
    rw [List.foldlM_cons] at h
    cases hadd : acc.add (item.price.multiply (written item.quantity)) with
    | error e =>
      rw [hadd] at h
      cases h
    | ok sum =>
      rw [hadd] at h
      apply ih _ h
      rw [(Money.add_eq_ok hadd).1]
      exact representable_decimal _

/-- What relates the totals of a cart. -/
structure TotalResult.Totals (r : TotalResult) : Prop where
  subtotal : Representable 10 PRECISION r.subtotal.amount
  taxTotal : Representable 10 PRECISION r.taxTotal.amount
  taxCurrency : r.taxTotal.currency = r.subtotal.currency
  grandTotal : r.grandTotal.amount = decimal (r.subtotal.amount + r.taxTotal.amount)
  grandCurrency : r.grandTotal.currency = r.subtotal.currency

theorem calculateTotal_totals {input : TotalInput} {r : TotalResult}
    (h : calculateTotal input = .ok r) : r.Totals := by
  unfold calculateTotal at h
  split at h
  · cases h
  · rename_i item items hitems
    cases hsub : input.items.foldlM
      (fun acc item => acc.add (item.price.multiply (written item.quantity)))
      (money 0 item.price.currency) with
    | error e =>
      simp only [hsub] at h
      cases h
    | ok subtotal =>
      have hzero : Representable 10 PRECISION (money 0 item.price.currency).amount :=
        ⟨0, 0, by norm_num [money], by norm_num⟩
      have hdigits := subtotal_representable hzero hsub
      simp only [hsub] at h
      cases hadd : subtotal.add
        (subtotal.multiply (written (double (taxRateBP input / 10000)))) with
      | error e =>
        simp only [Except.bind, bind, hadd] at h
        cases h
      | ok grandTotal =>
        simp only [Except.bind, bind, hadd] at h
        cases h
        obtain ⟨hgrand, hcurrency⟩ := Money.add_eq_ok hadd
        exact ⟨hdigits, representable_decimal _, Money.multiply_currency _ _, hgrand, hcurrency⟩

section Receipt

variable {r : TotalResult}

theorem factor_eq {m n : Money} (h : m.currency = n.currency) : m.factor = n.factor := by
  unfold Money.factor
  rw [h]

theorem factor_pos (m : Money) : 0 < m.factor := by
  unfold Money.factor
  positivity

/-- The total in minor units. -/
theorem grandTotal_scaled (h : r.Totals) :
    r.grandTotal.scaled =
      decimal (r.subtotal.amount + r.taxTotal.amount) * r.subtotal.factor := by
  have hdigits : Representable 10 PRECISION r.grandTotal.amount := by
    rw [h.grandTotal]
    exact representable_decimal _
  rw [scaled_eq hdigits, h.grandTotal, factor_eq h.grandCurrency]

theorem parts_scaled (h : r.Totals) :
    r.subtotal.scaled + r.taxTotal.scaled =
      (r.subtotal.amount + r.taxTotal.amount) * r.subtotal.factor := by
  rw [scaled_eq h.subtotal, scaled_eq h.taxTotal, factor_eq h.taxCurrency]
  ring

/-- The total is the sum of its parts, up to its 28 digits. -/
theorem abs_grandTotal_sub_le (h : r.Totals) :
    |r.grandTotal.scaled - (r.subtotal.scaled + r.taxTotal.scaled)| ≤
      |r.subtotal.scaled + r.taxTotal.scaled| * (1 / (2 * 10 ^ 27)) := by
  have herr := abs_decimal_sub_le (r.subtotal.amount + r.taxTotal.amount)
  have hpos := factor_pos r.subtotal
  have hmul := mul_le_mul_of_nonneg_right herr hpos.le
  rw [grandTotal_scaled h, parts_scaled h, ← sub_mul, abs_mul, abs_mul, abs_of_pos hpos]
  exact hmul.trans_eq (by ring)

/-- A value of at most `2 ^ 53` minor units is charged as its nearest integer. -/
theorem toMinorUnits_eq {m : Money} (h : |m.scaled| ≤ 2 ^ 53) :
    m.toMinorUnits = (halfEven m.scaled : ℤ) := by
  have hle : |halfEven m.scaled| ≤ 2 ^ 53 := by
    apply abs_halfEven_le
    push_cast
    exact h
  exact double_int hle

end Receipt

/-- **The total is charged as at most one minor unit more or less than its parts.**  It is their sum
exactly if the total lies within half a unit of it, or half a unit from an even one; where the total
needs no more than 28 digits that is about the roundings of the two parts. -/
theorem receipt_total (input : TotalInput) (r : TotalResult) (h : calculateTotal input = .ok r)
    (hsafe : |r.subtotal.scaled| + |r.taxTotal.scaled| ≤ 2 ^ 53 - 1) :
    |r.grandTotal.toMinorUnits - (r.subtotal.toMinorUnits + r.taxTotal.toMinorUnits)| ≤ 1 ∧
      (r.grandTotal.toMinorUnits = r.subtotal.toMinorUnits + r.taxTotal.toMinorUnits ↔
        Near r.grandTotal.scaled (halfEven r.subtotal.scaled + halfEven r.taxTotal.scaled)) ∧
      (Representable 10 PRECISION (r.subtotal.amount + r.taxTotal.amount) →
        r.grandTotal.scaled = r.subtotal.scaled + r.taxTotal.scaled) := by
  have htotals := calculateTotal_totals h
  have hsub := abs_nonneg r.subtotal.scaled
  have htax := abs_nonneg r.taxTotal.scaled
  have hsum : |r.subtotal.scaled + r.taxTotal.scaled| ≤ 2 ^ 53 - 1 :=
    (abs_add_le _ _).trans hsafe
  have herr : |r.grandTotal.scaled - (r.subtotal.scaled + r.taxTotal.scaled)| < 1 / 2 := by
    apply (abs_grandTotal_sub_le htotals).trans_lt
    linarith
  have hgrand : |r.grandTotal.scaled| ≤ 2 ^ 53 := by
    have htri := abs_sub_abs_le_abs_sub r.grandTotal.scaled
      (r.subtotal.scaled + r.taxTotal.scaled)
    linarith
  have hs : r.subtotal.toMinorUnits = (halfEven r.subtotal.scaled : ℤ) := by
    apply toMinorUnits_eq
    linarith
  have ht : r.taxTotal.toMinorUnits = (halfEven r.taxTotal.scaled : ℤ) := by
    apply toMinorUnits_eq
    linarith
  rw [toMinorUnits_eq hgrand, hs, ht, ← Int.cast_add]
  refine ⟨?_, ?_, ?_⟩
  · -- three roundings of at most a half each, and that of the total to its digits
    have hs' := abs_le.1 (abs_sub_halfEven_le r.subtotal.scaled)
    have ht' := abs_le.1 (abs_sub_halfEven_le r.taxTotal.scaled)
    have hg' := abs_le.1 (abs_sub_halfEven_le r.grandTotal.scaled)
    have herr' := abs_lt.1 herr
    have hlt : |((halfEven r.grandTotal.scaled -
        (halfEven r.subtotal.scaled + halfEven r.taxTotal.scaled) : ℤ) : ℚ)| < 2 := by
      rw [abs_lt]
      push_cast
      constructor <;> linarith
    have hint : |halfEven r.grandTotal.scaled -
        (halfEven r.subtotal.scaled + halfEven r.taxTotal.scaled)| < 2 := by exact_mod_cast hlt
    have hone : |halfEven r.grandTotal.scaled -
        (halfEven r.subtotal.scaled + halfEven r.taxTotal.scaled)| ≤ 1 := by omega
    exact_mod_cast hone
  · rw [Int.cast_inj]
    exact halfEven_eq_iff
  · intro hdigits
    rw [grandTotal_scaled htotals, parts_scaled htotals, decimal_eq hdigits]

/-- `{ items: [{ price: money(price, currency), quantity: 1 }], taxRate, destination }` -/
def cart (price : ℚ) (currency : String) (taxRate : Option ℚ) (country : Option String) :
    TotalInput where
  items := [{ price := money price currency, quantity := 1 }]
  taxRate := taxRate
  destination := country.map fun country => { country := country, vatId := none }

def TotalResult.charged (r : TotalResult) : ℚ × ℚ × ℚ :=
  (r.subtotal.toMinorUnits, r.taxTotal.toMinorUnits, r.grandTotal.toMinorUnits)

/-- 100 euros to Germany. -/
theorem receipt_total_germany : ∃ r, calculateTotal (cart 100 "EUR" none (some "DE")) = .ok r ∧
    |r.grandTotal.toMinorUnits - (r.subtotal.toMinorUnits + r.taxTotal.toMinorUnits)| ≤ 1 := by
  have hok : ∃ r, calculateTotal (cart 100 "EUR" none (some "DE")) = .ok r ∧
      |r.subtotal.scaled| + |r.taxTotal.scaled| ≤ 2 ^ 53 - 1 :=
    ⟨⟨money 100 "EUR", money 19 "EUR", money 119 "EUR", "EUR", double (1900 / 10000)⟩,
      by decide +kernel, by decide +kernel⟩
  obtain ⟨r, h, hsafe⟩ := hok
  exact ⟨r, h, (receipt_total _ r h hsafe).1⟩

/-- Five cents to Australia are shown as 5 and 0 cents and charged as 6; above the safe integers the
difference can be larger. -/
theorem receipt_differs :
    (calculateTotal (cart (5 / 100) "AUD" none (some "AU"))).map TotalResult.charged =
        .ok (5, 0, 6) ∧
      (calculateTotal (cart (9007199254740993 / 100) "USD" (some (1 / 2)) none)).map
        TotalResult.charged = .ok (9007199254740992, 4503599627370496, 13510798882111490) := by
  constructor
  · decide +kernel
  · decide +kernel

end Intellibiz.Finance
