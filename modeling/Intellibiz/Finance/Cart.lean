import Intellibiz.Finance.Tax
import Intellibiz.Finance.Written

/-!
# Carts

The items of a cart in any order.  Every product and every sum on the way is rounded to 28 digits.

* `cost`, `MixedCurrencies` — the exact price of an item, carts that are refused.
* `FewDigits` — carts whose sums are not rounded on the way.

Principal results: `mismatch_iff` (what is refused), `calculateTotal_subtotal` (the exact subtotal)
and `cart_totals`.
-/

namespace Intellibiz.Finance

open Rounding

/-- `acc.add(item.price.multiply(item.quantity))` -/
def addItem (acc : Money) (item : Item) : Except FinanceError Money :=
  acc.add (item.price.multiply (written item.quantity))

def cost (item : Item) : ℚ := item.price.amount * item.quantity

def MixedCurrencies (items : List Item) : Prop :=
  ∃ i ∈ items, ∃ j ∈ items, i.price.currency ≠ j.price.currency

/-- The quantities are safe integers; no product and no sum of the first items needs more than 28
digits. -/
structure FewDigits (items : List Item) : Prop where
  quantities : ∀ item ∈ items, |item.quantity| < 2 ^ 53
  products : ∀ item ∈ items, Representable 10 PRECISION (cost item)
  sums : ∀ l, l <+: items → Representable 10 PRECISION (l.map cost).sum

/-- Whole units of `10 ^ -k`, in any order, that are not more than `10 ^ 28` together. -/
theorem fewDigits_of_units {items : List Item} {k : ℕ} {n : Item → ℤ}
    (hquantity : ∀ item ∈ items, |item.quantity| < 2 ^ 53)
    (hunits : ∀ item ∈ items, cost item = n item / 10 ^ k)
    (hsize : (items.map fun item => |n item|).sum ≤ 10 ^ PRECISION) : FewDigits items := by
  have hsums : ∀ l : List Item, (∀ item ∈ l, cost item = n item / 10 ^ k) →
      (l.map fun item => |n item|).sum ≤ 10 ^ PRECISION →
      Representable 10 PRECISION (l.map cost).sum := by
    intro l hl hle
    have hsum : (l.map cost).sum = ((l.map n).sum : ℤ) / 10 ^ k := by
      clear hle
      induction l with
      | nil => simp
      | cons item l ih =>
        rw [List.map_cons, List.sum_cons, List.map_cons, List.sum_cons, hl item (by simp),
          ih fun i hi => hl i (by simp [hi])]
        push_cast
        ring
    rw [hsum]
    apply representable_div
    apply Representable.int
    have htri := List.le_sum_of_subadditive abs abs_zero.le abs_add_le (l.map n)
    rw [List.map_map] at htri
    exact htri.trans hle
  refine ⟨hquantity, fun item hitem => ?_, fun l hl => ?_⟩
  · have hone := hsums [item] (fun i hi => by rw [List.mem_singleton.1 hi, hunits item hitem]) (by
      rw [List.map_singleton, List.sum_singleton]
      exact (List.single_le_sum (by simp) _ (List.mem_map_of_mem hitem)).trans hsize)
    rwa [List.map_singleton, List.sum_singleton] at hone
  · obtain ⟨rest, rfl⟩ := hl
    apply hsums l fun i hi => hunits i (by simp [hi])
    have hnonneg : 0 ≤ (rest.map fun item => |n item|).sum := List.sum_nonneg (by simp)
    rw [List.map_append, List.sum_append] at hsize
    linarith

/-! ## The subtotal -/

section Subtotal

variable {acc : Money} {item : Item} {items : List Item}

theorem addItem_ok (h : item.price.currency = acc.currency) :
    addItem acc item =
      .ok (money (decimal (acc.amount + decimal (item.price.amount * written item.quantity)))
        acc.currency) := by
  have hsame : acc.currency = (item.price.multiply (written item.quantity)).currency := by
    rw [Money.multiply_currency, h]
  unfold addItem Money.add
  rw [if_pos hsame]
  rfl

theorem addItem_error (h : item.price.currency ≠ acc.currency) :
    addItem acc item = .error (.currencyMismatch acc.currency item.price.currency) := by
  unfold addItem Money.add
  rw [Money.multiply_currency, if_neg h.symm]

@[simp] theorem money_self (m : Money) : money m.amount m.currency = m := by
  obtain ⟨amount, currency, h⟩ := m
  simp only [money, h]

@[simp] theorem money_currency (q : ℚ) (m : Money) : (money q m.currency).currency = m.currency :=
  m.upper

theorem foldlM_addItem_ok (h : ∀ item ∈ items, item.price.currency = acc.currency) :
    ∃ subtotal, items.foldlM addItem acc = .ok subtotal ∧ subtotal.currency = acc.currency := by
  induction items generalizing acc with
  | nil => exact ⟨acc, rfl, rfl⟩
  | cons item items ih =>
    rw [List.foldlM_cons, addItem_ok (h item (by simp))]
    obtain ⟨subtotal, hsub, hcurrency⟩ := @ih (money (decimal (acc.amount +
      decimal (item.price.amount * written item.quantity))) acc.currency)
      fun i hi => by rw [money_currency, h i (by simp [hi])]
    exact ⟨subtotal, hsub, by rw [hcurrency, money_currency]⟩

/-- The first item of another currency is refused. -/
theorem foldlM_addItem_error (h : ∃ item ∈ items, item.price.currency ≠ acc.currency) :
    ∃ b, items.foldlM addItem acc = .error (.currencyMismatch acc.currency b) := by
  induction items generalizing acc with
  | nil =>
    obtain ⟨item, hitem, -⟩ := h
    cases hitem
  | cons item items ih =>
    rw [List.foldlM_cons]
    by_cases hsame : item.price.currency = acc.currency
    · rw [addItem_ok hsame]
      have hrest : ∃ i ∈ items, i.price.currency ≠ acc.currency := by
        obtain ⟨i, hi, hne⟩ := h
        rcases List.mem_cons.1 hi with rfl | hi
        · exact absurd hsame hne
        · exact ⟨i, hi, hne⟩
      have htail := @ih (money (decimal (acc.amount +
        decimal (item.price.amount * written item.quantity))) acc.currency)
        (by simpa using hrest)
      rw [money_currency] at htail
      exact htail
    · exact ⟨_, by rw [addItem_error hsame]; rfl⟩

/-- **The subtotal is the exact sum**, where no digits are lost on the way. -/
theorem foldlM_addItem_eq (hcurrency : ∀ item ∈ items, item.price.currency = acc.currency)
    (hquantity : ∀ item ∈ items, |item.quantity| < 2 ^ 53)
    (hproduct : ∀ item ∈ items, Representable 10 PRECISION (cost item))
    (hsum : ∀ l, l <+: items → Representable 10 PRECISION (acc.amount + (l.map cost).sum)) :
    items.foldlM addItem acc =
      .ok (money (acc.amount + (items.map cost).sum) acc.currency) := by
  induction items generalizing acc with
  | nil =>
    rw [List.map_nil, List.sum_nil, add_zero]
    rw [money_self]
    rfl
  | cons item items ih =>
    have hcost : decimal (item.price.amount * written item.quantity) = cost item := by
      rw [written_int (hquantity item (by simp))]
      exact decimal_eq (hproduct item (by simp))
    have hfirst : decimal (acc.amount + cost item) = acc.amount + cost item := by
      have hprefix := hsum [item] ⟨items, rfl⟩
      rw [List.map_singleton, List.sum_singleton] at hprefix
      exact decimal_eq hprefix
    rw [List.foldlM_cons, addItem_ok (hcurrency item (by simp)), hcost, hfirst]
    have htail := @ih (money (acc.amount + cost item) acc.currency)
      (fun i hi => by rw [money_currency, hcurrency i (by simp [hi])])
      (fun i hi => hquantity i (by simp [hi])) (fun i hi => hproduct i (by simp [hi]))
      (fun l hl => by
        have hprefix := hsum (item :: l) (List.cons_prefix_cons.2 ⟨rfl, hl⟩)
        rw [List.map_cons, List.sum_cons, ← add_assoc] at hprefix
        exact hprefix)
    rw [money_currency] at htail
    rw [List.map_cons, List.sum_cons, ← add_assoc]
    exact htail

end Subtotal

/-! ## The totals -/

section Totals

variable {input : TotalInput} {item : Item} {items : List Item} {subtotal : Money}

/-- The totals from the subtotal. -/
def TotalResult.of (input : TotalInput) (currency : String) (subtotal : Money) : TotalResult :=
  let taxRate := double (taxRateBP input / 10000)
  let taxTotal := subtotal.multiply (written taxRate)
  { subtotal, taxTotal, currency, taxRate
    grandTotal := money (decimal (subtotal.amount + taxTotal.amount)) subtotal.currency }

theorem calculateTotal_ok (hitems : input.items = item :: items)
    (h : input.items.foldlM addItem (money 0 item.price.currency) = .ok subtotal) :
    calculateTotal input = .ok (.of input item.price.currency subtotal) := by
  unfold calculateTotal
  rw [hitems] at h ⊢
  change ((item :: items).foldlM addItem (money 0 item.price.currency)).bind _ = _
  rw [h]
  have hsame : subtotal.currency =
      (subtotal.multiply (written (double (taxRateBP input / 10000)))).currency := by
    rw [Money.multiply_currency]
  simp only [Except.bind, Money.add, if_pos hsame]
  rfl

theorem calculateTotal_error {e : FinanceError} (hitems : input.items = item :: items)
    (h : input.items.foldlM addItem (money 0 item.price.currency) = .error e) :
    calculateTotal input = .error e := by
  unfold calculateTotal
  rw [hitems] at h ⊢
  change ((item :: items).foldlM addItem (money 0 item.price.currency)).bind _ = _
  rw [h]
  rfl

/-- All the prices of a cart of one currency have that of the first. -/
theorem currency_of_one (hitems : input.items = item :: items)
    (hone : ¬ MixedCurrencies input.items) :
    ∀ i ∈ input.items, i.price.currency = (money 0 item.price.currency).currency := by
  intro i hi
  rw [money_currency 0 item.price]
  by_contra hne
  exact hone ⟨i, hi, item, by simp [hitems], hne⟩

/-- A cart of one currency has totals. -/
theorem calculateTotal_of_one (hne : input.items ≠ []) (hone : ¬ MixedCurrencies input.items) :
    ∃ subtotal currency, calculateTotal input = .ok (.of input currency subtotal) := by
  obtain ⟨item, items, hitems⟩ := List.exists_cons_of_ne_nil hne
  obtain ⟨subtotal, hsub, -⟩ := foldlM_addItem_ok (currency_of_one hitems hone)
  exact ⟨subtotal, _, calculateTotal_ok hitems hsub⟩

/-- **A cart is refused for its currencies exactly if it has two.** -/
theorem mismatch_iff (hne : input.items ≠ []) :
    (∃ a b, calculateTotal input = .error (.currencyMismatch a b)) ↔
      MixedCurrencies input.items := by
  constructor
  · rintro ⟨a, b, herror⟩
    by_contra hone
    obtain ⟨subtotal, currency, hok⟩ := calculateTotal_of_one hne hone
    rw [hok] at herror
    cases herror
  · obtain ⟨item, items, hitems⟩ := List.exists_cons_of_ne_nil hne
    have hcurrency : (money 0 item.price.currency).currency = item.price.currency :=
      money_currency 0 item.price
    rintro ⟨i, hi, j, hj, hne'⟩
    have hother : ∃ k ∈ input.items,
        k.price.currency ≠ (money 0 item.price.currency).currency := by
      rw [hcurrency]
      by_cases hfirst : i.price.currency = item.price.currency
      · exact ⟨j, hj, fun h => hne' (hfirst.trans h.symm)⟩
      · exact ⟨i, hi, hfirst⟩
    obtain ⟨b, herror⟩ := foldlM_addItem_error hother
    exact ⟨_, b, calculateTotal_error hitems herror⟩

theorem calculateTotal_subtotal (hitems : input.items = item :: items)
    (hone : ¬ MixedCurrencies input.items) (h : FewDigits input.items) :
    calculateTotal input = .ok (.of input item.price.currency
      (money (input.items.map cost).sum item.price.currency)) := by
  have hcurrency : (money 0 item.price.currency).currency = item.price.currency :=
    money_currency 0 item.price
  have hzero : (money 0 item.price.currency).amount = 0 := rfl
  have hsub := foldlM_addItem_eq (currency_of_one hitems hone) h.quantities h.products
    (fun l hl => by rw [hzero, zero_add]; exact h.sums l hl)
  rw [hcurrency, hzero, zero_add] at hsub
  exact calculateTotal_ok hitems hsub

end Totals

/-- **The totals of a cart**: two currencies are refused, in any order; of one currency, the
subtotal is the exact sum where no product and no sum on the way needs more than 28 digits, and
every order of the items of which that is true has the same totals. -/
theorem cart_totals (input : TotalInput) (hne : input.items ≠ []) :
    ((∃ a b, calculateTotal input = .error (.currencyMismatch a b)) ↔
        MixedCurrencies input.items) ∧
      (¬ MixedCurrencies input.items → FewDigits input.items →
        ∃ r, calculateTotal input = .ok r ∧ r.subtotal.amount = (input.items.map cost).sum ∧
          ∀ items, items.Perm input.items → FewDigits items →
            calculateTotal { input with items := items } = .ok r) := by
  refine ⟨mismatch_iff hne, fun hone hdigits => ?_⟩
  obtain ⟨item, rest, hitems⟩ := List.exists_cons_of_ne_nil hne
  refine ⟨_, calculateTotal_subtotal hitems hone hdigits, rfl, fun items hperm hdigits' => ?_⟩
  have hone' : ¬ MixedCurrencies items := by
    rintro ⟨i, hi, j, hj, hne'⟩
    exact hone ⟨i, hperm.mem_iff.1 hi, j, hperm.mem_iff.1 hj, hne'⟩
  have hne' : items ≠ [] := by
    rintro rfl
    exact hne hperm.nil_eq.symm
  obtain ⟨item', rest', rfl⟩ := List.exists_cons_of_ne_nil hne'
  have hcurrency : item'.price.currency = item.price.currency := by
    by_contra hdiffers
    exact hone ⟨item', hperm.mem_iff.1 (by simp), item, by simp [hitems], hdiffers⟩
  have hsum : ((item' :: rest').map cost).sum = (input.items.map cost).sum :=
    (hperm.map cost).sum_eq
  have htotal := @calculateTotal_subtotal { input with items := item' :: rest' } item' rest' rfl
    hone' hdigits'
  rw [htotal, hcurrency]
  simp only [hsum]
  rfl

/-- One of each, in dollars. -/
def basket (prices : List ℚ) : TotalInput where
  items := prices.map fun price => { price := money price "USD", quantity := 1 }
  taxRate := none
  destination := none

theorem cart_totals_basket :
    ∃ r, calculateTotal (basket [1999 / 100, 5]) = .ok r ∧
      r.subtotal.amount = ((basket [1999 / 100, 5]).items.map cost).sum := by
  have hone : ¬ MixedCurrencies (basket [1999 / 100, 5]).items := by
    rintro ⟨i, hi, j, hj, hne⟩
    obtain ⟨p, -, rfl⟩ := List.mem_map.1 hi
    obtain ⟨q, -, rfl⟩ := List.mem_map.1 hj
    exact hne rfl
  have hfew : FewDigits (basket [1999 / 100, 5]).items :=
    @fewDigits_of_units _ 2 (fun item => ⌊cost item * 10 ^ 2⌋) (by decide)
      (by decide +kernel) (by decide +kernel)
  obtain ⟨r, hr, hsub, -⟩ := (cart_totals (basket [1999 / 100, 5]) (by simp [basket])).2 hone hfew
  exact ⟨r, hr, hsub⟩

/-- A dollar is lost in a sum of 29 digits, and found in another order. -/
theorem order_matters :
    (calculateTotal (basket [10 ^ 28, 1, -10 ^ 28])).map (fun r => r.subtotal.amount) = .ok 0 ∧
      (calculateTotal (basket [10 ^ 28, -10 ^ 28, 1])).map (fun r => r.subtotal.amount) = .ok 1 := by
  decide +kernel

end Intellibiz.Finance
