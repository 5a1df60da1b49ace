import Intellibiz.FixedPoint
import Intellibiz.Numeral

/-!
# Decimal arithmetic

A decimal number with a mantissa of less than `B` and at most `P` decimals: an integer and the
number of its decimals.

* `kept` — how many decimals of a value `hold` keeps.
* `Arithmetic` — the operations on such decimals, by the values of their results; a result of none
  is an overflow.
* `TotalsHeld`, `TotalsFit` — sums that do not overflow on the way.
* `Scaled`, `Arithmetic.reference` — decimals as a mantissa and a scale, and operations on them.

Principal results: `hold_eq_none_iff` (when a value is too large), `hold_add_of_decimals` (more
decimals than a value has make no difference), `Arithmetic.add_eq_some_iff` (when a sum is exact)
and `Arithmetic.foldlM_add_isSome_iff`.
-/

namespace FixedPoint

open Rounding Numeral

/-! ## The decimals that are kept -/

/-- The number of decimals with which `hold` returns `q`. -/
def kept (ρ : ℚ → ℤ) (B : ℕ) : ℕ → ℚ → ℕ
  | 0, _ => 0
  | p + 1, q => if |ρ (q * 10 ^ (p + 1))| < B then p + 1 else kept ρ B p q

section Kept

variable {ρ : ℚ → ℤ} {B P : ℕ} {q z : ℚ}

theorem hold_eq_kept (ρ : ℚ → ℤ) (B P : ℕ) (q : ℚ) :
    hold ρ B P q =
      if |ρ (q * 10 ^ kept ρ B P q)| < B then
        some ((ρ (q * 10 ^ kept ρ B P q) : ℚ) / 10 ^ kept ρ B P q)
      else none := by
  induction P with
  | zero => simp [hold, kept]
  | succ p ih =>
    by_cases h : |ρ (q * 10 ^ (p + 1))| < B
    · simp [hold, kept, h]
    · simp only [hold, kept, h, if_false]
      exact ih

/-- A value is too large with any number of decimals, or with none. -/
theorem hold_eq_none_iff (hρ : ∀ q, |q - ρ q| ≤ 1 / 2) :
    hold ρ B P q = none ↔ (B : ℤ) ≤ |ρ q| := by
  refine ⟨le_of_hold_eq_none, fun hlarge => ?_⟩
  induction P with
  | zero =>
    unfold hold
    rw [if_neg (not_lt.2 hlarge)]
  | succ p ih =>
    unfold hold
    rw [if_neg, ih]
    intro hlt
    have hunits : (1 : ℚ) ≤ 10 ^ p := one_le_pow₀ (by norm_num)
    have hcast : (B : ℚ) ≤ |(ρ q : ℚ)| := by exact_mod_cast hlarge
    have hsmall : |(ρ (q * 10 ^ (p + 1)) : ℚ)| + 1 ≤ B := by exact_mod_cast hlt
    have hinteger := abs_round_le hρ q
    have hdecimal := abs_le_round hρ (q * 10 ^ (p + 1))
    rw [abs_mul, abs_of_pos (by positivity : (0 : ℚ) < 10 ^ (p + 1))] at hdecimal
    have hpos := abs_nonneg (ρ (q * 10 ^ (p + 1)) : ℚ)
    have htenth : |q| * 10 ≤ |q| * 10 ^ (p + 1) := by
      rw [pow_succ]
      nlinarith [mul_le_mul_of_nonneg_left hunits (abs_nonneg q)]
    linarith

/-- What is held with at most `s` decimals has no more. -/
theorem decimals_of_hold {s : ℕ} (h : hold ρ B s q = some z) : ∃ n : ℤ, z * 10 ^ s = n := by
  obtain ⟨n, p, hp, rfl, -⟩ := fits_of_hold h
  obtain ⟨k, rfl⟩ := Nat.exists_eq_add_of_le hp
  refine ⟨n * 10 ^ k, ?_⟩
  rw [pow_add]
  push_cast
  field_simp

/-- **More decimals than a value has make no difference.** -/
theorem hold_add_of_decimals (hint : ∀ n : ℤ, ρ n = n) {s : ℕ} (h : ∃ n : ℤ, q * 10 ^ s = n)
    (k : ℕ) : hold ρ B (s + k) q = hold ρ B s q := by
  induction k with
  | zero => rfl
  | succ k ih =>
    obtain ⟨n, hn⟩ := h
    have hscaled : q * 10 ^ (s + k + 1) = ((n * 10 ^ (k + 1) : ℤ) : ℚ) := by
      push_cast
      rw [← hn]
      ring
    rw [← Nat.add_assoc, hold]
    split
    · rename_i hlt
      rw [hscaled, hint] at hlt
      -- the units with fewer decimals are fewer
      have hle : |n| ≤ |n * 10 ^ (k + 1)| := by
        rw [abs_mul]
        exact le_mul_of_one_le_right (abs_nonneg n) (Int.one_le_abs (by positivity))
      have hq : q = n / 10 ^ s := by
        rw [← hn]
        field_simp
      have hfits : Fits B (s + k) q := ⟨n, s, Nat.le_add_right s k, hq, hle.trans_lt hlt⟩
      rw [← ih, hold_eq hint hfits, hscaled, hint, ← hscaled]
      congr 1
      field_simp
    · exact ih

theorem hold_of_decimals (hint : ∀ n : ℤ, ρ n = n) {s : ℕ} (hs : s ≤ P)
    (h : ∃ n : ℤ, q * 10 ^ s = n) : hold ρ B P q = hold ρ B s q := by
  obtain ⟨k, rfl⟩ := Nat.exists_eq_add_of_le hs
  exact hold_add_of_decimals hint h k

end Kept

/-! ## Operations -/

/-- Decimals of less than `B` units and at most `P` decimals. -/
structure Arithmetic (B P : ℕ) where
  Decimal : Type
  value : Decimal → ℚ
  fits : ∀ d, Fits B P (value d)
  ofInt : (n : ℤ) → |n| < B → Decimal
  /-- A string as a decimal; none is an error. -/
  fromStr : String → Option Decimal
  toText : Decimal → String
  /-- With a fixed number of digits behind the point. -/
  format : ℕ → Decimal → String
  add : Decimal → Decimal → Option Decimal
  mul : Decimal → Decimal → Option Decimal
  div : Decimal → Decimal → Option Decimal
  /-- To a number of decimals, half to even. -/
  roundDp : ℕ → Decimal → Decimal
  value_ofInt : ∀ n h, value (ofInt n h) = n
  /-- A decimal string is read with the digits that fit, rounded by the first that does not. -/
  fromStr_eq : ∀ {s q}, value? s = some q → (fromStr s).map value = hold halfAway B P q
  toText_eq : ∀ d, value? (toText d) = some (value d)
  /-- A value of at most `p` decimals is printed with `p` decimals. -/
  format_eq : ∀ p (n : ℤ) d, value d = n / 10 ^ p → format p d = fixed p n
  /-- A sum or product is exact or, where it has too many digits, rounded half to even; it overflows
  where the integral part does not fit. -/
  add_eq : ∀ a b, (add a b).map value = hold halfEven B P (value a + value b)
  mul_eq : ∀ a b, (mul a b).map value = hold halfEven B P (value a * value b)
  /-- A quotient that fits is exact. -/
  div_eq : ∀ a b, value b ≠ 0 → Fits B P (value a / value b) →
    (div a b).map value = some (value a / value b)
  roundDp_eq : ∀ p d, value (roundDp p d) = halfEven (value d * 10 ^ p) / 10 ^ p

section Operations

variable {B P : ℕ} {R : Arithmetic B P} {a b : R.Decimal}

theorem Arithmetic.exists_fromStr {s : String} {q : ℚ} (hq : value? s = some q)
    (hfits : Fits B P q) : ∃ d, R.fromStr s = some d ∧ R.value d = q := by
  have hread := R.fromStr_eq hq
  rw [hold_eq halfAway_intCast hfits] at hread
  exact Option.map_eq_some_iff.1 hread

/-- **A sum is exact** where it fits. -/
theorem Arithmetic.add_eq_some_iff :
    (∃ c, R.add a b = some c ∧ R.value c = R.value a + R.value b) ↔
      Fits B P (R.value a + R.value b) := by
  constructor
  · rintro ⟨c, -, hvalue⟩
    rw [← hvalue]
    exact R.fits c
  · intro hfits
    have hsum := R.add_eq a b
    rw [hold_eq halfEven_intCast hfits] at hsum
    obtain ⟨c, hc, hvalue⟩ := Option.map_eq_some_iff.1 hsum
    exact ⟨c, hc, hvalue⟩

theorem Arithmetic.exists_mul {z : ℚ} (h : hold halfEven B P (R.value a * R.value b) = some z) :
    ∃ c, R.mul a b = some c ∧ R.value c = z := by
  rw [← R.mul_eq] at h
  exact Option.map_eq_some_iff.1 h

theorem Arithmetic.exists_div (hb : R.value b ≠ 0) (h : Fits B P (R.value a / R.value b)) :
    ∃ c, R.div a b = some c ∧ R.value c = R.value a / R.value b :=
  Option.map_eq_some_iff.1 (R.div_eq a b hb h)

end Operations

/-! ## Running totals -/

/-- No total overflows, from `total` on, where each is rounded to the decimals that fit. -/
def TotalsHeld (B P : ℕ) : ℚ → List ℚ → Prop
  | _, [] => True
  | total, q :: rest =>
    ∃ next, hold halfEven B P (total + q) = some next ∧ TotalsHeld B P next rest

/-- Every total is exact and fits. -/
def TotalsFit (B P : ℕ) (total : ℚ) (qs : List ℚ) : Prop :=
  ∀ n, Fits B P (total + (qs.take n).sum)

section Totals

variable {B P : ℕ} {R : Arithmetic B P} {q total : ℚ} {qs : List ℚ}

theorem totalsFit_cons (htotal : Fits B P total) :
    TotalsFit B P total (q :: qs) ↔ TotalsFit B P (total + q) qs := by
  constructor
  · intro h n
    have hn := h (n + 1)
    rwa [List.take_succ_cons, List.sum_cons, ← add_assoc] at hn
  · intro h n
    cases n with
    | zero => simpa using htotal
    | succ n =>
      rw [List.take_succ_cons, List.sum_cons, ← add_assoc]
      exact h n

theorem TotalsFit.start (h : TotalsFit B P total qs) : Fits B P total := by
  have hzero := h 0
  rwa [List.take_zero, List.sum_nil, add_zero] at hzero

/-- Exact totals are not rounded. -/
theorem TotalsFit.held (h : TotalsFit B P total qs) : TotalsHeld B P total qs := by
  induction qs generalizing total with
  | nil => exact trivial
  | cons q qs ih =>
    have hnext := (totalsFit_cons h.start).1 h
    exact ⟨total + q, hold_eq halfEven_intCast hnext.start, ih hnext⟩

/-- Rounded totals are at most half a unit for each summand from the exact ones. -/
theorem totalsHeld_of_abs_lt (h : ∀ n : ℕ, |total + (qs.take n).sum| + n / 2 < B) :
    TotalsHeld B P total qs := by
  induction qs generalizing total with
  | nil => exact trivial
  | cons q qs ih =>
    have hsum := h 1
    rw [List.take_succ_cons, List.take_zero, List.sum_singleton, Nat.cast_one] at hsum
    cases hnext : hold halfEven B P (total + q) with
    | none =>
      have hlarge : (((B : ℕ) : ℤ) : ℚ) ≤ ((|halfEven (total + q)| : ℤ) : ℚ) :=
        Int.cast_le.2 (le_of_hold_eq_none hnext)
      have hround := abs_round_le abs_sub_halfEven_le (total + q)
      push_cast at hlarge
      linarith
    | some next =>
      refine ⟨next, hnext, ih fun n => ?_⟩
      have herr := abs_hold_sub_le abs_sub_halfEven_le hnext
      have hn := h (n + 1)
      rw [List.take_succ_cons, List.sum_cons, ← add_assoc] at hn
      have htriangle := abs_sub_abs_le_abs_sub (next + (qs.take n).sum)
        (total + q + (qs.take n).sum)
      rw [add_sub_add_right_eq_sub] at htriangle
      push_cast at hn
      linarith

/-- **When a sum has no overflow on the way.** -/
theorem Arithmetic.foldlM_add_isSome_iff (d : R.Decimal) (ds : List R.Decimal) :
    (ds.foldlM R.add d).isSome ↔ TotalsHeld B P (R.value d) (ds.map R.value) := by
  induction ds generalizing d with
  | nil => simp [TotalsHeld]
  | cons a ds ih =>
    have hadd := R.add_eq d a
    rw [List.foldlM_cons, List.map_cons, TotalsHeld, ← hadd]
    cases R.add d a with
    | none => simp
    | some c =>
      have hsome := ih c
      simpa using hsome

/-- With an addition that has no result but the exact one, every total has to fit. -/
theorem Arithmetic.foldlM_exact_isSome_iff {add : R.Decimal → R.Decimal → Option R.Decimal}
    (hsome : ∀ a b c, add a b = some c → R.value c = R.value a + R.value b)
    (hnone : ∀ a b, add a b = none ↔ ¬ Fits B P (R.value a + R.value b))
    (d : R.Decimal) (ds : List R.Decimal) :
    (ds.foldlM add d).isSome ↔ TotalsFit B P (R.value d) (ds.map R.value) := by
  induction ds generalizing d with
  | nil =>
    have hfit : TotalsFit B P (R.value d) [] := by
      intro n
      rw [List.take_nil, List.sum_nil, add_zero]
      exact R.fits d
    simp [hfit]
  | cons a ds ih =>
    rw [List.foldlM_cons, List.map_cons, totalsFit_cons (R.fits d)]
    cases hadd : add d a with
    | none =>
      have hover := (hnone d a).1 hadd
      simpa using fun h : TotalsFit B P _ _ => hover h.start
    | some c =>
      have hc := ih c
      rw [hsome d a c hadd] at hc
      simpa using hc

end Totals

/-! ## Mantissa and scale -/

structure Scaled (B P : ℕ) where
  mantissa : ℤ
  scale : ℕ
  scale_le : scale ≤ P
  bounded : |mantissa| < B

namespace Scaled

variable {B P : ℕ}

def value (d : Scaled B P) : ℚ := d.mantissa / 10 ^ d.scale

theorem fits (d : Scaled B P) : Fits B P d.value :=
  ⟨d.mantissa, d.scale, d.scale_le, rfl, d.bounded⟩

/-- `q` with as many decimals as fit, at most `p`. -/
def hold (ρ : ℚ → ℤ) : (p : ℕ) → p ≤ P → ℚ → Option (Scaled B P)
  | 0, _, q => if h : |ρ q| < B then some ⟨ρ q, 0, Nat.zero_le P, h⟩ else none
  | p + 1, hp, q =>
    if h : |ρ (q * 10 ^ (p + 1))| < B then some ⟨ρ (q * 10 ^ (p + 1)), p + 1, hp, h⟩
    else hold ρ p (Nat.le_of_succ_le hp) q

theorem map_hold (ρ : ℚ → ℤ) (p : ℕ) (hp : p ≤ P) (q : ℚ) :
    (hold ρ p hp q : Option (Scaled B P)).map value = FixedPoint.hold ρ B p q := by
  induction p with
  | zero =>
    unfold hold FixedPoint.hold
    split
    · simp [value]
    · rfl
  | succ p ih =>
    unfold hold FixedPoint.hold
    split
    · rfl
    · exact ih _

/-- A value of at most `s` decimals, held from its own decimals on. -/
theorem map_hold_min {ρ : ℚ → ℤ} (hint : ∀ n : ℤ, ρ n = n) {s : ℕ} {q : ℚ}
    (h : ∃ n : ℤ, q * 10 ^ s = n) :
    (hold ρ (min s P) (min_le_right s P) q : Option (Scaled B P)).map value =
      FixedPoint.hold ρ B P q := by
  rw [map_hold]
  rcases le_total s P with hs | hs
  · rw [min_eq_left hs, hold_of_decimals hint hs h]
  · rw [min_eq_right hs]

theorem value_mul_pow (d : Scaled B P) {s : ℕ} (hs : d.scale ≤ s) :
    ∃ n : ℤ, d.value * 10 ^ s = n := by
  obtain ⟨k, rfl⟩ := Nat.exists_eq_add_of_le hs
  refine ⟨d.mantissa * 10 ^ k, ?_⟩
  unfold value
  rw [pow_add]
  push_cast
  field_simp

/-- To `p` decimals, if there are more. -/
def roundDp (p : ℕ) (d : Scaled B P) : Scaled B P :=
  if h : d.scale ≤ p then d
  else
    { mantissa := halfEven (d.value * 10 ^ p)
      scale := p
      scale_le := by have := d.scale_le; omega
      bounded := by
        obtain ⟨k, hk⟩ := Nat.exists_eq_add_of_le (not_le.1 h).le
        have hpow : (1 : ℚ) ≤ 10 ^ k := one_le_pow₀ (by norm_num)
        refine lt_of_le_of_lt (abs_halfEven_le ?_) d.bounded
        have hvalue : d.value * 10 ^ p = d.mantissa / 10 ^ k := by
          unfold value
          rw [hk, pow_add]
          field_simp
        rw [hvalue, abs_div, abs_of_pos (by positivity : (0 : ℚ) < 10 ^ k)]
        push_cast
        exact div_le_self (abs_nonneg _) hpow }

theorem value_roundDp (p : ℕ) (d : Scaled B P) :
    (d.roundDp p).value = halfEven (d.value * 10 ^ p) / 10 ^ p := by
  unfold roundDp
  split
  · rename_i h
    obtain ⟨n, hn⟩ := d.value_mul_pow h
    rw [hn, halfEven_intCast, ← hn]
    field_simp
  · rfl

/-- The fewest decimals of `q`, at most `P`. -/
def decimals (P : ℕ) (q : ℚ) : ℕ :=
  ((List.range (P + 1)).find? fun p => (q * 10 ^ p).isInt).getD P

/-- `q` with no decimals that it does not have. -/
def quotient (q : ℚ) : Option (Scaled B P) :=
  hold halfEven (min (decimals P q) P) (min_le_right _ P) q

theorem decimals_spec (P : ℕ) (q : ℚ) :
    decimals P q = P ∨ ∃ n : ℤ, q * 10 ^ decimals P q = n := by
  unfold decimals
  cases h : (List.range (P + 1)).find? fun p => (q * 10 ^ p).isInt with
  | none => exact .inl rfl
  | some p =>
    have hint : (q * 10 ^ p).isInt = true := by simpa using List.find?_some h
    exact .inr ⟨_, Rat.eq_num_of_isInt hint⟩

theorem map_quotient (q : ℚ) :
    (quotient q : Option (Scaled B P)).map value = FixedPoint.hold halfEven B P q := by
  unfold quotient
  rcases decimals_spec P q with h | h
  · rw [map_hold, h, min_self]
  · exact map_hold_min halfEven_intCast h

end Scaled

/-- Operations that behave as those of the abstract decimals, to run a program with. -/
def Arithmetic.reference (B P : ℕ) : Arithmetic B P where
  Decimal := Scaled B P
  value := Scaled.value
  fits := Scaled.fits
  ofInt n h := ⟨n, 0, Nat.zero_le P, h⟩
  fromStr s := (value? s).bind fun q =>
    Scaled.hold halfAway (min (fractionDigits s) P) (min_le_right _ P) q
  toText d := fixed d.scale d.mantissa
  format p d := fixed p (truncate (d.value * 10 ^ p))
  add a b :=
    Scaled.hold halfEven (min (max a.scale b.scale) P) (min_le_right _ P) (a.value + b.value)
  mul a b := Scaled.hold halfEven (min (a.scale + b.scale) P) (min_le_right _ P) (a.value * b.value)
  div a b := if b.value = 0 then none else Scaled.quotient (a.value / b.value)
  roundDp := Scaled.roundDp
  value_ofInt n h := by simp [Scaled.value]
  fromStr_eq := by
    intro s q hq
    rw [hq, Option.bind_some]
    exact Scaled.map_hold_min halfAway_intCast (value?_mul_pow hq)
  toText_eq d := value?_fixed _ _
  format_eq := by
    intro p n d hd
    rw [hd, div_mul_cancel₀ _ (by positivity), truncate_intCast]
  add_eq a b := by
    refine Scaled.map_hold_min halfEven_intCast ?_
    obtain ⟨m, hm⟩ := a.value_mul_pow (le_max_left a.scale b.scale)
    obtain ⟨n, hn⟩ := b.value_mul_pow (le_max_right a.scale b.scale)
    exact ⟨m + n, by rw [add_mul, hm, hn, Int.cast_add]⟩
  mul_eq a b := by
    refine Scaled.map_hold_min halfEven_intCast ?_
    obtain ⟨m, hm⟩ := a.value_mul_pow le_rfl
    obtain ⟨n, hn⟩ := b.value_mul_pow le_rfl
    exact ⟨m * n, by rw [pow_add, mul_mul_mul_comm, hm, hn, Int.cast_mul]⟩
  div_eq := by
    intro a b hb hfits
    rw [if_neg hb, Scaled.map_quotient]
    exact hold_eq halfEven_intCast hfits
  roundDp_eq := Scaled.value_roundDp

end FixedPoint
