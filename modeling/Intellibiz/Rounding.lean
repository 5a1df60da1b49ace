import Mathlib.Data.Rat.Floor
import Mathlib.Data.Int.Log
import Mathlib.Algebra.Order.Field.Power
import Mathlib.Tactic.FieldSimp
import Mathlib.Tactic.Linarith
import Mathlib.Tactic.Positivity
import Mathlib.Tactic.Ring

/-!
# Rounding half to even

Rounding of rationals, to an integer and to a number of significant digits in a base.

* `halfEven` — the nearest integer, the even one in a tie; `RoundsUp` says when it is above the
  floor.
* `roundDigits` — the nearest value with `p` significant digits in base `b`.
* `Representable` — the values with at most `p` digits.

Principal results: `halfEven_eq_iff` (what the rounded value is), `roundDigits_eq` (representable
values are kept), `representable_roundDigits`, `abs_roundDigits_sub_le` (the error) and
`roundDigits_eq_of_close` (the values around a representable one).
-/

namespace Rounding

/-! ## To an integer -/

/-- The fraction is more than a half, or a half above an odd integer. -/
def RoundsUp (q : ℚ) : Prop := 1 / 2 < Int.fract q ∨ (Int.fract q = 1 / 2 ∧ ¬ Even ⌊q⌋)

instance (q : ℚ) : Decidable (RoundsUp q) := inferInstanceAs (Decidable (_ ∨ _))

def halfEven (q : ℚ) : ℤ := if RoundsUp q then ⌊q⌋ + 1 else ⌊q⌋

theorem halfEven_eq_floor_iff {q : ℚ} : halfEven q = ⌊q⌋ ↔ ¬ RoundsUp q := by
  unfold halfEven
  split
  · rename_i hup
    simp [hup]
  · rename_i hup
    simp [hup]

/-- The error is below a half, or a half above or below an even integer. -/
def Near (q : ℚ) (n : ℤ) : Prop := |q - n| < 1 / 2 ∨ (|q - n| = 1 / 2 ∧ Even n)

theorem halfEven_near (q : ℚ) : Near q (halfEven q) := by
  have hfract := Int.fract_add_floor q
  have hnonneg := Int.fract_nonneg q
  have hlt := Int.fract_lt_one q
  unfold Near halfEven
  split
  · rename_i hup
    have herr : q - ((⌊q⌋ + 1 : ℤ) : ℚ) = Int.fract q - 1 := by
      push_cast
      linarith
    rw [herr, abs_of_neg (by linarith)]
    rcases hup with hup | ⟨htie, hodd⟩
    · left
      linarith
    · right
      exact ⟨by linarith, Int.even_add_one.2 hodd⟩
  · rename_i hup
    have herr : q - (⌊q⌋ : ℚ) = Int.fract q := by linarith
    rw [herr, abs_of_nonneg hnonneg]
    rw [RoundsUp, not_or, not_and, not_not, not_lt] at hup
    rcases hup.1.lt_or_eq with hless | htie
    · exact .inl hless
    · exact .inr ⟨htie, hup.2 htie⟩

theorem Near.unique {q : ℚ} {m n : ℤ} (hm : Near q m) (hn : Near q n) : m = n := by
  have hle : ∀ {k : ℤ}, Near q k → |q - k| ≤ 1 / 2 := by
    rintro k (hk | ⟨hk, -⟩)
    · exact hk.le
    · exact hk.le
  have hdist : |(m : ℚ) - n| ≤ |q - n| + |q - m| := by
    have hsplit : (m : ℚ) - n = (q - n) - (q - m) := by ring
    rw [hsplit]
    exact abs_sub _ _
  have hcast : |(m : ℚ) - n| = ((|m - n| : ℤ) : ℚ) := by push_cast; rfl
  have hm' := hle hm
  have hn' := hle hn
  -- integers at distance one are not both even
  by_contra hne
  have hone : (1 : ℤ) ≤ |m - n| := Int.one_le_abs (sub_ne_zero.2 hne)
  have honeq : (1 : ℚ) ≤ ((|m - n| : ℤ) : ℚ) := by exact_mod_cast hone
  rw [hcast] at hdist
  have htie : ((|m - n| : ℤ) : ℚ) = 1 := by linarith
  have hties : |q - m| = 1 / 2 ∧ |q - n| = 1 / 2 := ⟨by linarith, by linarith⟩
  have heven : ∀ {k : ℤ}, Near q k → |q - k| = 1 / 2 → Even k := by
    rintro k (hk | ⟨-, hk⟩) heq
    · linarith
    · exact hk
  have hdiff := (heven hm hties.1).sub (heven hn hties.2)
  have habs : |m - n| = 1 := by exact_mod_cast htie
  rw [← even_abs, habs] at hdiff
  exact absurd hdiff (by decide)

/-- **What the rounded value is.** -/
theorem halfEven_eq_iff {q : ℚ} {n : ℤ} : halfEven q = n ↔ Near q n :=
  ⟨fun h => h ▸ halfEven_near q, fun h => (halfEven_near q).unique h⟩

@[simp] theorem halfEven_intCast (n : ℤ) : halfEven n = n :=
  halfEven_eq_iff.2 (.inl (by norm_num))

theorem halfEven_zero : halfEven 0 = 0 := by
  have hint := halfEven_intCast 0
  rwa [Int.cast_zero] at hint

@[simp] theorem halfEven_neg (q : ℚ) : halfEven (-q) = -halfEven q := by
  have hdist : |-q - (-halfEven q : ℤ)| = |q - halfEven q| := by
    rw [← abs_neg]
    push_cast
    congr 1
    ring
  refine halfEven_eq_iff.2 ?_
  rcases halfEven_near q with h | ⟨h, heven⟩
  · exact .inl (hdist.trans_lt h)
  · exact .inr ⟨hdist.trans h, heven.neg⟩

theorem abs_sub_halfEven_le (q : ℚ) : |q - halfEven q| ≤ 1 / 2 := by
  rcases halfEven_near q with h | ⟨h, -⟩
  · exact h.le
  · exact h.le

/-- **Rounding does not pass an integer.** -/
theorem halfEven_le {q : ℚ} {n : ℤ} (h : q ≤ n) : halfEven q ≤ n := by
  have herr := (abs_le.1 (abs_sub_halfEven_le q)).1
  have hlt : (halfEven q : ℚ) < ((n + 1 : ℤ) : ℚ) := by
    push_cast
    linarith
  have hlt' : halfEven q < n + 1 := by exact_mod_cast hlt
  omega

theorem halfEven_mono {p q : ℚ} (h : p ≤ q) : halfEven p ≤ halfEven q := by
  by_contra hpassed
  have hp := (abs_le.1 (abs_sub_halfEven_le p)).1
  have hq := (abs_le.1 (abs_sub_halfEven_le q)).2
  have hstep : (halfEven q : ℚ) + 1 ≤ halfEven p := by
    have hlt : halfEven q + 1 ≤ halfEven p := by omega
    exact_mod_cast hlt
  -- there is room for one value only between them, which is rounded one way
  have hsame : p = q := by linarith
  rw [hsame] at hpassed
  exact hpassed le_rfl

theorem abs_halfEven_le {q : ℚ} {n : ℤ} (h : |q| ≤ n) : |halfEven q| ≤ n := by
  have hn : (0 : ℚ) ≤ n := (abs_nonneg q).trans h
  obtain ⟨hlow, hhigh⟩ := abs_le.1 h
  have hfloor : -n ≤ ⌊q⌋ := Int.le_floor.2 (by push_cast; exact hlow)
  have hfloor' : ⌊q⌋ ≤ n := by exact_mod_cast (Int.floor_le q).trans hhigh
  unfold halfEven
  split
  · rename_i hup
    -- above its floor, the value is below the bound
    have hfract : 0 < Int.fract q := by
      rcases hup with hup | ⟨hup, -⟩
      · linarith
      · rw [hup]
        norm_num
    have hlt : (⌊q⌋ : ℚ) < n := by
      have hsum := Int.fract_add_floor q
      linarith
    have hlt' : ⌊q⌋ < n := by exact_mod_cast hlt
    rw [abs_le]
    omega
  · rw [abs_le]
    omega

/-! ## To a number of digits -/

/-- The exponent of the last of `p` digits. -/
def lastDigit (b p : ℕ) (q : ℚ) : ℤ := Int.log b |q| - p + 1

def roundDigits (b p : ℕ) (q : ℚ) : ℚ :=
  halfEven (q / (b : ℚ) ^ lastDigit b p q) * (b : ℚ) ^ lastDigit b p q

/-- At most `p` significant digits in base `b`. -/
def Representable (b p : ℕ) (q : ℚ) : Prop :=
  ∃ (n e : ℤ), q = n * (b : ℚ) ^ e ∧ |n| ≤ b ^ p

section Digits

variable {b p : ℕ} {q : ℚ}

theorem base_pos (hb : 1 < b) : (0 : ℚ) < b := by
  exact_mod_cast Nat.lt_of_succ_lt hb

@[simp] theorem roundDigits_zero : roundDigits b p 0 = 0 := by
  simp [roundDigits, halfEven_zero]

theorem Representable.int {n : ℤ} (h : |n| ≤ b ^ p) : Representable b p n := ⟨n, 0, by simp, h⟩

theorem Representable.scale (h : Representable b p q) (hb : 1 < b) (k : ℤ) :
    Representable b p (q * (b : ℚ) ^ k) := by
  obtain ⟨n, e, rfl, hn⟩ := h
  exact ⟨n, e + k, by rw [zpow_add₀ (base_pos hb).ne']; ring, hn⟩

/-- A value times an integral multiple of the last digit is rounded to itself. -/
theorem roundDigits_of_multiple (hb : 1 < b) {m : ℤ} (h : q = m * (b : ℚ) ^ lastDigit b p q) :
    roundDigits b p q = q := by
  have hpow : (b : ℚ) ^ lastDigit b p q ≠ 0 := (zpow_pos (base_pos hb) _).ne'
  have hdiv : q / (b : ℚ) ^ lastDigit b p q = m := by
    rw [div_eq_iff hpow]
    exact h
  rw [roundDigits, hdiv, halfEven_intCast]
  exact h.symm

/-- **Representable values are kept.** -/
theorem roundDigits_eq (hb : 1 < b) (hp : 0 < p) (h : Representable b p q) :
    roundDigits b p q = q := by
  obtain ⟨n, e, rfl, hn⟩ := h
  have hbpos := base_pos hb
  by_cases hzero : n = 0
  · simp [hzero]
  have habs : |(n : ℚ) * (b : ℚ) ^ e| = ((|n| : ℤ) : ℚ) * (b : ℚ) ^ e := by
    rw [abs_mul, abs_of_pos (zpow_pos hbpos e)]
    push_cast
    rfl
  have hnpos : (0 : ℚ) < |(n : ℚ) * (b : ℚ) ^ e| :=
    abs_pos.2 (mul_ne_zero (by exact_mod_cast hzero) (zpow_pos hbpos e).ne')
  have hlog := Int.zpow_log_le_self hb hnpos
  rcases hn.lt_or_eq with hlt | heq
  · -- the last digit is at or below the exponent of the value
    have hbound : |(n : ℚ) * (b : ℚ) ^ e| < (b : ℚ) ^ ((p : ℤ) + e) := by
      rw [habs, zpow_add₀ hbpos.ne', zpow_natCast]
      have hcast : ((|n| : ℤ) : ℚ) < (b : ℚ) ^ p := by exact_mod_cast hlt
      exact mul_lt_mul_of_pos_right hcast (zpow_pos hbpos e)
    have hexp : Int.log b |(n : ℚ) * (b : ℚ) ^ e| < (p : ℤ) + e :=
      (zpow_lt_zpow_iff_right₀ (by exact_mod_cast hb)).1 (hlog.trans_lt hbound)
    obtain ⟨k, hk⟩ := Int.eq_ofNat_of_zero_le
      (show 0 ≤ e - lastDigit b p ((n : ℚ) * (b : ℚ) ^ e) by unfold lastDigit; omega)
    refine roundDigits_of_multiple hb (m := n * b ^ k) ?_
    have hsplit : e = (k : ℤ) + lastDigit b p ((n : ℚ) * (b : ℚ) ^ e) := by omega
    have hpow : (b : ℚ) ^ e = (b : ℚ) ^ k * (b : ℚ) ^ lastDigit b p ((n : ℚ) * (b : ℚ) ^ e) := by
      rw [← zpow_natCast, ← zpow_add₀ hbpos.ne', ← hsplit]
    rw [Int.cast_mul, Int.cast_pow, Int.cast_natCast, mul_assoc, ← hpow]
  · -- a power of the base
    have hpower : |(n : ℚ) * (b : ℚ) ^ e| = (b : ℚ) ^ ((p : ℤ) + e) := by
      rw [habs, heq, zpow_add₀ hbpos.ne', zpow_natCast]
      push_cast
      rfl
    have hexp : lastDigit b p ((n : ℚ) * (b : ℚ) ^ e) = e + 1 := by
      unfold lastDigit
      rw [hpower, Int.log_zpow hb]
      omega
    obtain ⟨p, rfl⟩ := Nat.exists_eq_succ_of_ne_zero hp.ne'
    have hmultiple : ∃ m : ℤ, n = m * b := by
      rcases abs_eq (by positivity) |>.1 heq with hn | hn
      · exact ⟨b ^ p, by rw [hn, pow_succ]⟩
      · exact ⟨-b ^ p, by rw [hn, pow_succ]; ring⟩
    obtain ⟨m, rfl⟩ := hmultiple
    refine roundDigits_of_multiple hb (m := m) ?_
    rw [hexp, zpow_add₀ hbpos.ne', zpow_one, Int.cast_mul, Int.cast_natCast]
    ring

theorem representable_roundDigits (hb : 1 < b) (q : ℚ) : Representable b p (roundDigits b p q) := by
  have hbpos := base_pos hb
  refine ⟨_, _, rfl, abs_halfEven_le ?_⟩
  have hpow : (0 : ℚ) < (b : ℚ) ^ lastDigit b p q := zpow_pos hbpos _
  rw [abs_div, abs_of_pos hpow, div_le_iff₀ hpow]
  have hlog := Int.lt_zpow_succ_log_self (b := b) hb |q|
  have hsplit : Int.log b |q| + 1 = (p : ℤ) + lastDigit b p q := by
    unfold lastDigit
    omega
  rw [hsplit, zpow_add₀ hbpos.ne', zpow_natCast] at hlog
  push_cast
  exact hlog.le

/-- **The error is at most half a unit of the last digit.** -/
theorem abs_roundDigits_sub_le (hb : 1 < b) :
    |roundDigits b p q - q| ≤ |q| * (b : ℚ) ^ (1 - (p : ℤ)) / 2 := by
  have hbpos := base_pos hb
  by_cases hzero : q = 0
  · simp [hzero]
  set u : ℚ := (b : ℚ) ^ lastDigit b p q with hu
  have hupos : 0 < u := zpow_pos hbpos _
  have hscaled : |(halfEven (q / u) : ℚ) - q / u| ≤ 1 / 2 := by
    rw [abs_sub_comm]
    exact abs_sub_halfEven_le _
  have herr : roundDigits b p q - q = ((halfEven (q / u) : ℚ) - q / u) * u := by
    rw [sub_mul, div_mul_cancel₀ _ hupos.ne']
    rfl
  have hlog := Int.zpow_log_le_self hb (abs_pos.2 hzero)
  have hunit : u ≤ |q| * (b : ℚ) ^ (1 - (p : ℤ)) := by
    have hsplit : lastDigit b p q = Int.log b |q| + (1 - (p : ℤ)) := by
      unfold lastDigit
      omega
    rw [hu, hsplit, zpow_add₀ hbpos.ne']
    exact mul_le_mul_of_nonneg_right hlog (zpow_pos hbpos _).le
  rw [herr, abs_mul, abs_of_pos hupos]
  calc |(halfEven (q / u) : ℚ) - q / u| * u ≤ 1 / 2 * u :=
        mul_le_mul_of_nonneg_right hscaled hupos.le
    _ ≤ |q| * (b : ℚ) ^ (1 - (p : ℤ)) / 2 := by linarith

@[simp] theorem roundDigits_neg (q : ℚ) : roundDigits b p (-q) = -roundDigits b p q := by
  have hlast : lastDigit b p (-q) = lastDigit b p q := by
    unfold lastDigit
    rw [abs_neg]
  unfold roundDigits
  rw [hlast, neg_div, halfEven_neg]
  push_cast
  ring

/-- **Rounding does not pass a multiple of the last digit.** -/
theorem roundDigits_le (hb : 1 < b) {c : ℚ} {m : ℤ} (hc : c = m * (b : ℚ) ^ lastDigit b p q)
    (h : q ≤ c) : roundDigits b p q ≤ c := by
  have hpow : (0 : ℚ) < (b : ℚ) ^ lastDigit b p q := zpow_pos (base_pos hb) _
  have hquot : q / (b : ℚ) ^ lastDigit b p q ≤ m := by
    rw [div_le_iff₀ hpow, ← hc]
    exact h
  have hround : (halfEven (q / (b : ℚ) ^ lastDigit b p q) : ℚ) ≤ m := by
    exact_mod_cast halfEven_le hquot
  rw [hc]
  exact mul_le_mul_of_nonneg_right hround hpow.le

theorem le_roundDigits (hb : 1 < b) {c : ℚ} {m : ℤ} (hc : c = m * (b : ℚ) ^ lastDigit b p q)
    (h : c ≤ q) : c ≤ roundDigits b p q := by
  have hlast : lastDigit b p (-q) = lastDigit b p q := by
    unfold lastDigit
    rw [abs_neg]
  have hneg := @roundDigits_le b p (-q) hb (-c) (-m)
    (by rw [hlast, hc]; push_cast; ring) (neg_le_neg h)
  rw [roundDigits_neg] at hneg
  linarith

/-- A representable value is a multiple of its last digit. -/
theorem Representable.multiple (h : Representable b p q) (hb : 1 < b) (hp : 0 < p) :
    ∃ m : ℤ, q = m * (b : ℚ) ^ lastDigit b p q :=
  ⟨_, (roundDigits_eq hb hp h).symm⟩

theorem Representable.mono {p' : ℕ} (h : Representable b p q) (hb : 0 < b) (hle : p ≤ p') :
    Representable b p' q := by
  obtain ⟨n, e, hq, hn⟩ := h
  exact ⟨n, e, hq, hn.trans (pow_le_pow_right₀ (by exact_mod_cast hb) hle)⟩

theorem Representable.neg (h : Representable b p q) : Representable b p (-q) := by
  obtain ⟨n, e, rfl, hn⟩ := h
  exact ⟨-n, e, by push_cast; ring, by rwa [abs_neg]⟩

/-- The multiple of the last digit that is less than half of it away. -/
theorem roundDigits_of_near (hb : 1 < b) {m : ℤ}
    (h : |q - m * (b : ℚ) ^ lastDigit b p q| < (b : ℚ) ^ lastDigit b p q / 2) :
    roundDigits b p q = m * (b : ℚ) ^ lastDigit b p q := by
  have hpos : (0 : ℚ) < (b : ℚ) ^ lastDigit b p q := zpow_pos (base_pos hb) _
  have hnear : halfEven (q / (b : ℚ) ^ lastDigit b p q) = m := by
    refine halfEven_eq_iff.2 (.inl ?_)
    have hdiff : q / (b : ℚ) ^ lastDigit b p q - m =
        (q - m * (b : ℚ) ^ lastDigit b p q) / (b : ℚ) ^ lastDigit b p q := by
      field_simp
    rw [hdiff, abs_div, abs_of_pos hpos, div_lt_iff₀ hpos]
    linarith
  rw [roundDigits, hnear]

/-- Numbers below a multiple of a unit are a full unit below it. -/
theorem multiple_add_le {u x y : ℚ} {m k : ℤ} (hu : 0 < u) (hx : x = m * u) (hy : y = k * u)
    (h : x < y) : x + u ≤ y := by
  rw [hx, hy] at h ⊢
  have hlt : (m : ℚ) < k := lt_of_mul_lt_mul_right h hu.le
  have hle : m + 1 ≤ k := by exact_mod_cast hlt
  have hcast : (m : ℚ) + 1 ≤ k := by exact_mod_cast hle
  have hmul := mul_le_mul_of_nonneg_right hcast hu.le
  linarith

theorem log_bounds (hb : 1 < b) (hq : 0 < q) :
    (b : ℚ) ^ Int.log b |q| ≤ q ∧ q < (b : ℚ) ^ (Int.log b |q| + 1) := by
  rw [abs_of_pos hq]
  exact ⟨Int.zpow_log_le_self hb hq, Int.lt_zpow_succ_log_self hb q⟩

/-- Higher powers of the base are multiples of a unit. -/
theorem exists_zpow_eq (hb : 1 < b) {e k : ℤ} (h : e ≤ k) :
    ∃ j : ℤ, (b : ℚ) ^ k = j * (b : ℚ) ^ e := by
  obtain ⟨i, hi⟩ := Int.eq_ofNat_of_zero_le (show 0 ≤ k - e by omega)
  refine ⟨b ^ i, ?_⟩
  rw [Int.cast_pow, Int.cast_natCast, ← zpow_natCast, ← zpow_add₀ (base_pos hb).ne']
  congr 1
  omega

section Close

variable {r : ℚ} (hb : 1 < b) (hp : 0 < p) (hr : Representable b p r) (hpos : 0 < r)
  (h : |q - r| < r * (b : ℚ) ^ (-(p : ℤ)) / 2)

include hb hp in
theorem zpow_neg_le : (b : ℚ) ^ (-(p : ℤ)) ≤ 1 / 2 := by
  have hb2 : (2 : ℚ) ≤ b := by exact_mod_cast hb
  rw [zpow_neg, zpow_natCast, inv_eq_one_div]
  apply one_div_le_one_div_of_le (by norm_num)
  exact hb2.trans (le_self_pow₀ (by linarith) hp.ne')

include hb hpos h in
/-- Such a value is less than half a unit away. -/
theorem close_unit : |q - r| < (b : ℚ) ^ lastDigit b p r / 2 := by
  refine h.trans ?_
  have hmul := mul_lt_mul_of_pos_right (log_bounds hb hpos).2 (zpow_pos (base_pos hb) (-(p : ℤ)))
  rw [← zpow_add₀ (base_pos hb).ne',
    show Int.log b |r| + 1 + -(p : ℤ) = lastDigit b p r by unfold lastDigit; omega] at hmul
  linarith

include hb hp hpos h in
theorem pos_of_close : 0 < q := by
  have hmul := mul_le_mul_of_nonneg_left (zpow_neg_le hb hp) hpos.le
  have hgt := (abs_lt.1 h).1
  linarith

include hb hp hr hpos h in
/-- With a smaller exponent, it lies below the power of the base that it is rounded to. -/
theorem lower_of_close (hlt : Int.log b |q| < Int.log b |r|) :
    Int.log b |q| = Int.log b |r| - 1 ∧ r = (b : ℚ) ^ Int.log b |r| := by
  have hbpos := base_pos hb
  have hb2 : (2 : ℚ) ≤ b := by exact_mod_cast hb
  have hqpos := pos_of_close hb hp hpos h
  have hclose := (abs_lt.1 (close_unit hb hpos h)).1
  have hUpos : (0 : ℚ) < (b : ℚ) ^ lastDigit b p r := zpow_pos hbpos _
  obtain ⟨m, hm⟩ := hr.multiple hb hp
  have hqL : q < (b : ℚ) ^ Int.log b |r| :=
    (log_bounds hb hqpos).2.trans_le (zpow_le_zpow_right₀ (by linarith) (by omega))
  have hrL : r = (b : ℚ) ^ Int.log b |r| := by
    refine le_antisymm ?_ (log_bounds hb hpos).1
    by_contra hnot
    obtain ⟨j, hj⟩ := exists_zpow_eq hb
      (show lastDigit b p r ≤ Int.log b |r| by unfold lastDigit; omega)
    have hgap := multiple_add_le hUpos hj hm (not_le.1 hnot)
    linarith
  refine ⟨le_antisymm (by omega) ?_, hrL⟩
  rw [abs_of_pos hqpos, ← Int.zpow_le_iff_le_log hb hqpos]
  have hdown : (b : ℚ) ^ (Int.log b |r| - 1) * b = r := by
    rw [← zpow_add_one₀ hbpos.ne', show Int.log b |r| - 1 + 1 = Int.log b |r| by omega, ← hrL]
  have hpow : (0 : ℚ) < (b : ℚ) ^ (Int.log b |r| - 1) := zpow_pos hbpos _
  have hmul := mul_le_mul_of_nonneg_left (zpow_neg_le hb hp) hpos.le
  have hgt := (abs_lt.1 h).1
  have hbase := mul_le_mul_of_nonneg_left hb2 hpow.le
  linarith

include hb hp hr hpos h in
theorem le_log_of_close : Int.log b |q| ≤ Int.log b |r| := by
  have hbpos := base_pos hb
  have hqpos := pos_of_close hb hp hpos h
  have hclose := (abs_lt.1 (close_unit hb hpos h)).2
  by_contra hgt
  obtain ⟨m, hm⟩ := hr.multiple hb hp
  obtain ⟨j, hj⟩ := exists_zpow_eq hb
    (show lastDigit b p r ≤ Int.log b |r| + 1 by unfold lastDigit; omega)
  -- the next power of the base is a full unit away
  have hgap := multiple_add_le (zpow_pos hbpos _) hm hj (log_bounds hb hpos).2
  have hqL : (b : ℚ) ^ (Int.log b |r| + 1) ≤ q :=
    (zpow_le_zpow_right₀ (by exact_mod_cast hb.le) (by omega)).trans (log_bounds hb hqpos).1
  have hUpos : (0 : ℚ) < (b : ℚ) ^ lastDigit b p r := zpow_pos hbpos _
  linarith

include hb hp hr hpos h in
/-- Values close to a positive representable one are rounded to it. -/
theorem roundDigits_eq_of_close_pos : roundDigits b p q = r := by
  have hbpos := base_pos hb
  rcases (le_log_of_close hb hp hr hpos h).lt_or_eq with hlt | heq
  · obtain ⟨hlog, hrL⟩ := lower_of_close hb hp hr hpos h hlt
    have hunit : (b : ℚ) ^ lastDigit b p q = r * (b : ℚ) ^ (-(p : ℤ)) := by
      rw [show lastDigit b p q = Int.log b |r| + -(p : ℤ) by unfold lastDigit; omega,
        zpow_add₀ hbpos.ne', ← hrL]
    have hmultiple : r = ((b ^ p : ℤ) : ℚ) * (b : ℚ) ^ lastDigit b p q := by
      rw [hunit, zpow_neg, zpow_natCast]
      push_cast
      field_simp
    rw [← hunit, hmultiple] at h
    rw [roundDigits_of_near hb h]
    exact hmultiple.symm
  · have hclose := close_unit hb hpos h
    obtain ⟨m, hm⟩ := hr.multiple hb hp
    have hlast : lastDigit b p q = lastDigit b p r := by
      unfold lastDigit
      omega
    rw [← hlast] at hclose hm
    rw [hm] at hclose
    rw [roundDigits_of_near hb hclose]
    exact hm.symm

end Close

/-- **Values close to a representable one are rounded to it.** -/
theorem roundDigits_eq_of_close (hb : 1 < b) (hp : 0 < p) {r : ℚ} (hr : Representable b p r)
    (h : |q - r| < |r| * (b : ℚ) ^ (-(p : ℤ)) / 2) : roundDigits b p q = r := by
  rcases lt_trichotomy r 0 with hneg | rfl | hpos
  · have hclose : |-q - -r| < -r * (b : ℚ) ^ (-(p : ℤ)) / 2 := by
      have hdist : |-q - -r| = |q - r| := by rw [neg_sub_neg, abs_sub_comm]
      rwa [hdist, ← abs_of_neg hneg]
    have hround := roundDigits_eq_of_close_pos hb hp hr.neg (by linarith) hclose
    rw [roundDigits_neg] at hround
    linarith
  · simp only [abs_zero, zero_mul, zero_div] at h
    exact absurd h (not_lt.2 (abs_nonneg _))
  · rw [abs_of_pos hpos] at h
    exact roundDigits_eq_of_close_pos hb hp hr hpos h

end Digits

end Rounding
