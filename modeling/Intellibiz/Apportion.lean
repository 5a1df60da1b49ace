import Mathlib.Algebra.BigOperators.Group.List.Basic
import Mathlib.Algebra.Order.BigOperators.Group.List
import Mathlib.Algebra.Order.Ring.Rat
import Mathlib.Data.List.Forall2
import Mathlib.Data.Rat.Floor
import Mathlib.Tactic.FieldSimp
import Mathlib.Tactic.Linarith
import Mathlib.Tactic.Positivity
import Mathlib.Tactic.Ring

/-!
# Shares of an integer by weights

* `Quota` — the share of one weight, rounded down after a calculation with a small error.
* `shares` — the quotas, what they leave of the total added to the first.
* `truncQuota`, `floorQuota` — the share of one weight, rounded toward zero and rounded down.

Principal results: `sum_le_total` (the quotas do not exceed the total), `sum_abs_le` and
`abs_rest_le` (the size of the sums), `sum_shares` (the shares add up to the total),
`abs_shares_le`, `mul_rest_trunc` (what the quotas leave is the sum of the remainders),
`shares_trunc_eq_iff` (when the two roundings give the same shares) and `floor_rounded_quotient` (a
quotient calculated with rounded operations).
-/

namespace Apportion

/-- `q` is the share of the weight `r` of `R` in `n`, rounded down; the errors of all shares add up
to at most `η`. -/
structure Quota (η : ℚ) (n : ℤ) (R r : ℕ) (q : ℤ) : Prop where
  upper : (q : ℚ) * R ≤ n * r + η * r
  lower : (n : ℚ) * r ≤ q * R + η * r + (min 1 r : ℕ) * R

section Quotas

variable {η : ℚ} {n : ℤ} {R : ℕ}

theorem Quota.size_le {r : ℕ} {q : ℤ} (h : Quota η n R r q) (hR : 0 < R) (hη : 0 ≤ η)
    (hη1 : η < 1) (hr : r ≤ R) : |q| ≤ |n| + 1 := by
  have hRpos : (0 : ℚ) < R := by exact_mod_cast hR
  have hrR : (r : ℚ) ≤ R := by exact_mod_cast hr
  have hr0 : (0 : ℚ) ≤ r := by positivity
  have hmin : ((min 1 r : ℕ) : ℚ) ≤ 1 := by exact_mod_cast min_le_left 1 r
  have hupper := h.upper
  have hlower := h.lower
  have hnr := mul_le_mul_of_nonneg_left hrR (abs_nonneg (n : ℚ))
  have hpos := mul_le_mul_of_nonneg_right (le_abs_self (n : ℚ)) hr0
  have hneg := mul_le_mul_of_nonneg_right (neg_abs_le (n : ℚ)) hr0
  have hηr := mul_le_mul_of_nonneg_left hrR hη
  have hηR := mul_lt_mul_of_pos_right hη1 hRpos
  have hminR := mul_le_mul_of_nonneg_right hmin hRpos.le
  have hhigh : (q : ℚ) < |(n : ℚ)| + 2 := by
    apply lt_of_mul_lt_mul_right _ hRpos.le
    linarith
  have hlow : -(|(n : ℚ)| + 2) < q := by
    apply lt_of_mul_lt_mul_right _ hRpos.le
    linarith
  have hhigh' : q < |n| + 2 := by exact_mod_cast hhigh
  have hlow' : -(|n| + 2) < q := by exact_mod_cast hlow
  rw [abs_le]
  omega

theorem Quota.abs_mul_le {r : ℕ} {q : ℤ} (h : Quota η n R r q) (hη : 0 ≤ η) :
    |(q : ℚ)| * R ≤ (|(n : ℚ)| + η + R) * r := by
  have hupper := h.upper
  have hlower := h.lower
  have hr0 : (0 : ℚ) ≤ r := by positivity
  have hmin : ((min 1 r : ℕ) : ℚ) ≤ r := by exact_mod_cast min_le_right 1 r
  have hminR := mul_le_mul_of_nonneg_right hmin (Nat.cast_nonneg (α := ℚ) R)
  have hpos := mul_le_mul_of_nonneg_right (le_abs_self (n : ℚ)) hr0
  have hneg := mul_le_mul_of_nonneg_right (neg_abs_le (n : ℚ)) hr0
  have hηr := mul_nonneg hη hr0
  have hRr : (0 : ℚ) ≤ R * r := by positivity
  rcases abs_choice (q : ℚ) with hq | hq <;> rw [hq] <;> linarith

/-! ## Lists of weights -/

variable {weights : List ℕ} {qs : List ℤ}

theorem exists_weight (h : List.Forall₂ (Quota η n R) weights qs) {q : ℤ} (hq : q ∈ qs) :
    ∃ r ∈ weights, Quota η n R r q := by
  induction h with
  | nil => cases hq
  | @cons r q' _ _ hquota _ ih =>
    rcases List.mem_cons.1 hq with rfl | hq
    · exact ⟨r, by simp, hquota⟩
    · obtain ⟨w, hw, h⟩ := ih hq
      exact ⟨w, by simp [hw], h⟩

theorem sum_upper (h : List.Forall₂ (Quota η n R) weights qs) :
    (qs.sum : ℚ) * R ≤ n * (weights.sum : ℕ) + η * (weights.sum : ℕ) := by
  induction h with
  | nil => simp
  | cons hq _ ih =>
    have hupper := hq.upper
    simp only [List.sum_cons]
    push_cast at ih ⊢
    linarith

theorem sum_lower (h : List.Forall₂ (Quota η n R) weights qs) :
    (n : ℚ) * (weights.sum : ℕ) ≤
      qs.sum * R + η * (weights.sum : ℕ) + (weights.sum : ℕ) * R := by
  induction h with
  | nil => simp
  | @cons r q _ _ hq _ ih =>
    have hlower := hq.lower
    have hmin : ((min 1 r : ℕ) : ℚ) ≤ r := by exact_mod_cast min_le_right 1 r
    have hminR := mul_le_mul_of_nonneg_right hmin (Nat.cast_nonneg (α := ℚ) R)
    simp only [List.sum_cons]
    push_cast at ih ⊢
    linarith

theorem sum_abs_upper (h : List.Forall₂ (Quota η n R) weights qs) (hη : 0 ≤ η) :
    ((qs.map abs).sum : ℚ) * R ≤ (|(n : ℚ)| + η + R) * (weights.sum : ℕ) := by
  induction h with
  | nil => simp
  | cons hq _ ih =>
    have hmul := hq.abs_mul_le hη
    simp only [List.map_cons, List.sum_cons]
    push_cast at ih ⊢
    linarith

variable (hR : 0 < R) (hη : 0 ≤ η) (hη1 : η < 1)

include hR hη1 in
/-- **The quotas of all weights do not exceed the total.** -/
theorem sum_le_total (h : List.Forall₂ (Quota η n R) weights qs) (hsum : weights.sum = R) :
    qs.sum ≤ n := by
  have hRpos : (0 : ℚ) < R := by exact_mod_cast hR
  have hupper := sum_upper h
  rw [hsum] at hupper
  have hlt : (qs.sum : ℚ) < n + 1 := by
    apply lt_of_mul_lt_mul_right _ hRpos.le
    have hηR := mul_lt_mul_of_pos_right hη1 hRpos
    linarith
  have hlt' : qs.sum < n + 1 := by exact_mod_cast hlt
  omega

include hR hη hη1 in
theorem sum_abs_le (h : List.Forall₂ (Quota η n R) weights qs) (hsum : weights.sum = R) :
    (qs.map abs).sum ≤ |n| + R := by
  have hRpos : (0 : ℚ) < R := by exact_mod_cast hR
  have hupper := sum_abs_upper h hη
  rw [hsum] at hupper
  have hle : ((qs.map abs).sum : ℚ) ≤ |(n : ℚ)| + η + R := le_of_mul_le_mul_right hupper hRpos
  have hlt : ((qs.map abs).sum : ℚ) < |(n : ℚ)| + R + 1 := by linarith
  have hlt' : (qs.map abs).sum < |n| + R + 1 := by exact_mod_cast hlt
  omega

include hR hη hη1 in
/-- What the quotas of some of the weights leave of the total. -/
theorem abs_rest_le (h : List.Forall₂ (Quota η n R) weights qs) (hsum : weights.sum ≤ R) :
    |n - qs.sum| ≤ max |n| R := by
  have hRpos : (0 : ℚ) < R := by exact_mod_cast hR
  have hW0 : (0 : ℚ) ≤ (weights.sum : ℕ) := by positivity
  have hWR : ((weights.sum : ℕ) : ℚ) ≤ R := by exact_mod_cast hsum
  have hrest : (0 : ℚ) ≤ R - (weights.sum : ℕ) := by linarith
  have hupper := sum_upper h
  have hlower := sum_lower h
  have hηW := mul_le_mul_of_nonneg_left hWR hη
  have hηR := mul_lt_mul_of_pos_right hη1 hRpos
  have hneg := mul_le_mul_of_nonneg_right (neg_abs_le (n : ℚ)) hrest
  have hpos := mul_le_mul_of_nonneg_right (le_abs_self (n : ℚ)) hrest
  have hmaxn := mul_le_mul_of_nonneg_right (le_max_left |(n : ℚ)| R) hrest
  have hmaxR := mul_le_mul_of_nonneg_right (le_max_right |(n : ℚ)| R) hW0
  have hmaxW := mul_nonneg ((abs_nonneg _).trans (le_max_left |(n : ℚ)| R)) hW0
  have hhigh : (n : ℚ) - qs.sum < max |(n : ℚ)| R + 1 := by
    apply lt_of_mul_lt_mul_right _ hRpos.le
    linarith
  have hlow : -(max |(n : ℚ)| R + 1) < (n : ℚ) - qs.sum := by
    apply lt_of_mul_lt_mul_right _ hRpos.le
    linarith
  have hhigh' : n - qs.sum < max |n| R + 1 := by exact_mod_cast hhigh
  have hlow' : -(max |n| R + 1) < n - qs.sum := by exact_mod_cast hlow
  rw [abs_le]
  omega

/-! ## Shares -/

def addToFirst (k : ℤ) : List ℤ → List ℤ
  | [] => []
  | a :: as => (a + k) :: as

def shares (n : ℤ) (qs : List ℤ) : List ℤ := addToFirst (n - qs.sum) qs

theorem length_shares (n : ℤ) (qs : List ℤ) : (shares n qs).length = qs.length := by
  cases qs <;> rfl

/-- **The shares add up to the total.** -/
theorem sum_shares (hne : qs ≠ []) : (shares n qs).sum = n := by
  cases qs with
  | nil => exact absurd rfl hne
  | cons q qs =>
    simp only [shares, addToFirst, List.sum_cons]
    ring

include hη hη1 in
theorem abs_shares_le (h : List.Forall₂ (Quota η n weights.sum) weights qs)
    (hpos : 0 < weights.sum) : ∀ a ∈ shares n qs, |a| ≤ max (|n| + 1) weights.sum := by
  intro a ha
  cases h with
  | nil => simp [shares, addToFirst] at ha
  | @cons r q weights qs hq hqs =>
    simp only [shares, addToFirst, List.mem_cons] at ha
    rcases ha with rfl | ha
    · have hrest := abs_rest_le hpos hη hη1 hqs (by simp)
      have hfirst : q + (n - (q :: qs).sum) = n - qs.sum := by
        simp only [List.sum_cons]
        ring
      rw [hfirst]
      apply hrest.trans
      omega
    · obtain ⟨w, hw, hquota⟩ := exists_weight hqs ha
      have hle : w ≤ (r :: weights).sum := List.single_le_sum (by simp) w (by simp [hw])
      exact (hquota.size_le hpos hη hη1 hle).trans (le_max_left _ _)

end Quotas

/-! ## Quotas rounded once -/

def truncQuota (n : ℤ) (R r : ℕ) : ℤ := (n * r).tdiv R

/-- What the rounding toward zero leaves of a share, times the sum of the weights. -/
def truncRest (n : ℤ) (R r : ℕ) : ℤ := (n * r).tmod R

def floorQuota (n : ℤ) (R r : ℕ) : ℤ := n * r / R

section Rounded

variable {n : ℤ} {R r : ℕ}

theorem mul_truncQuota (n : ℤ) (R r : ℕ) : R * truncQuota n R r + truncRest n R r = n * r :=
  Int.mul_tdiv_add_tmod _ _

theorem mul_sum_trunc (n : ℤ) (R : ℕ) (weights : List ℕ) :
    R * (weights.map (truncQuota n R)).sum + (weights.map (truncRest n R)).sum =
      n * (weights.sum : ℕ) := by
  induction weights with
  | nil => simp
  | cons r weights ih =>
    have hr := mul_truncQuota n R r
    simp only [List.map_cons, List.sum_cons, Nat.cast_add]
    linarith

/-- What the quotas leave of the total, as a sum of remainders. -/
theorem mul_rest_trunc {weights : List ℕ} (hsum : weights.sum = R) :
    R * (n - (weights.map (truncQuota n R)).sum) = (weights.map (truncRest n R)).sum := by
  have hmul := mul_sum_trunc n R weights
  rw [hsum] at hmul
  linarith

theorem abs_sum_lt {ks : List ℤ} (hne : ks ≠ []) (h : ∀ k ∈ ks, |k| < R) :
    |ks.sum| < ks.length * R := by
  induction ks with
  | nil => exact absurd rfl hne
  | cons k ks ih =>
    have hk := h k (by simp)
    rw [List.sum_cons, List.length_cons]
    have htri := abs_add_le k ks.sum
    push_cast
    by_cases hks : ks = []
    · subst hks
      simpa using hk
    · have hrest := ih hks fun k' hk' => h k' (by simp [hk'])
      linarith

/-- The quotas rounded toward zero leave less than one unit for each weight. -/
theorem abs_rest_trunc_lt {weights : List ℕ} (hR : 0 < R) (hsum : weights.sum = R) :
    |n - (weights.map (truncQuota n R)).sum| < weights.length := by
  have hRpos : (0 : ℤ) < R := by exact_mod_cast hR
  have hne : weights ≠ [] := by
    rintro rfl
    simp at hsum
    omega
  have hrest := mul_rest_trunc (n := n) hsum
  have hlt : |(weights.map (truncRest n R)).sum| < weights.length * R := by
    rw [← List.length_map (truncRest n R)]
    apply abs_sum_lt (by simpa using hne)
    intro k hk
    obtain ⟨r, -, rfl⟩ := List.mem_map.1 hk
    exact abs_lt.2 ⟨Int.lt_tmod_of_pos _ hRpos, Int.tmod_lt_of_pos _ hRpos⟩
  rw [← hrest, abs_mul, abs_of_pos hRpos, mul_comm] at hlt
  exact lt_of_mul_lt_mul_right hlt hRpos.le

/-- **Rounding toward zero is rounding down**, but for a negative total that does not divide. -/
theorem truncQuota_eq_iff (hR : 0 < R) :
    truncQuota n R r = floorQuota n R r ↔ 0 ≤ n ∨ (R : ℤ) ∣ n * r := by
  have hRne : (R : ℤ).sign = 1 := Int.sign_eq_one_of_pos (by exact_mod_cast hR)
  unfold truncQuota floorQuota
  rw [Int.tdiv_eq_ediv, hRne]
  constructor
  · intro h
    by_contra hnot
    rw [not_or, not_le] at hnot
    have hneg : ¬ (0 ≤ n * (r : ℤ) ∨ (R : ℤ) ∣ n * r) := by
      rintro (hprod | hdvd)
      · rcases Nat.eq_zero_or_pos r with rfl | hr
        · exact hnot.2 (by simp)
        · have hr' : (0 : ℤ) < r := by exact_mod_cast hr
          exact absurd hprod (not_le.2 (Int.mul_neg_of_neg_of_pos hnot.1 hr'))
      · exact hnot.2 hdvd
    rw [if_neg hneg] at h
    omega
  · intro h
    rw [if_pos, add_zero]
    rcases h with hn | hdvd
    · left
      positivity
    · exact .inr hdvd

theorem dvd_mul_sum {weights : List ℕ} (h : ∀ r ∈ weights, (R : ℤ) ∣ n * r) :
    (R : ℤ) ∣ n * (weights.sum : ℕ) := by
  induction weights with
  | nil => simp
  | cons r weights ih =>
    rw [List.sum_cons, Nat.cast_add, mul_add]
    exact (h r (by simp)).add (ih fun w hw => h w (by simp [hw]))

/-- **The two roundings give the same shares** of a total that is not negative, or of which every
weight has a whole share. -/
theorem shares_trunc_eq_iff {weights : List ℕ} (hR : 0 < R) (hsum : weights.sum = R) :
    shares n (weights.map (truncQuota n R)) = shares n (weights.map (floorQuota n R)) ↔
      0 ≤ n ∨ ∀ r ∈ weights, (R : ℤ) ∣ n * r := by
  have hquota : ∀ {ws : List ℕ}, ws.map (truncQuota n R) = ws.map (floorQuota n R) ↔
      0 ≤ n ∨ ∀ r ∈ ws, (R : ℤ) ∣ n * r := by
    intro ws
    rw [List.map_inj_left]
    simp only [truncQuota_eq_iff hR, or_iff_not_imp_left]
    exact ⟨fun h hn r hr => h r hr hn, fun h r hr hn => h hn r hr⟩
  cases weights with
  | nil =>
    simp at hsum
    omega
  | cons r weights =>
    constructor
    · intro h
      -- the later shares are the quotas
      have htail := congrArg List.tail h
      simp only [List.map_cons, shares, addToFirst, List.tail_cons] at htail
      rcases hquota.1 htail with hn | hdvd
      · exact .inl hn
      · right
        have hrest := dvd_mul_sum hdvd
        have hfirst : n * (r : ℤ) = n * R - n * (weights.sum : ℕ) := by
          rw [← hsum, List.sum_cons]
          push_cast
          ring
        intro w hw
        rcases List.mem_cons.1 hw with rfl | hw
        · rw [hfirst]
          exact (Dvd.intro_left n rfl).sub hrest
        · exact hdvd w hw
    · intro h
      rw [hquota.2 h]

/-- A quotient that is less than one part in `R` off, and not at all where it is whole, is rounded
down to the quota. -/
theorem floor_eq_floorQuota {y : ℚ} (hR : 0 < R) (hclose : |y - n * r / R| < 1 / R)
    (hwhole : (R : ℤ) ∣ n * r → y = n * r / R) : ⌊y⌋ = floorQuota n R r := by
  have hRint : (0 : ℤ) < R := by exact_mod_cast hR
  have hRpos : (0 : ℚ) < R := by exact_mod_cast hR
  have hdiv : (n * r : ℚ) = R * floorQuota n R r + ((n * r % R : ℤ) : ℚ) := by
    unfold floorQuota
    exact_mod_cast (Int.mul_ediv_add_emod (n * r) R).symm
  have hquot : (n * r / R : ℚ) = floorQuota n R r + ((n * r % R : ℤ) : ℚ) / R := by
    rw [hdiv]
    field_simp
  have hlt : n * r % R < R := Int.emod_lt_of_pos _ hRint
  have hnonneg : 0 ≤ n * r % R := Int.emod_nonneg _ hRint.ne'
  rcases hnonneg.eq_or_lt with hzero | hpos
  · rw [hwhole (Int.dvd_of_emod_eq_zero hzero.symm), hquot, ← hzero, Int.cast_zero, zero_div,
      add_zero, Int.floor_intCast]
  · -- the quotient is at least one part away from the integers around it
    have hlow : 1 / R ≤ ((n * r % R : ℤ) : ℚ) / R := by
      apply div_le_div_of_nonneg_right _ hRpos.le
      exact_mod_cast hpos
    have hhigh : ((n * r % R : ℤ) : ℚ) / R ≤ 1 - 1 / R := by
      have hle : n * r % R + 1 ≤ R := hlt
      have hcast : ((n * r % R : ℤ) : ℚ) + 1 ≤ R := by exact_mod_cast hle
      rw [div_le_iff₀ hRpos, sub_mul, div_mul_cancel₀ _ hRpos.ne']
      linarith
    rw [hquot, abs_lt] at hclose
    rw [Int.floor_eq_iff]
    constructor <;> linarith

/-- **A quotient calculated with rounded operations**, that keep integers up to a bound and have a
relative error of the bound's inverse, is rounded down to the quota. -/
theorem floor_rounded_quotient {ρ : ℚ → ℚ} {B : ℕ} (hB : 0 < B)
    (hint : ∀ k : ℤ, |k| ≤ B → ρ k = k) (herr : ∀ q, |ρ q - q| ≤ |q| / B) (hR : 0 < R)
    (h : |n * r| < B) : ⌊ρ (ρ (n * r) / R)⌋ = floorQuota n R r := by
  have hRpos : (0 : ℚ) < R := by exact_mod_cast hR
  have hBpos : (0 : ℚ) < B := by exact_mod_cast hB
  have hprod : ρ ((n : ℚ) * r) = n * r := by exact_mod_cast hint (n * r) h.le
  have hcast : |(n : ℚ) * r| < B := by exact_mod_cast h
  rw [hprod]
  apply floor_eq_floorQuota hR
  · refine (herr _).trans_lt ?_
    rw [abs_div, abs_of_pos hRpos, div_div, div_lt_div_iff₀ (by positivity) hRpos]
    have hmul := mul_lt_mul_of_pos_right hcast hRpos
    linarith
  · rintro ⟨k, hk⟩
    have hquot : (n : ℚ) * r / R = k := by
      rw [div_eq_iff hRpos.ne', mul_comm (k : ℚ)]
      exact_mod_cast hk
    rw [hquot]
    apply hint
    have hone : (1 : ℤ) ≤ R := by exact_mod_cast hR
    have hle : |k| * 1 ≤ |k| * R := mul_le_mul_of_nonneg_left hone (abs_nonneg k)
    rw [hk, abs_mul, Nat.abs_cast] at h
    linarith

theorem floorQuota_quota (hR : 0 < R) : Quota 0 n R r (floorQuota n R r) := by
  have hRpos : (0 : ℤ) < R := by exact_mod_cast hR
  have hupper := Int.ediv_mul_le (n * r) hRpos.ne'
  have hlower := Int.lt_ediv_add_one_mul_self (n * r) hRpos
  unfold floorQuota
  constructor
  · rw [zero_mul, add_zero]
    exact_mod_cast hupper
  · rw [zero_mul, add_zero]
    cases r with
    | zero => simp
    | succ r =>
      have hmin : min 1 (r + 1) = 1 := by omega
      rw [hmin, ← add_mul]
      exact_mod_cast hlower.le

end Rounded

end Apportion
