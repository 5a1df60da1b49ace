import Intellibiz.Rounding

/-!
# Roundings by their thresholds

A rounding to integers changes at one point between `n` and `n + 1`; a value there goes up or down.

* `halfAway`, `truncate`, `halfUp` — half away from zero, toward zero, half up.
* `Threshold` — the points and what happens at them; `Above` — a value that rounds to more than `n`.

Principal results: `lt_halfEven_iff`, `lt_halfAway_iff`, `lt_truncate_iff`, `lt_halfUp_iff` (the
thresholds of the four roundings), `Threshold.rounds_eq_iff` (when two roundings of two values
agree), `Threshold.above_iff_of_point` (of one value, where they differ only at the ties) and
`halfEven_twice_iff` (when rounding twice is rounding once).
-/

namespace Rounding

/-! ## Roundings -/

/-- The nearest integer, the one farther from zero in a tie. -/
def halfAway (q : ℚ) : ℤ := if 0 ≤ q then ⌊q + 1 / 2⌋ else ⌈q - 1 / 2⌉

/-- The integral part. -/
def truncate (q : ℚ) : ℤ := if 0 ≤ q then ⌊q⌋ else ⌈q⌉

/-- The nearest integer, the greater one in a tie. -/
def halfUp (q : ℚ) : ℤ := ⌊q + 1 / 2⌋

@[simp] theorem halfAway_intCast (n : ℤ) : halfAway n = n := by
  unfold halfAway
  split
  · rw [Int.floor_eq_iff]
    constructor <;> linarith
  · rw [Int.ceil_eq_iff]
    constructor <;> linarith

@[simp] theorem truncate_intCast (n : ℤ) : truncate n = n := by
  unfold truncate
  split
  · exact Int.floor_intCast n
  · exact Int.ceil_intCast n

theorem abs_sub_halfAway_le (q : ℚ) : |q - halfAway q| ≤ 1 / 2 := by
  unfold halfAway
  split
  · have hle := Int.floor_le (q + 1 / 2)
    have hlt := Int.lt_floor_add_one (q + 1 / 2)
    rw [abs_le]
    constructor <;> linarith
  · have hle := Int.le_ceil (q - 1 / 2)
    have hlt := Int.ceil_lt_add_one (q - 1 / 2)
    rw [abs_le]
    constructor <;> linarith

/-- The integral part is between zero and the value. -/
theorem abs_sub_truncate_lt (q : ℚ) : |q - truncate q| < 1 := by
  unfold truncate
  split
  · have hle := Int.floor_le q
    have hlt := Int.lt_floor_add_one q
    rw [abs_lt]
    constructor <;> linarith
  · have hle := Int.le_ceil q
    have hlt := Int.ceil_lt_add_one q
    rw [abs_lt]
    constructor <;> linarith

theorem abs_truncate_le (q : ℚ) : |(truncate q : ℚ)| ≤ |q| := by
  unfold truncate
  split_ifs with hq
  · rw [abs_of_nonneg (by exact_mod_cast Int.floor_nonneg.2 hq), abs_of_nonneg hq]
    exact Int.floor_le q
  · have hneg := (not_le.1 hq).le
    have hceil : ((⌈q⌉ : ℤ) : ℚ) ≤ 0 := by exact_mod_cast Int.ceil_le.2 (by simpa using hneg)
    rw [abs_of_nonpos hceil, abs_of_nonpos hneg]
    exact neg_le_neg (Int.le_ceil q)

/-! ## Thresholds -/

/-- Between `n` and `n + 1` a rounding changes at `point n`; `up n` says that this point itself is
rounded up. -/
structure Threshold where
  point : ℤ → ℚ
  up : ℤ → Prop

/-- The value is rounded to more than `n`. -/
def Threshold.Above (t : Threshold) (n : ℤ) (q : ℚ) : Prop :=
  t.point n < q ∨ (q = t.point n ∧ t.up n)

def nearestEven : Threshold := ⟨fun n => n + 1 / 2, fun n => ¬ Even n⟩

def nearestAway : Threshold := ⟨fun n => n + 1 / 2, fun n => 0 ≤ n⟩

def nearestUp : Threshold := ⟨fun n => n + 1 / 2, fun _ => True⟩

def towardZero : Threshold := ⟨fun n => if 0 ≤ n then n + 1 else n, fun n => 0 ≤ n⟩

section Above

variable {q : ℚ} {n : ℤ}

theorem lt_halfEven_iff : n < halfEven q ↔ nearestEven.Above n q := by
  have hle := Int.floor_le q
  have hlt := Int.lt_floor_add_one q
  have hfract := Int.fract_add_floor q
  unfold halfEven
  rcases lt_trichotomy n ⌊q⌋ with h | rfl | h
  · -- the value is above `n + 1`
    have hcast : (n : ℚ) + 1 ≤ ⌊q⌋ := by exact_mod_cast h
    have habove : nearestEven.Above n q := .inl (by simp only [nearestEven]; linarith)
    simp only [habove, iff_true]
    split <;> omega
  · have hself : ⌊q⌋ < (if RoundsUp q then ⌊q⌋ + 1 else ⌊q⌋) ↔ RoundsUp q := by
      split
      · rename_i hup
        simp [hup]
      · rename_i hup
        simp [hup]
    rw [hself]
    constructor
    · rintro (hup | ⟨hup, hodd⟩)
      · exact .inl (by simp only [nearestEven]; linarith)
      · exact .inr ⟨by simp only [nearestEven]; linarith, hodd⟩
    · rintro (hup | ⟨hup, hodd⟩)
      · simp only [nearestEven] at hup
        exact .inl (by linarith)
      · simp only [nearestEven] at hup
        exact .inr ⟨by linarith, hodd⟩
  · -- the value is below `n`
    have hcast : (⌊q⌋ : ℚ) + 1 ≤ n := by exact_mod_cast h
    have hbelow : ¬ nearestEven.Above n q := by
      rintro (hup | ⟨hup, -⟩) <;> simp only [nearestEven] at hup <;> linarith
    simp only [hbelow, iff_false]
    split <;> omega

theorem lt_halfUp_iff : n < halfUp q ↔ nearestUp.Above n q := by
  have hfloor : n < halfUp q ↔ (n : ℚ) + 1 ≤ q + 1 / 2 := by
    unfold halfUp
    rw [← Int.add_one_le_iff, Int.le_floor]
    push_cast
    rfl
  rw [hfloor]
  constructor
  · intro h
    rcases (show (n : ℚ) + 1 / 2 ≤ q by linarith).lt_or_eq with hlt | heq
    · exact .inl hlt
    · exact .inr ⟨heq.symm, trivial⟩
  · rintro (h | ⟨h, -⟩) <;> simp only [nearestUp] at h <;> linarith

theorem lt_halfAway_iff : n < halfAway q ↔ nearestAway.Above n q := by
  unfold halfAway
  split
  · rename_i hq
    rw [← halfUp, lt_halfUp_iff]
    constructor
    · rintro (h | ⟨h, -⟩)
      · exact .inl h
      · refine .inr ⟨h, ?_⟩
        have hn : (-1 : ℚ) < n := by
          simp only [nearestUp] at h
          linarith
        have hn' : -1 < n := by exact_mod_cast hn
        show 0 ≤ n
        omega
    · rintro (h | ⟨h, -⟩)
      · exact .inl h
      · exact .inr ⟨h, trivial⟩
  · rename_i hq
    rw [Int.lt_ceil]
    constructor
    · intro h
      exact .inl (by simp only [nearestAway]; linarith)
    · rintro (h | ⟨h, hn⟩)
      · simp only [nearestAway] at h
        linarith
      · -- the points above zero are above a negative value
        have hn' : (0 : ℚ) ≤ n := by exact_mod_cast hn
        simp only [nearestAway] at h
        linarith

theorem lt_truncate_iff : n < truncate q ↔ towardZero.Above n q := by
  unfold truncate Threshold.Above towardZero
  split
  · rename_i hq
    rw [← Int.add_one_le_iff, Int.le_floor]
    push_cast
    by_cases hn : 0 ≤ n
    · simp only [hn, if_true, and_true]
      rw [le_iff_lt_or_eq, eq_comm]
    · have hn' : (n : ℚ) + 1 ≤ 0 := by exact_mod_cast (show n + 1 ≤ 0 by omega)
      simp only [hn, if_false, and_false, or_false]
      constructor <;> intro <;> linarith
  · rename_i hq
    rw [Int.lt_ceil]
    by_cases hn : 0 ≤ n
    · have hn' : (0 : ℚ) ≤ n := by exact_mod_cast hn
      simp only [hn, if_true, and_true]
      constructor
      · intro h
        linarith
      · rintro (h | h) <;> linarith
    · simp [hn]

/-- A value is rounded to at most an even integer up to half a unit beyond it. -/
theorem abs_halfEven_le_iff {m : ℤ} (hm : Even m) : |halfEven q| ≤ m ↔ |q| ≤ m + 1 / 2 := by
  have habove : ∀ x : ℚ, m < halfEven x ↔ (m : ℚ) + 1 / 2 < x := by
    intro x
    rw [lt_halfEven_iff]
    unfold Threshold.Above
    simp [nearestEven, hm]
  have hbelow := habove (-q)
  rw [halfEven_neg] at hbelow
  rw [abs_le', abs_le', ← not_lt, ← not_lt, habove, hbelow, not_lt, not_lt]

end Above

/-- **When two roundings of two values agree.** -/
theorem Threshold.rounds_eq_iff {t t' : Threshold} {ρ ρ' : ℚ → ℤ}
    (h : ∀ {q n}, n < ρ q ↔ t.Above n q) (h' : ∀ {q n}, n < ρ' q ↔ t'.Above n q) {x y : ℚ} :
    ρ x = ρ' y ↔ ∀ n, t.Above n x ↔ t'.Above n y := by
  constructor
  · intro heq n
    rw [← h, heq, h']
  · intro hall
    apply eq_of_forall_lt_iff
    intro n
    rw [h, hall, ← h']

/-- Two roundings that change at the same points agree where they agree on these points. -/
theorem Threshold.above_iff_of_point {t t' : Threshold} (hpoint : t.point = t'.point) {x : ℚ} :
    (∀ n, t.Above n x ↔ t'.Above n x) ↔ ∀ n, x = t.point n → (t.up n ↔ t'.up n) := by
  unfold Threshold.Above
  rw [← hpoint]
  constructor
  · intro h n hx
    have hn := h n
    simpa [hx] using hn
  · intro h n
    by_cases hx : x = t.point n
    · simp [hx, h n hx]
    · simp [hx]

/-! ## Rounding twice -/

/-- A multiple of a power of a rounding unit, rounded to the unit. -/
theorem halfEven_of_multiple {g : ℕ} (hg : 0 < g) {y : ℚ} {k : ℤ} (h : halfEven (g * y) = g * k) :
    halfEven y = k := by
  rcases Nat.lt_or_eq_of_le (Nat.succ_le_of_lt hg) with hlarge | rfl
  · have herr := abs_sub_halfEven_le (g * y)
    have hg' : (2 : ℚ) ≤ g := by exact_mod_cast hlarge
    have hscaled : (g : ℚ) * y - halfEven (g * y) = g * (y - k) := by
      rw [h]
      push_cast
      ring
    rw [hscaled, abs_mul, abs_of_pos (by linarith)] at herr
    refine halfEven_eq_iff.2 (.inl ?_)
    nlinarith [abs_nonneg (y - k)]
  · simpa using h

/-- **Rounding to finer units first** goes wrong exactly where the finer rounding hits a tie that
the value is not, on the side to which the tie is not rounded. -/
theorem halfEven_twice_iff {w : ℕ} (hw : 0 < w) {y : ℚ} :
    halfEven ((halfEven (2 * w * y) : ℚ) / (2 * w)) = halfEven y ↔
      ∀ n : ℤ, halfEven (2 * w * y) = 2 * w * n + w → y ≠ n + 1 / 2 →
        (n + 1 / 2 < y ↔ ¬ Even n) := by
  have hpos : (0 : ℚ) < 2 * w := by positivity
  rw [Threshold.rounds_eq_iff lt_halfEven_iff lt_halfEven_iff]
  refine forall_congr' fun n => ?_
  have htie : (2 * w : ℚ) * (n + 1 / 2) = ((2 * w * n + w : ℤ) : ℚ) := by
    push_cast
    ring
  have herr := abs_le.1 (abs_sub_halfEven_le (2 * w * y))
  have hquotient : (nearestEven.point n < (halfEven (2 * w * y) : ℚ) / (2 * w) ↔
      2 * w * n + w < halfEven (2 * w * y)) ∧
      ((halfEven (2 * w * y) : ℚ) / (2 * w) = nearestEven.point n ↔
        halfEven (2 * w * y) = 2 * w * n + w) := by
    simp only [nearestEven]
    constructor
    · rw [lt_div_iff₀ hpos, mul_comm, htie]
      exact Int.cast_lt
    · rw [div_eq_iff hpos.ne', mul_comm _ (2 * (w : ℚ)), htie]
      exact Int.cast_inj
  unfold Threshold.Above
  rw [hquotient.1, hquotient.2]
  rcases lt_trichotomy (halfEven (2 * w * y)) (2 * w * n + w) with hlt | heq | hgt
  · -- both are below the tie
    have hcast : (halfEven (2 * w * y) : ℚ) + 1 ≤ ((2 * w * n + w : ℤ) : ℚ) := by
      exact_mod_cast hlt
    have hbelow : y < n + 1 / 2 := by
      rw [← htie] at hcast
      nlinarith
    simp only [nearestEven]
    constructor
    · intro _ htied
      omega
    · intro _
      constructor
      · rintro (h | ⟨h, -⟩) <;> omega
      · rintro (h | ⟨h, -⟩) <;> linarith
  · simp only [heq, lt_irrefl, false_or, true_and, nearestEven, forall_const]
    by_cases hy : y = n + 1 / 2
    · simp [hy]
    · simp only [hy, false_and, or_false, ne_eq, not_false_eq_true, forall_const]
      exact ⟨Iff.symm, Iff.symm⟩
  · have hcast : ((2 * w * n + w : ℤ) : ℚ) + 1 ≤ halfEven (2 * w * y) := by
      exact_mod_cast hgt
    have habove : n + 1 / 2 < y := by
      rw [← htie] at hcast
      nlinarith
    simp only [nearestEven]
    constructor
    · intro _ htied
      omega
    · intro _
      exact ⟨fun _ => .inl habove, fun _ => .inl hgt⟩

end Rounding
