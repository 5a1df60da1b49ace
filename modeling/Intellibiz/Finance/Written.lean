import Intellibiz.Finance.Numbers

/-!
# Numbers as text

A factor reaches decimal.js as `String(x)`, the shortest decimal that is read as the number `x`.

* `candidates` — the decimals of `p` digits among which the shortest is searched.

Principal results: `written_double` (a decimal of at most 15 digits is written as it was read) and
`written_int` (so is a safe integer).
-/

namespace Intellibiz.Finance

open Rounding

/-- The nearest decimal of `p` digits, and the two around `x`. -/
def candidates (p : ℕ) (x : ℚ) : List ℚ :=
  let unit : ℚ := 10 ^ lastDigit 10 p x
  [roundDigits 10 p x, ⌊x / unit⌋ * unit, (⌊x / unit⌋ + 1) * unit]

theorem written_def (x : ℚ) :
    written x = ((List.range 17).findSome? fun p =>
      (candidates (p + 1) x).find? fun d => double d = x).getD x := rfl

theorem findSome?_eq_of_unique {α β : Type} {l : List α} {f : α → Option β} {b : β}
    (hall : ∀ a ∈ l, ∀ b', f a = some b' → b' = b) (hex : ∃ a ∈ l, f a ≠ none) :
    l.findSome? f = some b := by
  cases h : l.findSome? f with
  | none =>
    obtain ⟨a, ha, hne⟩ := hex
    exact absurd (List.findSome?_eq_none_iff.1 h a ha) hne
  | some b' =>
    obtain ⟨a, ha, hfa⟩ := List.exists_of_findSome?_eq_some h
    rw [hall a ha b' hfa]

/-- **What is written**: the only decimal of up to `K` digits that is read as the number. -/
theorem written_eq {x v : ℚ} {K p₀ : ℕ} (hK : K ≤ 17)
    (hall : ∀ p < K, ∀ c ∈ candidates (p + 1) x, double c = x → c = v)
    (hp₀ : p₀ < K) (hmem : v ∈ candidates (p₀ + 1) x) (hv : double v = x) : written x = v := by
  obtain ⟨j, hj⟩ := Nat.exists_eq_add_of_le hK
  have hfirst : (List.range K).findSome? (fun p =>
      (candidates (p + 1) x).find? fun d => double d = x) = some v := by
    apply findSome?_eq_of_unique
    · intro p hp c hc
      have hread := List.find?_some hc
      exact hall p (List.mem_range.1 hp) c (List.mem_of_find?_eq_some hc) (by simpa using hread)
    · refine ⟨p₀, List.mem_range.2 hp₀, fun hnone => ?_⟩
      have hnot := List.find?_eq_none.1 hnone v hmem
      simp [hv] at hnot
  rw [written_def, hj, List.range_add, List.findSome?_append, hfirst]
  rfl

theorem written_ne_zero {x : ℚ} (h : x ≠ 0) : written x ≠ 0 := by
  rw [written_def]
  cases hfind : (List.range 17).findSome? fun p =>
      (candidates (p + 1) x).find? fun d => double d = x with
  | none => exact h
  | some d =>
    obtain ⟨p, -, hd⟩ := List.exists_of_findSome?_eq_some hfind
    have hread : double d = x := by simpa using List.find?_some hd
    rintro rfl
    exact h (hread.symm.trans roundDigits_zero)

/-! ## Decimals of few digits -/

section Decimals

variable {p : ℕ} {x d d' : ℚ}

theorem candidates_multiple {c : ℚ} (h : c ∈ candidates p x) :
    ∃ m : ℤ, c = m * 10 ^ lastDigit 10 p x := by
  simp only [candidates, List.mem_cons, List.not_mem_nil, or_false] at h
  rcases h with rfl | rfl | rfl
  · exact ⟨_, by rw [roundDigits, Nat.cast_ofNat]⟩
  · exact ⟨_, rfl⟩
  · exact ⟨⌊x / 10 ^ lastDigit 10 p x⌋ + 1, by push_cast; rfl⟩

theorem candidates_representable {c : ℚ} (h : c ∈ candidates p x) : Representable 10 p c := by
  have hpow : (0 : ℚ) < 10 ^ lastDigit 10 p x := zpow_pos (by norm_num) _
  have hlog := Int.lt_zpow_succ_log_self (b := 10) (by decide) |x|
  have hsplit : Int.log 10 |x| + 1 = (p : ℤ) + lastDigit 10 p x := by
    unfold lastDigit
    omega
  rw [hsplit, Nat.cast_ofNat, zpow_add₀ (by norm_num), zpow_natCast, ← div_lt_iff₀ hpow] at hlog
  have hquot : |x / 10 ^ lastDigit 10 p x| < 10 ^ p := by rwa [abs_div, abs_of_pos hpow]
  rw [abs_lt] at hquot
  have hlow : -(10 : ℤ) ^ p ≤ ⌊x / 10 ^ lastDigit 10 p x⌋ := by
    apply Int.le_floor.2
    push_cast
    exact hquot.1.le
  have hhigh : ⌊x / 10 ^ lastDigit 10 p x⌋ < (10 : ℤ) ^ p := by
    apply Int.floor_lt.2
    push_cast
    exact hquot.2
  simp only [candidates, List.mem_cons, List.not_mem_nil, or_false] at h
  rcases h with rfl | rfl | rfl
  · exact representable_roundDigits (by decide) x
  · refine ⟨⌊x / 10 ^ lastDigit 10 p x⌋, lastDigit 10 p x, by norm_num, abs_le.2 ?_⟩
    push_cast
    omega
  · refine ⟨⌊x / 10 ^ lastDigit 10 p x⌋ + 1, lastDigit 10 p x, by norm_num, abs_le.2 ?_⟩
    push_cast
    omega

/-- Different decimals of at most 15 digits are different numbers. -/
theorem eq_of_double_eq (hd : Representable 10 15 d) (hd' : Representable 10 15 d')
    (h : double d = double d') : d' = d := by
  have herr := abs_double_sub_le d
  have herr' := abs_double_sub_le d'
  rw [← h] at herr'
  have htri := abs_sub_le d' (double d) d
  rw [abs_sub_comm d' (double d)] at htri
  have hsize := abs_sub_abs_le_abs_sub d' d
  by_cases hzero : d = 0
  · subst hzero
    have hnum : double (0 : ℚ) = 0 := roundDigits_zero
    rw [hnum, zero_sub, abs_neg] at herr'
    have hnonneg := abs_nonneg d'
    have hle : |d'| ≤ 0 := by linarith
    exact abs_nonpos_iff.1 hle
  · have hpos := abs_pos.2 hzero
    have hround : roundDigits 10 15 d' = d := by
      apply roundDigits_eq_of_close (by decide) (by decide) hd
      rw [zpow_neg, zpow_natCast]
      push_cast
      norm_num
      linarith
    rw [← hround]
    exact (roundDigits_eq (by decide) (by decide) hd').symm

/-- **A decimal of at most 15 digits is written as it was read.** -/
theorem written_double (h : Representable 10 15 d) : written (double d) = d := by
  refine @written_eq _ _ 15 14 (by norm_num) (fun p hp c hc hread => ?_) (by norm_num) ?_ rfl
  · have hc' := (candidates_representable hc).mono (by decide) (show p + 1 ≤ 15 by omega)
    exact eq_of_double_eq h hc' hread.symm
  · have hround : roundDigits 10 15 (double d) = d := by
      by_cases hzero : d = 0
      · simp [hzero, double]
      · have hpos := abs_pos.2 hzero
        have herr := abs_double_sub_le d
        apply roundDigits_eq_of_close (by decide) (by decide) h
        rw [zpow_neg, zpow_natCast]
        push_cast
        norm_num
        linarith
    rw [candidates, hround]
    exact List.mem_cons_self

end Decimals

/-! ## Integers -/

section Integers

variable {n : ℤ}

/-- No other integer is read as a safe one. -/
theorem int_of_double {m : ℤ} (hn : |n| < 2 ^ 53) (h : double m = n) : m = n := by
  by_cases hm : |m| ≤ 2 ^ 53
  · rw [double_int hm] at h
    exact_mod_cast h
  · exfalso
    have herr := abs_double_sub_le m
    have htri := abs_sub_abs_le_abs_sub (m : ℚ) (double m)
    rw [abs_sub_comm, h] at htri
    rw [h] at herr
    have hlarge : (2 : ℚ) ^ 53 + 1 ≤ |(m : ℚ)| := by exact_mod_cast not_le.1 hm
    have hsmall : |(n : ℚ)| ≤ 2 ^ 53 - 1 := by exact_mod_cast Int.le_sub_one_of_lt hn
    linarith

theorem log_nonneg (n : ℤ) : 0 ≤ Int.log 10 |(n : ℚ)| := by
  by_cases hzero : n = 0
  · simp [hzero]
  · have hone : (1 : ℚ) ≤ |(n : ℚ)| := by exact_mod_cast Int.one_le_abs hzero
    have hpos : (0 : ℚ) < |(n : ℚ)| := by linarith
    rw [← Int.zpow_le_iff_le_log (by decide) hpos]
    simpa using hone

/-- **A safe integer is written in full.** -/
theorem written_int (hn : |n| < 2 ^ 53) : written n = n := by
  obtain ⟨L, hL⟩ := Int.eq_ofNat_of_zero_le (log_nonneg n)
  have hL16 : L < 17 := by
    by_contra hge
    have hne : n ≠ 0 := by
      rintro rfl
      simp at hL
      omega
    have hpos : (0 : ℚ) < |(n : ℚ)| := abs_pos.2 (by exact_mod_cast hne)
    have hpow := Int.zpow_log_le_self (b := 10) (by decide) hpos
    rw [hL, zpow_natCast] at hpow
    have hten : (10 : ℚ) ^ 17 ≤ 10 ^ L := pow_le_pow_right₀ (by norm_num) (not_lt.1 hge)
    have hsmall : |(n : ℚ)| < 2 ^ 53 := by exact_mod_cast hn
    push_cast at hpow
    linarith
  refine @written_eq _ _ (L + 1) L (by omega) (fun p hp c hc hread => ?_) (by omega) ?_
    (double_int hn.le)
  · -- with at most `L + 1` digits, the candidates are integers
    obtain ⟨m, hm⟩ := candidates_multiple hc
    obtain ⟨k, hk⟩ := Int.eq_ofNat_of_zero_le
      (show 0 ≤ lastDigit 10 (p + 1) (n : ℚ) by unfold lastDigit; omega)
    rw [hk, zpow_natCast] at hm
    have hint : c = ((m * 10 ^ k : ℤ) : ℚ) := by
      rw [hm]
      push_cast
      rfl
    rw [hint] at hread ⊢
    rw [int_of_double hn hread]
  · have hlast : lastDigit 10 (L + 1) (n : ℚ) = 0 := by
      unfold lastDigit
      omega
    have hround : roundDigits 10 (L + 1) (n : ℚ) = n :=
      @roundDigits_of_multiple _ _ _ (by decide) n (by rw [hlast]; simp)
    rw [candidates, hround]
    exact List.mem_cons_self

end Integers

end Intellibiz.Finance
