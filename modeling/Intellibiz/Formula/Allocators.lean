import Intellibiz.Finance.Allocate
import Intellibiz.Finance.Numbers
import Intellibiz.Formula.Allocate
import Intellibiz.Formula.Fallback

/-!
# The three allocators

The engine, its fallback and `Money` each split an amount by ratios.  The engine rounds the quotas
toward zero, the other two round them down.

* `SafeIntegers` — the integers on the way of the fallback.
* `Agree` — the three return the same shares.

Principal results: `formulaAllocate_eq` and `moneyAllocate_eq` (the shares of the fallback and of
`Money`), `allocators_agree_iff`.
-/

namespace Intellibiz.Formula

open Finance Rounding MachineInt Apportion

/-- The products and the sum of the quotas are below `2 ^ 53`. -/
structure SafeIntegers (minor : ℤ) (ratios : List ℕ) : Prop where
  amount : |minor| < 2 ^ 53
  total : ratios.sum < 2 ^ 53
  products : ∀ r ∈ ratios, |minor * r| < 2 ^ 53
  allocated : |(ratios.map (floorQuota minor ratios.sum)).sum| < 2 ^ 53

/-- The same shares, in minor units, of an amount and of the `Money` of it. -/
def Agree (p : Profile) (minor : Int64) (m : Money) (ratios : List UInt32) : Prop :=
  ∃ shares : List Int64, allocate p minor ratios = some (.ok shares) ∧
    Fallback.formulaAllocate double minor.toInt (nats ratios) =
      some (shares.map fun share => (share.toInt : ℚ)) ∧
    (m.allocate (nats ratios)).map (fun parts => parts.map Money.toMinorUnits) =
      .ok (shares.map fun share => (share.toInt : ℚ))

section Quotas

variable {minor : ℤ} {ratios : List ℕ}

theorem sameSign_floor (n : ℤ) {R : ℕ} (hR : 0 < R) (r : ℕ) : SameSign n (floorQuota n R r) := by
  have hRpos : (0 : ℤ) < R := by exact_mod_cast hR
  unfold floorQuota
  constructor
  · intro hn
    exact Int.ediv_nonneg (by positivity) hRpos.le
  · intro hn
    have hprod : n * (r : ℤ) ≤ 0 := Int.mul_nonpos_of_nonpos_of_nonneg hn (Int.natCast_nonneg r)
    have hdiv := Int.ediv_le_ediv hRpos hprod
    rwa [Int.zero_ediv] at hdiv

theorem sameSign_floors {n : ℤ} {R : ℕ} (hR : 0 < R) (weights : List ℕ) :
    SameSign n (weights.map (floorQuota n R)).sum := by
  apply SameSign.sum
  intro k hk
  obtain ⟨r, -, rfl⟩ := List.mem_map.1 hk
  exact sameSign_floor n hR r

/-- Sums of integers of one sign are exact where the whole sum is. -/
theorem foldl_double_int {n a : ℤ} {ns : List ℤ} (ha : SameSign n a) (hns : ∀ k ∈ ns, SameSign n k)
    (h : |a + ns.sum| ≤ 2 ^ 53) :
    (ns.map ((↑) : ℤ → ℚ)).foldl (fun a b => double (a + b)) (a : ℚ) = ((a + ns.sum : ℤ) : ℚ) := by
  induction ns generalizing a with
  | nil => simp
  | cons k ns ih =>
    have hk := hns k (by simp)
    have hrest := SameSign.sum fun k' hk' => hns k' (List.mem_cons_of_mem k hk')
    rw [List.sum_cons, ← add_assoc] at h ⊢
    have hpart : |a + k| ≤ 2 ^ 53 := ((ha.add hk).abs_le hrest).trans h
    have hsum : double ((a : ℚ) + k) = ((a + k : ℤ) : ℚ) := by
      rw [← Int.cast_add]
      exact double_int hpart
    rw [List.map_cons, List.foldl_cons, hsum]
    exact ih (ha.add hk) (fun k' hk' => hns k' (by simp [hk'])) h

/-- The quotas rounded down do not exceed the amount. -/
theorem sum_floor_le (hpos : 0 < ratios.sum) :
    (ratios.map (floorQuota minor ratios.sum)).sum ≤ minor := by
  have hquotas : List.Forall₂ (Quota 0 minor ratios.sum) ratios
      (ratios.map (floorQuota minor ratios.sum)) := by
    rw [List.forall₂_map_right_iff]
    exact List.forall₂_same.2 fun r _ => floorQuota_quota hpos
  exact sum_le_total hpos (by norm_num) hquotas rfl

end Quotas

/-! ## The fallback -/

section Fallback

variable {minor : ℤ} {ratios : List ℕ}

/-- What the quotas leave is a safe integer. -/
theorem abs_rest_floor_le (hpos : 0 < ratios.sum) (h : SafeIntegers minor ratios) :
    |minor - (ratios.map (floorQuota minor ratios.sum)).sum| ≤ 2 ^ 53 := by
  have hsign := sameSign_floors (n := minor) hpos ratios
  have hle := @sum_floor_le minor ratios hpos
  have hminor := abs_lt.1 h.amount
  have hallocated := abs_lt.1 h.allocated
  rw [abs_le]
  rcases le_total 0 minor with hn | hn
  · have hnonneg := hsign.1 hn
    omega
  · omega

/-- So is the first share. -/
theorem abs_first_floor_le {r : ℕ} (hpos : 0 < (r :: ratios).sum)
    (h : SafeIntegers minor (r :: ratios)) :
    |floorQuota minor (r :: ratios).sum r +
      (minor - ((r :: ratios).map (floorQuota minor (r :: ratios).sum)).sum)| ≤ 2 ^ 53 := by
  have hfirst := sameSign_floor minor hpos r
  have hrest := sameSign_floors (n := minor) hpos ratios
  have hle := @sum_floor_le minor (r :: ratios) hpos
  have hminor := abs_lt.1 h.amount
  have hallocated := abs_lt.1 h.allocated
  have hsum : ((r :: ratios).map (floorQuota minor (r :: ratios).sum)).sum =
      floorQuota minor (r :: ratios).sum r +
        (ratios.map (floorQuota minor (r :: ratios).sum)).sum := by
    rw [List.map_cons, List.sum_cons]
  rw [hsum] at hallocated hle ⊢
  rw [abs_le]
  rcases le_total 0 minor with hn | hn
  · have hfirst' := hfirst.1 hn
    have hrest' := hrest.1 hn
    omega
  · have hfirst' := hfirst.2 hn
    have hrest' := hrest.2 hn
    omega

/-- **The shares of the fallback.** -/
theorem formulaAllocate_eq (hpos : 0 < ratios.sum) (h : SafeIntegers minor ratios) :
    Fallback.formulaAllocate double minor ratios =
      some ((shares minor (ratios.map (floorQuota minor ratios.sum))).map (↑)) := by
  have htotal : ratios.foldl (fun (a : ℚ) (b : ℕ) => double (a + b)) 0 = (ratios.sum : ℕ) :=
    totalRatio_eq h.total.le
  have hne : ((ratios.sum : ℕ) : ℚ) ≠ 0 := by exact_mod_cast hpos.ne'
  have hresult : ratios.map (fun (r : ℕ) => (⌊double (double (minor * r) / (ratios.sum : ℕ))⌋ : ℚ)) =
      (ratios.map (floorQuota minor ratios.sum)).map (↑) := by
    rw [List.map_map]
    refine List.map_congr_left fun r hr => ?_
    have hfloor := @floor_rounded_quotient minor ratios.sum r double (2 ^ 53) (by positivity)
      (fun k hk => double_int (by exact_mod_cast hk))
      (fun q => (abs_double_sub_le q).trans_eq (by norm_num)) hpos
      (by exact_mod_cast h.products r hr)
    rw [Function.comp_apply, hfloor]
  have hfold := @foldl_double_int minor 0 (ratios.map (floorQuota minor ratios.sum))
    ⟨fun _ => le_rfl, fun _ => le_rfl⟩
    (fun k hk => by
      obtain ⟨r, -, rfl⟩ := List.mem_map.1 hk
      exact sameSign_floor minor hpos r)
    (by rw [zero_add]; exact h.allocated.le)
  rw [Int.cast_zero, zero_add] at hfold
  have hremainder : double ((minor : ℚ) - ((ratios.map (floorQuota minor ratios.sum)).sum : ℤ)) =
      ((minor - (ratios.map (floorQuota minor ratios.sum)).sum : ℤ) : ℚ) := by
    rw [← Int.cast_sub]
    exact double_int (abs_rest_floor_le hpos h)
  unfold Fallback.formulaAllocate
  simp only [htotal, hresult, hfold, hremainder]
  cases ratios with
  | nil => simp at hpos
  | cons r ratios =>
    have hshare := abs_first_floor_le hpos h
    simp only [List.map_cons, if_neg hne, shares, Apportion.addToFirst] at hshare ⊢
    rw [← Int.cast_add]
    exact congrArg (fun x => some (x :: _)) (double_int hshare)

end Fallback

/-! ## `Money` -/

section Money

variable {minor : ℤ} {ratios : List ℕ} {m : Money}

/-- **The shares of an allocation of `Money`**, in minor units. -/
theorem moneyAllocate_eq (hm : m.amount = minor / m.factor) (hpos : 0 < ratios.sum)
    (h : SafeIntegers minor ratios) :
    (m.allocate ratios).map (fun parts => parts.map Money.toMinorUnits) =
      .ok ((shares minor (ratios.map (floorQuota minor ratios.sum))).map (↑)) := by
  have hminor : |minor| ≤ 10 ^ PRECISION := h.amount.le.trans (by norm_num [PRECISION])
  have hscaled : m.scaled = minor := by
    rw [Money.scaled, hm, div_mul_cancel₀ _ (factor_pos m).ne', decimal_int hminor]
  have hsafe : Safe m ratios := by
    refine ⟨?_, h.total.le⟩
    rw [hscaled]
    have hle : |minor| ≤ 2 ^ 53 - 1 := Int.le_sub_one_of_lt h.amount
    exact_mod_cast hle
  have hfloor : ⌊m.scaled⌋ = minor := by rw [hscaled, Int.floor_intCast]
  have hquotas : quotas m ratios = ratios.map (floorQuota minor ratios.sum) := by
    unfold quotas
    rw [hfloor]
    refine List.map_congr_left fun r hr => ?_
    unfold allocation
    rw [totalRatio_eq h.total.le]
    refine @floor_rounded_quotient minor ratios.sum r decimal (2 ^ 53) (by positivity)
      (fun k hk => decimal_int ?_) (fun q => (abs_decimal_sub_le q).trans ?_) hpos
      (by exact_mod_cast h.products r hr)
    · have hk' : |k| ≤ 2 ^ 53 := by exact_mod_cast hk
      exact hk'.trans (by norm_num [PRECISION])
    · have hnonneg := abs_nonneg q
      push_cast
      linarith
  have hunits := map_toMinorUnits hsafe hpos
  rw [Finance.allocate_eq hsafe hpos, Except.map, hunits, hfloor, hquotas]

end Money

/-- **The three allocators agree exactly on an amount that is not negative, or of which every ratio
has a whole share.** -/
theorem allocators_agree_iff (p : Profile) (minor : Int64) (m : Money) (ratios : List UInt32)
    (hm : m.amount = minor.toInt / m.factor) (hpos : 0 < (nats ratios).sum)
    (hnative : NoOverflow minor.toInt (nats ratios))
    (hsafe : SafeIntegers minor.toInt (nats ratios)) :
    Agree p minor m ratios ↔
      0 ≤ minor.toInt ∨ ∀ r ∈ nats ratios, ((nats ratios).sum : ℤ) ∣ minor.toInt * r := by
  obtain ⟨native, hnative, hints⟩ := allocate_eq (p := p) hpos hnative
  rw [← shares_trunc_eq_iff hpos rfl, ← hints]
  unfold Agree
  rw [formulaAllocate_eq hpos hsafe, moneyAllocate_eq hm hpos hsafe, hnative]
  have hcast : ∀ shares : List Int64, shares.map (fun share => (share.toInt : ℚ)) =
      (shares.map Int64.toInt).map (↑) := fun shares => by rw [List.map_map]; rfl
  constructor
  · rintro ⟨shares, hshares, hfallback, -⟩
    cases hshares
    rw [hcast] at hfallback
    exact (List.map_injective_iff.2 Int.cast_injective (Option.some.inj hfallback)).symm
  · intro heq
    rw [← heq]
    exact ⟨native, rfl, by rw [hcast], by rw [hcast]⟩

/-- A hundred cents owed, split in two. -/
theorem allocators_agree_iff_halves :
    Agree .release (-100) (money (-1) "USD") [1, 1] ↔
      0 ≤ (-100 : Int64).toInt ∨
        ∀ r ∈ nats [1, 1], ((nats [1, 1]).sum : ℤ) ∣ (-100 : Int64).toInt * r :=
  allocators_agree_iff .release (-100) (money (-1) "USD") [1, 1] (by decide +kernel) (by decide)
    ⟨by decide, by decide⟩ ⟨by decide, by decide, by decide, by decide⟩

/-- Split one to two, the engine's later share is a cent less than that of the others. -/
theorem debt_split_differs :
    (NoOverflow (-100) (nats [1, 2]) ∧ SafeIntegers (-100) (nats [1, 2])) ∧
      allocate .release (-100) [1, 2] = some (.ok [-34, -66]) ∧
      Fallback.formulaAllocate double (-100) (nats [1, 2]) = some [-33, -67] ∧
      ((money (-1) "USD").allocate (nats [1, 2])).map (fun parts => parts.map Money.toMinorUnits) =
        .ok [-33, -67] ∧
      ¬ Agree .release (-100) (money (-1) "USD") [1, 2] := by
  have hnative : allocate .release (-100) [1, 2] = some (.ok [-34, -66]) := by decide
  have hfallback : Fallback.formulaAllocate double (-100) (nats [1, 2]) = some [-33, -67] := by
    decide +kernel
  refine ⟨⟨⟨by decide, by decide⟩, by decide, by decide, by decide, by decide⟩, hnative, hfallback,
    by decide +kernel, ?_⟩
  rintro ⟨shares, hshares, hsame, -⟩
  rw [hnative] at hshares
  cases hshares
  change Fallback.formulaAllocate double (-100) (nats [1, 2]) = _ at hsame
  rw [hfallback] at hsame
  exact absurd hsame (by decide)

end Intellibiz.Formula
