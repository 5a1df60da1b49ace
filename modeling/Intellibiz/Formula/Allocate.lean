import Intellibiz.MachineInt
import Intellibiz.Formula.Engine

/-!
# The native allocation

Model of `allocate` in `crates/formula-engine/src/lib.rs`, with its machine integers: `u32` for the
sum of the ratios, `i64` for the products and sums.

* `allocate` — under a build profile; none is the panic of an overflow check.
* `Apportions` — the shares are the truncated quotas, what they leave added to the first.

Principal results: `allocate_eq` (the shares, where no operation overflows) and
`allocate_apportions_iff`.
-/

namespace Intellibiz.Formula

open MachineInt Apportion

/-- `(minor * r as i64) / total_ratio as i64`; the quotient of a positive divisor is in range. -/
def quotient (p : Profile) (minor : Int64) (totalRatio r : UInt32) : Option Int64 := do
  let product ← p.i64 (minor.toInt * r.toNat)
  p.i64 (product.toInt.tdiv totalRatio.toNat)

/-- Distribute the rounding remainder to the first bucket. -/
def distribute (p : Profile) (minor : Int64) (allocations : List Int64) : Option (List Int64) := do
  let allocatedSum ← allocations.foldlM (fun a b => p.i64 (a.toInt + b.toInt)) 0
  let remainder ← p.i64 (minor.toInt - allocatedSum.toInt)
  match allocations with
  | [] => return []
  | first :: rest => do
    let first ← p.i64 (first.toInt + remainder.toInt)
    return first :: rest

/-- `allocate(minor, ratios)` -/
def allocate (p : Profile) (minor : Int64) (ratios : List UInt32) :
    Option (Except FormulaError (List Int64)) := do
  let totalRatio ← ratios.foldlM (fun a r => p.u32 (a.toNat + r.toNat)) 0
  if totalRatio = 0 then
    return .error .invalidAllocationRatios
  let allocations ← ratios.mapM (quotient p minor totalRatio)
  let allocations ← distribute p minor allocations
  return .ok allocations

/-- One share for each ratio, `minor` in all; every share but the first is its quota, rounded toward
zero, and the first also has the remainder, of the sign of `minor` and less than one unit for each
ratio. -/
structure Apportions (minor : ℤ) (ratios : List ℕ) (shares : List ℤ) : Prop where
  length : shares.length = ratios.length
  sum : shares.sum = minor
  later : shares.tail = (ratios.map (truncQuota minor ratios.sum)).tail
  first : ∃ k, shares.head? = ((ratios.map (truncQuota minor ratios.sum)).head?.map (· + k)) ∧
    SameSign minor k ∧ |k| < ratios.length

/-- Every product and the sum of the ratios are in range. -/
structure NoOverflow (minor : ℤ) (ratios : List ℕ) : Prop where
  total : ratios.sum < 2 ^ 32
  products : ∀ r ∈ ratios, InI64 (minor * r)

/-! ## Signs and ranges -/

section Quotas

variable {n : ℤ} {R : ℕ}

theorem sameSign_tdiv (n : ℤ) (R r : ℕ) : SameSign n (truncQuota n R r) := by
  unfold truncQuota
  constructor
  · intro hn
    exact Int.tdiv_nonneg (by positivity) (by positivity)
  · intro hn
    have hneg : 0 ≤ (-(n * r)).tdiv (R : ℤ) := by
      apply Int.tdiv_nonneg _ (by positivity)
      have hprod := Int.mul_nonpos_of_nonpos_of_nonneg hn (Int.natCast_nonneg r)
      omega
    rw [Int.neg_tdiv] at hneg
    omega

theorem sameSign_rest {weights : List ℕ} (hR : 0 < R) (hsum : weights.sum = R) :
    SameSign n (n - (weights.map (truncQuota n R)).sum) := by
  have hRpos : (0 : ℤ) < R := by exact_mod_cast hR
  have hrest := mul_rest_trunc (n := n) hsum
  have hsign : SameSign n (weights.map (truncRest n R)).sum := by
    apply SameSign.sum
    intro k hk
    obtain ⟨r, -, rfl⟩ := List.mem_map.1 hk
    unfold truncRest
    constructor
    · intro hn
      exact Int.tmod_nonneg _ (by positivity)
    · intro hn
      have hneg : 0 ≤ (-(n * r)).tmod (R : ℤ) := by
        apply Int.tmod_nonneg
        have hprod := Int.mul_nonpos_of_nonpos_of_nonneg hn (Int.natCast_nonneg r)
        omega
      rw [Int.neg_tmod] at hneg
      omega
  rw [← hrest] at hsign
  constructor
  · intro hn
    exact nonneg_of_mul_nonneg_right (hsign.1 hn) hRpos
  · intro hn
    exact nonpos_of_mul_nonpos_right (hsign.2 hn) hRpos

/-- A quotient is in range where the dividend is. -/
theorem inI64_tdiv {a : ℤ} (h : InI64 a) (R : ℕ) : InI64 (a.tdiv R) := by
  have habs := Int.natAbs_tdiv_le_natAbs a R
  obtain ⟨hnonneg, hnonpos⟩ := sameSign_tdiv a R 1
  unfold truncQuota at hnonneg hnonpos
  rw [Nat.cast_one, mul_one] at hnonneg hnonpos
  unfold InI64 at h ⊢
  omega

end Quotas

/-! ## The shares -/

section Shares

variable {minor : Int64} {ratios : List UInt32}

/-- The ratios as numbers. -/
abbrev nats (ratios : List UInt32) : List ℕ := ratios.map UInt32.toNat

theorem quotient_eq {p : Profile} {total r : UInt32} (h : InI64 (minor.toInt * r.toNat)) :
    quotient p minor total r =
      some (Int64.ofInt (truncQuota minor.toInt total.toNat r.toNat)) := by
  unfold quotient
  rw [i64_eq h, Option.bind_eq_bind, Option.bind_some, toInt_ofInt h]
  exact i64_eq (inI64_tdiv h _)

/-- The sum and the remainder of the quotas are in range, and so is the first share. -/
theorem distribute_eq {p : Profile} {xs : List Int64}
    (hxs : ∀ x ∈ xs, SameSign minor.toInt x.toInt)
    (hrest : SameSign minor.toInt (minor.toInt - (xs.map Int64.toInt).sum)) :
    ∃ shares, distribute p minor xs = some shares ∧
      shares.map Int64.toInt = Apportion.shares minor.toInt (xs.map Int64.toInt) := by
  have hsums : ∀ ys : List Int64, (∀ x ∈ ys, SameSign minor.toInt x.toInt) →
      SameSign minor.toInt (ys.map Int64.toInt).sum := by
    intro ys hys
    apply SameSign.sum
    intro k hk
    obtain ⟨x, hx, rfl⟩ := List.mem_map.1 hk
    exact hys x hx
  have hminor := inI64_toInt minor
  have hsum := hsums xs hxs
  have hsumin : InI64 (xs.map Int64.toInt).sum := by
    apply hsum.inI64 hrest
    rwa [add_sub_cancel]
  have hrestin : InI64 (minor.toInt - (xs.map Int64.toInt).sum) := by
    apply hrest.inI64 hsum
    rwa [sub_add_cancel]
  have hzero : (0 : Int64).toInt = 0 := rfl
  have hfold := @sum_i64 p minor.toInt xs 0 ⟨fun _ => hzero.ge, fun _ => hzero.le⟩ hxs
    (by rwa [hzero, zero_add])
  rw [hzero, zero_add] at hfold
  unfold distribute
  rw [hfold, Option.bind_eq_bind, Option.bind_some, toInt_ofInt hsumin, i64_eq hrestin,
    Option.bind_some]
  cases xs with
  | nil => exact ⟨[], rfl, rfl⟩
  | cons x xs =>
    have htail := hsums xs fun y hy => hxs y (by simp [hy])
    have hfirst : SameSign minor.toInt
        (x.toInt + (minor.toInt - ((x :: xs).map Int64.toInt).sum)) := (hxs x (by simp)).add hrest
    have hfirstin : InI64 (x.toInt + (minor.toInt - ((x :: xs).map Int64.toInt).sum)) := by
      apply hfirst.inI64 htail
      have hall : x.toInt + (minor.toInt - ((x :: xs).map Int64.toInt).sum) +
          (xs.map Int64.toInt).sum = minor.toInt := by
        simp only [List.map_cons, List.sum_cons]
        ring
      rwa [hall]
    refine ⟨Int64.ofInt (x.toInt + (minor.toInt - ((x :: xs).map Int64.toInt).sum)) :: xs, ?_, ?_⟩
    · simp only [toInt_ofInt hrestin, i64_eq hfirstin]
      rfl
    · rw [List.map_cons, toInt_ofInt hfirstin]
      rfl

/-- **The shares, where no operation overflows**, in either build. -/
theorem allocate_eq {p : Profile} (hpos : 0 < (nats ratios).sum)
    (h : NoOverflow minor.toInt (nats ratios)) :
    ∃ shares, allocate p minor ratios = some (.ok shares) ∧
      shares.map Int64.toInt = Apportion.shares minor.toInt
        ((nats ratios).map (truncQuota minor.toInt (nats ratios).sum)) := by
  set R := (nats ratios).sum with hR
  have htotal : ratios.foldlM (fun a r => p.u32 (a.toNat + r.toNat)) 0 = some (UInt32.ofNat R) := by
    have hsum := @sum_u32 p ratios 0 (by simpa using h.total)
    simpa using hsum
  have hRnat : (UInt32.ofNat R).toNat = R := toNat_ofNat h.total
  have hne : UInt32.ofNat R ≠ 0 := by
    intro hzero
    rw [hzero] at hRnat
    simp at hRnat
    omega
  have hproduct : ∀ r ∈ ratios, InI64 (minor.toInt * r.toNat) := fun r hr =>
    h.products _ (List.mem_map_of_mem hr)
  have hallocations : ratios.mapM (quotient p minor (UInt32.ofNat R)) =
      some (ratios.map fun r => Int64.ofInt (truncQuota minor.toInt R r.toNat)) := by
    apply mapM_eq_some
    intro r hr
    rw [quotient_eq (hproduct r hr), hRnat]
  set allocations := ratios.map fun r => Int64.ofInt (truncQuota minor.toInt R r.toNat)
    with hdef
  have hints : allocations.map Int64.toInt = (nats ratios).map (truncQuota minor.toInt R) := by
    rw [hdef, nats, List.map_map, List.map_map]
    apply List.map_congr_left
    intro r hr
    exact toInt_ofInt (inI64_tdiv (hproduct r hr) R)
  have hsign : ∀ x ∈ allocations, SameSign minor.toInt x.toInt := by
    intro x hx
    have hmem : x.toInt ∈ (nats ratios).map (truncQuota minor.toInt R) := by
      rw [← hints]
      exact List.mem_map_of_mem hx
    obtain ⟨r, -, hr⟩ := List.mem_map.1 hmem
    rw [← hr]
    exact sameSign_tdiv _ _ _
  have hrest : SameSign minor.toInt (minor.toInt - (allocations.map Int64.toInt).sum) := by
    rw [hints]
    exact sameSign_rest hpos hR.symm
  obtain ⟨shares, hshares, hints'⟩ := distribute_eq (p := p) hsign hrest
  rw [← hints]
  refine ⟨shares, ?_, hints'⟩
  unfold allocate
  rw [htotal]
  simp only [Option.bind_eq_bind, Option.bind_some, if_neg hne, hallocations, hshares]
  rfl

/-- What a build with overflow checks does not panic at. -/
theorem noOverflow_of_dev {result : Except FormulaError (List Int64)}
    (h : allocate .dev minor ratios = some result) (hpos : 0 < (nats ratios).sum) :
    NoOverflow minor.toInt (nats ratios) := by
  unfold allocate at h
  obtain ⟨total, htotal, h⟩ := Option.bind_eq_some_iff.1 h
  have hsum := sum_u32_dev htotal
  have hzero : (0 : UInt32).toNat = 0 := rfl
  rw [hzero, Nat.zero_add] at hsum
  refine ⟨hsum, ?_⟩
  split at h
  · rename_i hnone
    have hfold := @sum_u32 .dev ratios 0 (by rwa [hzero, Nat.zero_add])
    rw [htotal, hzero, Nat.zero_add, hnone] at hfold
    have hnat := congrArg UInt32.toNat (Option.some.inj hfold)
    rw [toNat_ofNat hsum, hzero] at hnat
    exact absurd hnat.symm hpos.ne'
  · obtain ⟨quotients, hquotients, -⟩ := Option.bind_eq_some_iff.1 h
    intro r hr
    obtain ⟨x, hx, rfl⟩ := List.mem_map.1 hr
    obtain ⟨q, hq⟩ := exists_of_mapM hquotients x hx
    obtain ⟨product, hproduct, -⟩ := Option.bind_eq_some_iff.1 hq
    exact (i64_dev_eq_some hproduct).1

end Shares

theorem apportions_shares {minor : ℤ} {ratios : List ℕ} (hpos : 0 < ratios.sum) :
    Apportions minor ratios (shares minor (ratios.map (truncQuota minor ratios.sum))) := by
  have hlength := length_shares minor (ratios.map (truncQuota minor ratios.sum))
  rw [List.length_map] at hlength
  cases ratios with
  | nil => simp at hpos
  | cons r ratios =>
    exact ⟨hlength, sum_shares (by simp), rfl, _, rfl, sameSign_rest hpos rfl,
      abs_rest_trunc_lt hpos rfl⟩

/-- **The allocation of every input is right, in every build, exactly if no product and not the sum
of the ratios overflows.** -/
theorem allocate_apportions_iff (minor : Int64) (ratios : List UInt32)
    (hpos : 0 < (nats ratios).sum) :
    (∀ p, ∃ shares, allocate p minor ratios = some (.ok shares) ∧
        Apportions minor.toInt (nats ratios) (shares.map Int64.toInt)) ↔
      NoOverflow minor.toInt (nats ratios) := by
  constructor
  · intro h
    obtain ⟨shares, hshares, -⟩ := h .dev
    exact noOverflow_of_dev hshares hpos
  · intro h p
    obtain ⟨shares, hshares, hints⟩ := allocate_eq (p := p) hpos h
    refine ⟨shares, hshares, ?_⟩
    rw [hints]
    exact apportions_shares hpos

/-- Ten cents owed, split in three. -/
theorem allocate_apportions_iff_thirds :
    (∀ p, ∃ shares, allocate p (-10) [1, 1, 1] = some (.ok shares) ∧
        Apportions (-10) [1, 1, 1] (shares.map Int64.toInt)) ↔ NoOverflow (-10) [1, 1, 1] :=
  allocate_apportions_iff (-10) [1, 1, 1] (by decide)

/-- Two equal ratios whose sum wraps to zero are refused, or panic; with one more unit the wrapped
sum is one, and the shares are a multiple of what there is to split. -/
theorem equalHalves_not_apportioned :
    (0 < (nats [2147483648, 2147483648]).sum ∧
        ¬ ∀ p, ∃ shares, allocate p 100 [2147483648, 2147483648] = some (.ok shares) ∧
          Apportions 100 (nats [2147483648, 2147483648]) (shares.map Int64.toInt)) ∧
      allocate .dev 100 [2147483648, 2147483648] = none ∧
      allocate .release 100 [2147483648, 2147483648] = some (.error .invalidAllocationRatios) ∧
      allocate .release 100 [2147483648, 2147483648, 1] =
        some (.ok [-214748364800, 214748364800, 100]) := by
  have hpanic : allocate .dev 100 [2147483648, 2147483648] = none := by decide
  refine ⟨⟨by decide, fun h => ?_⟩, hpanic, by decide, by decide⟩
  obtain ⟨shares, hshares, -⟩ := h .dev
  rw [hpanic] at hshares
  cases hshares

end Intellibiz.Formula
