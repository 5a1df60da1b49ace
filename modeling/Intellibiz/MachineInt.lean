import Mathlib.Data.List.Basic
import Mathlib.Algebra.BigOperators.Group.List.Basic
import Mathlib.Algebra.Order.BigOperators.Group.List
import Mathlib.Tactic.Linarith

/-!
# Machine integers under a build profile

An operation on machine integers whose exact result is out of range panics in a build with overflow
checks and wraps in one without them.

* `Profile.i64`, `Profile.u32` — the result of an operation, from its exact value.
* `SameSign` — zero, or of the sign of another integer.

Principal results: `i64_dev_eq_some`, `u32_dev_eq_some` (what a build with checks returns),
`sum_i64` and `sum_u32` (sums of a list, with partial sums in range).
-/

namespace MachineInt

/-- The dev profile has overflow checks, the release profile does not. -/
inductive Profile where
  | dev
  | release
  deriving DecidableEq, Repr

def InI64 (n : ℤ) : Prop := -2 ^ 63 ≤ n ∧ n < 2 ^ 63

instance (n : ℤ) : Decidable (InI64 n) := inferInstanceAs (Decidable (_ ∧ _))

theorem inI64_toInt (x : Int64) : InI64 x.toInt := ⟨x.le_toInt, x.toInt_lt⟩

theorem abs_toInt_le (x : Int64) : |x.toInt| ≤ 2 ^ 63 :=
  abs_le.2 ⟨x.le_toInt, x.toInt_lt.le⟩

/-- The result of an operation on `i64` with the exact value `n`; none is the panic. -/
def Profile.i64 (p : Profile) (n : ℤ) : Option Int64 :=
  match p with
  | .dev => if InI64 n then some (Int64.ofInt n) else none
  | .release => some (Int64.ofInt n)

/-- The result of an operation on `u32` with the exact value `n`. -/
def Profile.u32 (p : Profile) (n : ℕ) : Option UInt32 :=
  match p with
  | .dev => if n < 2 ^ 32 then some (UInt32.ofNat n) else none
  | .release => some (UInt32.ofNat n)

/-! ## Results in range -/

section InRange

variable {p : Profile}

theorem i64_eq {n : ℤ} (h : InI64 n) : p.i64 n = some (Int64.ofInt n) := by
  cases p with
  | dev => exact if_pos h
  | release => rfl

theorem toInt_ofInt {n : ℤ} (h : InI64 n) : (Int64.ofInt n).toInt = n :=
  Int64.toInt_ofInt_of_le h.1 h.2

/-- A build with checks returns the exact value or nothing. -/
theorem i64_dev_eq_some {n : ℤ} {x : Int64} (h : Profile.dev.i64 n = some x) :
    InI64 n ∧ x = Int64.ofInt n := by
  change (if InI64 n then some (Int64.ofInt n) else none) = some x at h
  split at h
  · rename_i hn
    exact ⟨hn, (Option.some.inj h).symm⟩
  · cases h

theorem u32_eq {n : ℕ} (h : n < 2 ^ 32) : p.u32 n = some (UInt32.ofNat n) := by
  cases p with
  | dev => exact if_pos h
  | release => rfl

theorem toNat_ofNat {n : ℕ} (h : n < 2 ^ 32) : (UInt32.ofNat n).toNat = n :=
  UInt32.toNat_ofNat_of_lt' h

theorem u32_dev_eq_some {n : ℕ} {x : UInt32} (h : Profile.dev.u32 n = some x) :
    n < 2 ^ 32 ∧ x = UInt32.ofNat n := by
  change (if n < 2 ^ 32 then some (UInt32.ofNat n) else none) = some x at h
  split at h
  · rename_i hn
    exact ⟨hn, (Option.some.inj h).symm⟩
  · cases h

end InRange

/-! ## Sums -/

/-- `k` is zero or has the sign of `n`. -/
def SameSign (n k : ℤ) : Prop := (0 ≤ n → 0 ≤ k) ∧ (n ≤ 0 → k ≤ 0)

section Signs

variable {n a b : ℤ}

theorem SameSign.add (ha : SameSign n a) (hb : SameSign n b) : SameSign n (a + b) :=
  ⟨fun hn => Int.add_nonneg (ha.1 hn) (hb.1 hn), fun hn => Int.add_nonpos (ha.2 hn) (hb.2 hn)⟩

theorem SameSign.sum {ks : List ℤ} (h : ∀ k ∈ ks, SameSign n k) : SameSign n ks.sum := by
  induction ks with
  | nil => exact ⟨fun _ => le_rfl, fun _ => le_rfl⟩
  | cons k ks ih =>
    rw [List.sum_cons]
    apply (h k (by simp)).add
    exact ih fun k' hk' => h k' (by simp [hk'])

/-- A partial sum of integers of one sign is between zero and the sum. -/
theorem SameSign.inI64 (ha : SameSign n a) (hb : SameSign n b) (h : InI64 (a + b)) : InI64 a := by
  unfold InI64 at h ⊢
  rcases le_total 0 n with hn | hn
  · have hnonneg := ha.1 hn
    have hrest := hb.1 hn
    omega
  · have hnonpos := ha.2 hn
    have hrest := hb.2 hn
    omega

theorem SameSign.abs_le (ha : SameSign n a) (hb : SameSign n b) : |a| ≤ |a + b| := by
  rcases le_total 0 n with hn | hn
  · exact abs_le_abs_of_nonneg (ha.1 hn) (le_add_of_nonneg_right (hb.1 hn))
  · exact abs_le_abs_of_nonpos (ha.2 hn) (add_le_of_nonpos_right (hb.2 hn))

end Signs

variable {p : Profile}

/-- `iter().sum()` of integers of one sign. -/
theorem sum_i64 {n : ℤ} {xs : List Int64} {a : Int64} (ha : SameSign n a.toInt)
    (hxs : ∀ x ∈ xs, SameSign n x.toInt)
    (h : InI64 (a.toInt + (xs.map Int64.toInt).sum)) :
    xs.foldlM (fun a x => p.i64 (a.toInt + x.toInt)) a =
      some (Int64.ofInt (a.toInt + (xs.map Int64.toInt).sum)) := by
  induction xs generalizing a with
  | nil => simp
  | cons x xs ih =>
    have hrest : SameSign n (xs.map Int64.toInt).sum := by
      apply SameSign.sum
      intro k hk
      obtain ⟨y, hy, rfl⟩ := List.mem_map.1 hk
      exact hxs y (by simp [hy])
    rw [List.map_cons, List.sum_cons, ← Int.add_assoc] at h
    have hnext := ha.add (hxs x (by simp))
    have hin : InI64 (a.toInt + x.toInt) := hnext.inI64 hrest h
    have hint := toInt_ofInt hin
    rw [← hint] at hnext h
    have htail := ih hnext (fun y hy => hxs y (by simp [hy])) h
    rw [hint] at htail
    rw [List.foldlM_cons, i64_eq hin, List.map_cons, List.sum_cons, ← Int.add_assoc]
    exact htail

theorem sum_u32 {xs : List UInt32} {a : UInt32}
    (h : a.toNat + (xs.map UInt32.toNat).sum < 2 ^ 32) :
    xs.foldlM (fun a x => p.u32 (a.toNat + x.toNat)) a =
      some (UInt32.ofNat (a.toNat + (xs.map UInt32.toNat).sum)) := by
  induction xs generalizing a with
  | nil => simp
  | cons x xs ih =>
    rw [List.map_cons, List.sum_cons] at h
    have hin : a.toNat + x.toNat < 2 ^ 32 := by omega
    have hnat := toNat_ofNat hin
    have htail := @ih (UInt32.ofNat (a.toNat + x.toNat)) (by omega)
    rw [hnat] at htail
    rw [List.foldlM_cons, u32_eq hin, List.map_cons, List.sum_cons, ← Nat.add_assoc]
    exact htail

/-- A build with checks sums only what is in range. -/
theorem sum_u32_dev {xs : List UInt32} {a s : UInt32}
    (h : xs.foldlM (fun a x => Profile.dev.u32 (a.toNat + x.toNat)) a = some s) :
    a.toNat + (xs.map UInt32.toNat).sum < 2 ^ 32 := by
  induction xs generalizing a with
  | nil => simpa using a.toNat_lt
  | cons x xs ih =>
    rw [List.foldlM_cons] at h
    obtain ⟨a', ha', hrest⟩ := Option.bind_eq_some_iff.1 h
    obtain ⟨hin, rfl⟩ := u32_dev_eq_some ha'
    have hsum := ih hrest
    rw [toNat_ofNat hin] at hsum
    rw [List.map_cons, List.sum_cons]
    omega

/-! ## Operations over a list -/

theorem mapM_eq_some {α β : Type} {f : α → Option β} {g : α → β} {l : List α}
    (h : ∀ a ∈ l, f a = some (g a)) : l.mapM f = some (l.map g) := by
  induction l with
  | nil => rfl
  | cons a l ih =>
    rw [List.mapM_cons, h a (by simp), ih fun b hb => h b (by simp [hb])]
    rfl

theorem exists_of_mapM {α β : Type} {f : α → Option β} {l : List α} {bs : List β}
    (h : l.mapM f = some bs) : ∀ a ∈ l, ∃ b, f a = some b := by
  induction l generalizing bs with
  | nil => simp
  | cons a l ih =>
    rw [List.mapM_cons] at h
    obtain ⟨b, hb, h⟩ := Option.bind_eq_some_iff.1 h
    obtain ⟨bs', hbs', -⟩ := Option.bind_eq_some_iff.1 h
    intro c hc
    rcases List.mem_cons.1 hc with rfl | hc
    · exact ⟨b, hb⟩
    · exact ih hbs' c hc

end MachineInt
