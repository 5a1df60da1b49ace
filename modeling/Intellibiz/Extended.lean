import Mathlib.Data.Rat.Floor

/-!
# Numbers with infinities and NaN

* `Extended` — a finite number, an infinity or NaN, and the comparison `<` of them.
* `Format` — how a result is rounded, and which rounded results are infinite.
* `Format.Fits`, `Format.SumFits` — results, and sums, that stay finite.

Principal results: `result_isFinite` (a result that fits), `mul_not_finite` (a product with an
operand that is not finite) and `foldl_add` (sums).
-/

inductive Extended where
  | finite (q : ℚ)
  | infinity (negative : Bool)
  | nan
  deriving DecidableEq, Repr

namespace Extended

def IsFinite (v : Extended) : Prop := ∃ q, v = .finite q

def isNegative : Extended → Bool
  | .finite q => q < 0
  | .infinity negative => negative
  | .nan => false

def neg : Extended → Extended
  | .finite q => .finite (-q)
  | .infinity negative => .infinity !negative
  | .nan => .nan

/-- A function of the finite numbers; the others are kept. -/
def map (f : ℚ → ℚ) : Extended → Extended
  | .finite q => .finite (f q)
  | .infinity negative => .infinity negative
  | .nan => .nan

def abs : Extended → Extended
  | .finite q => .finite |q|
  | .infinity _ => .infinity false
  | .nan => .nan

/-- Greater than zero. -/
def isPositive : Extended → Bool
  | .finite q => 0 < q
  | .infinity negative => !negative
  | .nan => false

@[simp] theorem map_finite (f : ℚ → ℚ) (q : ℚ) : (finite q).map f = finite (f q) := rfl

@[simp] theorem isFinite_finite (q : ℚ) : (finite q).IsFinite := ⟨q, rfl⟩

@[simp] theorem not_isFinite_infinity (negative : Bool) : ¬ (infinity negative).IsFinite := by
  rintro ⟨q, hq⟩
  cases hq

@[simp] theorem not_isFinite_nan : ¬ nan.IsFinite := by
  rintro ⟨q, hq⟩
  cases hq

@[simp] theorem map_isFinite {f : ℚ → ℚ} {v : Extended} : (v.map f).IsFinite ↔ v.IsFinite := by
  cases v <;> simp [map]

@[simp] theorem neg_isFinite {v : Extended} : v.neg.IsFinite ↔ v.IsFinite := by
  cases v <;> simp [neg]

/-! ### Comparison -/

def lt : Extended → Extended → Prop
  | .finite a, .finite b => a < b
  | .nan, _ => False
  | _, .nan => False
  | .infinity s, .infinity t => s = true ∧ t = false
  | .infinity s, .finite _ => s = true
  | .finite _, .infinity t => t = false

instance decidableLt : ∀ u v : Extended, Decidable (u.lt v)
  | .finite a, .finite b => inferInstanceAs (Decidable (a < b))
  | .nan, _ => .isFalse id
  | .finite _, .nan => .isFalse id
  | .infinity _, .nan => .isFalse id
  | .infinity s, .infinity t => inferInstanceAs (Decidable (s = true ∧ t = false))
  | .infinity s, .finite _ => inferInstanceAs (Decidable (s = true))
  | .finite _, .infinity t => inferInstanceAs (Decidable (t = false))

theorem not_lt_self (v : Extended) : ¬ v.lt v := by
  cases v <;> simp [lt]

theorem lt_chain {u v w : Extended} (h : u.lt v) (h' : v.lt w) : u.lt w := by
  cases u <;> cases v <;> cases w <;> simp_all [lt]
  exact h.trans h'

/-- NaN is comparable to nothing else; between the others this is the comparison of numbers. -/
instance : PartialOrder Extended where
  le u v := u = v ∨ u.lt v
  lt := lt
  le_refl _ := .inl rfl
  le_trans u v w := by
    rintro (rfl | h) (rfl | h')
    · exact .inl rfl
    · exact .inr h'
    · exact .inr h
    · exact .inr (lt_chain h h')
  lt_iff_le_not_ge u v := by
    constructor
    · intro h
      refine ⟨.inr h, ?_⟩
      rintro (rfl | h')
      · exact not_lt_self _ h
      · exact not_lt_self _ (lt_chain h h')
    · rintro ⟨rfl | h, hnot⟩
      · exact absurd (.inl rfl) hnot
      · exact h
  le_antisymm u v := by
    rintro (rfl | h) (h' | h')
    · rfl
    · rfl
    · exact h'.symm
    · exact absurd (lt_chain h h') (not_lt_self _)

instance : DecidableLT Extended := decidableLt

@[simp] theorem finite_lt_finite {a b : ℚ} : finite a < finite b ↔ a < b := Iff.rfl

/-- Between numbers other than NaN. -/
theorem not_lt_iff_le {u v : Extended} (hu : u ≠ nan) (hv : v ≠ nan) : ¬ v < u ↔ u ≤ v := by
  constructor
  · intro h
    cases u with
    | nan => exact absurd rfl hu
    | finite a =>
      cases v with
      | nan => exact absurd rfl hv
      | finite b =>
        rcases (not_lt.1 h : a ≤ b).eq_or_lt with rfl | hab
        · exact le_refl _
        · exact .inr hab
      | infinity t =>
        cases t with
        | true => exact absurd rfl h
        | false => exact .inr rfl
    | infinity s =>
      cases v with
      | nan => exact absurd rfl hv
      | finite b =>
        cases s with
        | true => exact .inr rfl
        | false => exact absurd rfl h
      | infinity t =>
        cases s <;> cases t
        · exact le_refl _
        · exact absurd ⟨rfl, rfl⟩ h
        · exact .inr ⟨rfl, rfl⟩
        · exact le_refl _
  · exact fun h => not_lt_of_ge h

theorem finite_le_finite {a b : ℚ} (h : a ≤ b) : finite a ≤ finite b := by
  rcases h.eq_or_lt with rfl | h
  · exact le_refl _
  · exact .inr h

end Extended

open Extended

/-- `overflows` is asked about rounded results. -/
structure Format where
  round : ℚ → ℚ
  overflows : ℚ → Bool

namespace Format

variable (F : Format)

/-- The exact result `q` stays finite. -/
def Fits (q : ℚ) : Prop := F.overflows (F.round q) = false

def result (q : ℚ) : Extended :=
  if F.overflows (F.round q) then .infinity (F.round q < 0) else .finite (F.round q)

def add : Extended → Extended → Extended
  | .finite a, .finite b => F.result (a + b)
  | .nan, _ => .nan
  | _, .nan => .nan
  | .infinity s, .infinity t => if s = t then .infinity s else .nan
  | .infinity s, .finite _ => .infinity s
  | .finite _, .infinity t => .infinity t

def sub (a b : Extended) : Extended := F.add a b.neg

def mul : Extended → Extended → Extended
  | .finite a, .finite b => F.result (a * b)
  | .nan, _ => .nan
  | _, .nan => .nan
  | .infinity s, .infinity t => .infinity (s != t)
  | .infinity s, .finite b => if b = 0 then .nan else .infinity (s != decide (b < 0))
  | .finite a, .infinity t => if a = 0 then .nan else .infinity (decide (a < 0) != t)

def div : Extended → Extended → Extended
  | .finite a, .finite b =>
    if b ≠ 0 then F.result (a / b) else if a = 0 then .nan else .infinity (a < 0)
  | .nan, _ => .nan
  | _, .nan => .nan
  | .infinity _, .infinity _ => .nan
  | .infinity s, .finite b => .infinity (s != decide (b < 0))
  | .finite _, .infinity _ => .finite 0

/-- The sum of `qs` from `s` on stays finite. -/
def SumFits : ℚ → List ℚ → Prop
  | _, [] => True
  | s, q :: qs => F.Fits (s + q) ∧ SumFits (F.round (s + q)) qs

/-- The finite sum. -/
def sum (s : ℚ) (qs : List ℚ) : ℚ := qs.foldl (fun s q => F.round (s + q)) s

instance (q : ℚ) : Decidable (F.Fits q) := inferInstanceAs (Decidable (_ = _))

instance decidableSumFits : ∀ s qs, Decidable (F.SumFits s qs)
  | _, [] => .isTrue trivial
  | s, q :: qs =>
    haveI := decidableSumFits (F.round (s + q)) qs
    inferInstanceAs (Decidable (_ ∧ _))

section Results

variable {F : Format} {a b q : ℚ} {u v : Extended}

theorem result_of_fits (h : F.Fits q) : F.result q = .finite (F.round q) := by
  unfold result
  rw [h]
  rfl

theorem result_isFinite : (F.result q).IsFinite ↔ F.Fits q := by
  unfold result Fits
  split <;> simp_all

theorem add_finite (h : F.Fits (a + b)) :
    F.add (.finite a) (.finite b) = .finite (F.round (a + b)) := result_of_fits h

theorem sub_finite (h : F.Fits (a - b)) :
    F.sub (.finite a) (.finite b) = .finite (F.round (a - b)) := by
  rw [sub_eq_add_neg] at h ⊢
  exact result_of_fits h

theorem mul_finite (h : F.Fits (a * b)) :
    F.mul (.finite a) (.finite b) = .finite (F.round (a * b)) := result_of_fits h

theorem div_result (hb : b ≠ 0) : F.div (.finite a) (.finite b) = F.result (a / b) := by
  show (if b ≠ 0 then F.result (a / b) else _) = _
  rw [if_pos hb]

theorem div_finite (hb : b ≠ 0) (h : F.Fits (a / b)) :
    F.div (.finite a) (.finite b) = .finite (F.round (a / b)) := by
  rw [div_result hb]
  exact result_of_fits h

theorem result_ne_nan (q : ℚ) : F.result q ≠ nan := by
  unfold result
  split <;> simp

/-- **A product with an operand that is not finite is not finite.** -/
theorem mul_not_finite (h : ¬ v.IsFinite) : ¬ (F.mul u v).IsFinite := by
  cases v with
  | finite q => simp at h
  | infinity t =>
    cases u with
    | finite a =>
      show ¬ (if a = 0 then nan else infinity _).IsFinite
      split <;> simp
    | infinity s => simp [mul]
    | nan => simp [mul]
  | nan => cases u <;> simp [mul]

/-- **Sums of finite numbers.** -/
theorem foldl_add {s : ℚ} {qs : List ℚ} (h : F.SumFits s qs) :
    (qs.map .finite).foldl F.add (.finite s) = .finite (F.sum s qs) := by
  induction qs generalizing s with
  | nil => rfl
  | cons q qs ih =>
    obtain ⟨hfits, hrest⟩ := h
    rw [List.map_cons, List.foldl_cons, add_finite hfits]
    exact ih hrest

end Results

end Format
