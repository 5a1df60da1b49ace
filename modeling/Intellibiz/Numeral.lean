import Intellibiz.FixedWidth
import Mathlib.Algebra.Field.Rat
import Mathlib.Data.Nat.Cast.Field
import Mathlib.Data.List.TakeWhile
import Mathlib.Tactic.FieldSimp
import Mathlib.Tactic.Linarith
import Mathlib.Tactic.Positivity
import Mathlib.Tactic.Ring

/-!
# Decimal numerals

* `value?` — the exact value of a decimal string: an optional sign, digits, and optionally a point
  with digits behind it.
* `fixed` — an integral multiple of `10 ^ -d`, written with `d` digits behind the point.
* `withoutPoint`, `fractionDigits` — the string without its point, the number of digits behind it.
* `Canonical` — digits without leading zeros.

Principal results: `value?_fixed` (the round trip), `value?_withoutPoint` (without the point the
integer is read), `fractionDigits_fixed` and `toDigits_natural_iff` (the digit strings that are
those of their number).
-/

namespace Numeral

/-! ## Reading -/

def natural (digits : List Char) : ℕ := Nat.ofDigitChars 10 digits 0

def unsigned? (l : List Char) : Option ℚ :=
  let whole := l.takeWhile Char.isDigit
  match l.dropWhile Char.isDigit with
  | [] => if whole ≠ [] then some (natural whole : ℚ) else none
  | '.' :: fraction =>
    if whole ≠ [] ∧ fraction ≠ [] ∧ fraction.all Char.isDigit = true then
      some ((natural (whole ++ fraction) : ℚ) / 10 ^ fraction.length)
    else none
  | _ => none

def signed? : List Char → Option ℚ
  | '-' :: l => (unsigned? l).map (- ·)
  | '+' :: l => unsigned? l
  | l => unsigned? l

/-- The exact value of a decimal string. -/
def value? (s : String) : Option ℚ := signed? s.toList

/-! ## Writing -/

/-- The digits of `n`, at least `k` of them. -/
def padded (k n : ℕ) : List Char :=
  List.replicate (k - (Nat.toDigits 10 n).length) '0' ++ Nat.toDigits 10 n

def magnitude (d n : ℕ) : List Char :=
  if d = 0 then Nat.toDigits 10 n
  else Nat.toDigits 10 (n / 10 ^ d) ++ '.' :: padded d (n % 10 ^ d)

/-- `n` units of `10 ^ -d`, with `d` digits behind the point. -/
def fixed (d : ℕ) (n : ℤ) : String :=
  String.ofList (if n < 0 then '-' :: magnitude d n.natAbs else magnitude d n.natAbs)

def withoutPoint (s : String) : String := String.ofList (s.toList.filter (· ≠ '.'))

def fractionDigits (s : String) : ℕ := (s.toList.dropWhile (· ≠ '.')).tail.length

/-! ## Digits -/

section Digits

variable {d n k : ℕ}

theorem natural_append (l m : List Char) :
    natural (l ++ m) = 10 ^ m.length * natural l + natural m := by
  unfold natural
  rw [Nat.ofDigitChars_append, Nat.ofDigitChars_eq_ofDigitChars_zero]

@[simp] theorem natural_toDigits (n : ℕ) : natural (Nat.toDigits 10 n) = n :=
  Nat.ofDigitChars_ten_toDigits

theorem isDigit_toDigits {c : Char} (h : c ∈ Nat.toDigits 10 n) : c.isDigit = true :=
  Nat.isDigit_of_mem_toDigits (by decide) (by decide) h

theorem natural_padded (k n : ℕ) : natural (padded k n) = n := by
  unfold padded
  rw [natural_append, natural_toDigits]
  simp [natural]

theorem isDigit_padded {c : Char} (h : c ∈ padded k n) : c.isDigit = true := by
  rcases List.mem_append.1 h with h | h
  · rw [List.eq_of_mem_replicate h]
    rfl
  · exact isDigit_toDigits h

theorem length_padded (hk : 0 < k) (h : n < 10 ^ k) : (padded k n).length = k :=
  FixedWidth.length_padded (by decide) hk h

theorem padded_ne_nil : padded k n ≠ [] := by
  unfold padded
  simp

/-- A point is no digit. -/
theorem ne_point_of_isDigit {c : Char} (h : c.isDigit = true) : c ≠ '.' := by
  rintro rfl
  cases h

theorem takeWhile_digits {l m : List Char} (h : ∀ c ∈ l, c.isDigit = true) :
    (l ++ '.' :: m).takeWhile Char.isDigit = l ∧
      (l ++ '.' :: m).dropWhile Char.isDigit = '.' :: m := by
  have hl : l.takeWhile Char.isDigit = l := List.takeWhile_eq_self_iff.2 h
  constructor
  · rw [List.takeWhile_append_of_pos h, List.takeWhile_cons_of_neg (by decide), List.append_nil]
  · rw [List.dropWhile_append_of_pos h, List.dropWhile_cons_of_neg (by decide)]

theorem unsigned?_digits {l : List Char} (hne : l ≠ []) (h : ∀ c ∈ l, c.isDigit = true) :
    unsigned? l = some (natural l : ℚ) := by
  have htake : l.takeWhile Char.isDigit = l := List.takeWhile_eq_self_iff.2 h
  have hdrop : l.dropWhile Char.isDigit = [] := List.dropWhile_eq_nil_iff.2 h
  simp only [unsigned?, hdrop, htake, if_pos hne]

/-- **Reading what was written.** -/
theorem unsigned?_magnitude (d n : ℕ) :
    unsigned? (magnitude d n) = some ((n : ℚ) / 10 ^ d) := by
  unfold magnitude
  split
  · rename_i hd
    subst hd
    rw [unsigned?_digits Nat.toDigits_ne_nil fun c => isDigit_toDigits, natural_toDigits]
    simp
  · rename_i hd
    have hlt : n % 10 ^ d < 10 ^ d := Nat.mod_lt _ (by positivity)
    have hlength := length_padded (Nat.pos_of_ne_zero hd) hlt
    have hdigits : ∀ c ∈ Nat.toDigits 10 (n / 10 ^ d), c.isDigit = true := fun c =>
      isDigit_toDigits
    obtain ⟨htake, hdrop⟩ := takeWhile_digits (m := padded d (n % 10 ^ d)) hdigits
    have hnatural : natural (Nat.toDigits 10 (n / 10 ^ d) ++ padded d (n % 10 ^ d)) = n := by
      rw [natural_append, natural_toDigits, natural_padded, hlength, Nat.div_add_mod]
    have hall : (padded d (n % 10 ^ d)).all Char.isDigit = true :=
      List.all_eq_true.2 fun c => isDigit_padded
    simp only [unsigned?, htake, hdrop]
    rw [if_pos ⟨Nat.toDigits_ne_nil, padded_ne_nil, hall⟩, hnatural, hlength]

end Digits

/-! ## Digits and their number -/

section Numbers

variable {l m : List Char} {c d : Char}

theorem digit_bounds (h : c.isDigit = true) : 48 ≤ c.toNat ∧ c.toNat ≤ 57 := by
  simpa [Char.isDigit, UInt32.le_iff_toNat_le] using h

theorem natural_cons (c : Char) (l : List Char) :
    natural (c :: l) = 10 ^ l.length * (c.toNat - 48) + natural l := by
  have happ := natural_append [c] l
  have hone : natural [c] = c.toNat - 48 := by simp [natural, Nat.ofDigitChars_cons]
  rwa [List.singleton_append, hone] at happ

theorem natural_lt (h : ∀ c ∈ l, c.isDigit = true) : natural l < 10 ^ l.length := by
  induction l with
  | nil => decide
  | cons c l ih =>
    obtain ⟨hc, hl⟩ := List.forall_mem_cons.1 h
    have hdigit := digit_bounds hc
    have hmul : 10 ^ l.length * (c.toNat - 48) ≤ 10 ^ l.length * 9 :=
      Nat.mul_le_mul_left _ (by omega)
    have hrest := ih hl
    rw [natural_cons, List.length_cons, pow_succ]
    omega

/-- Digit strings of one length differ in their numbers. -/
theorem natural_inj (hl : ∀ c ∈ l, c.isDigit = true) (hm : ∀ c ∈ m, c.isDigit = true)
    (hlength : l.length = m.length) (h : natural l = natural m) : l = m := by
  induction l generalizing m with
  | nil => exact (List.length_eq_zero_iff.1 hlength.symm).symm
  | cons c l ih =>
    obtain ⟨d, m, rfl⟩ := List.exists_cons_of_length_eq_add_one hlength.symm
    obtain ⟨hc, hl⟩ := List.forall_mem_cons.1 hl
    obtain ⟨hd, hm⟩ := List.forall_mem_cons.1 hm
    have hlength : l.length = m.length := by simpa using hlength
    have hltl := natural_lt hl
    have hltm := natural_lt hm
    rw [natural_cons, natural_cons, ← hlength] at h
    rw [← hlength] at hltm
    -- the leading digit is the quotient
    have hpos : 0 < 10 ^ l.length := by positivity
    have hquotient : c.toNat - 48 = d.toNat - 48 := by
      have hdiv := congrArg (· / 10 ^ l.length) h
      simpa [Nat.mul_add_div hpos, Nat.div_eq_of_lt hltl, Nat.div_eq_of_lt hltm] using hdiv
    have hcd : c = d := by
      have hcb := digit_bounds hc
      have hdb := digit_bounds hd
      exact Char.toNat_inj.1 (by omega)
    rw [hquotient] at h
    rw [hcd, ih hl hm hlength (by omega)]

theorem length_toDigits_natural_le (hne : l ≠ []) (h : ∀ c ∈ l, c.isDigit = true) :
    (Nat.toDigits 10 (natural l)).length ≤ l.length :=
  (Nat.length_toDigits_le_iff (by decide) (List.length_pos_iff.2 hne)).2 (natural_lt h)

/-- A digit string without leading zeros. -/
def Canonical (l : List Char) : Prop := l.head? = some '0' → l = ['0']

instance (l : List Char) : Decidable (Canonical l) := inferInstanceAs (Decidable (_ → _))

/-- **The digits of the number are the string**, if it has no leading zeros. -/
theorem toDigits_natural_iff (hne : l ≠ []) (h : ∀ c ∈ l, c.isDigit = true) :
    Nat.toDigits 10 (natural l) = l ↔ Canonical l := by
  obtain ⟨c, l, rfl⟩ := List.exists_cons_of_ne_nil hne
  obtain ⟨hc, hl⟩ := List.forall_mem_cons.1 h
  have hbounds := digit_bounds hc
  constructor
  · intro heq hhead
    obtain rfl : c = '0' := by simpa using hhead
    by_contra hlong
    have hne' : l ≠ [] := by
      rintro rfl
      exact hlong rfl
    have hshort : (Nat.toDigits 10 (natural l)).length ≤ l.length :=
      length_toDigits_natural_le hne' hl
    have hzero : natural ('0' :: l) = natural l := by simp [natural_cons]
    have hlength := congrArg List.length heq
    rw [hzero, List.length_cons] at hlength
    omega
  · intro hcanonical
    by_cases hzero : c = '0'
    · have hl' := hcanonical (by rw [hzero]; rfl)
      rw [hl']
      rfl
    · refine natural_inj (fun d hd => isDigit_toDigits hd) h ?_ (natural_toDigits _)
      have hle := length_toDigits_natural_le hne h
      have hone : 1 ≤ c.toNat - 48 := by
        have hne48 : c.toNat ≠ 48 := fun h48 => hzero (Char.toNat_inj.1 h48)
        omega
      have hlarge : 10 ^ l.length ≤ natural (c :: l) := by
        rw [natural_cons]
        exact (Nat.le_mul_of_pos_right _ hone).trans (Nat.le_add_right _ _)
      -- a number of so many digits has no fewer
      have hge : ¬ (Nat.toDigits 10 (natural (c :: l))).length ≤ l.length := by
        intro hshort
        rcases Nat.eq_zero_or_pos l.length with hnil | hpos
        · rw [hnil] at hshort
          exact Nat.toDigits_ne_nil (List.length_eq_zero_iff.1 (Nat.le_zero.1 hshort))
        · exact absurd ((Nat.length_toDigits_le_iff (by decide) hpos).1 hshort) (by omega)
      rw [List.length_cons] at hle ⊢
      omega

theorem canonical_toDigits (n : ℕ) : Canonical (Nat.toDigits 10 n) :=
  (toDigits_natural_iff Nat.toDigits_ne_nil fun _ => isDigit_toDigits).1 (by rw [natural_toDigits])

end Numbers

/-! ## Signs -/

section Signs

/-- Digits and points are no sign. -/
theorem signed?_eq {l : List Char} (h : ∀ c ∈ l, c.isDigit = true ∨ c = '.') :
    signed? l = unsigned? l := by
  unfold signed?
  split
  · have hsign := h '-' (by simp)
    simp at hsign
  · have hsign := h '+' (by simp)
    simp at hsign
  · rfl

theorem mem_magnitude {d n : ℕ} {c : Char} (h : c ∈ magnitude d n) :
    c.isDigit = true ∨ c = '.' := by
  unfold magnitude at h
  split at h
  · exact .inl (isDigit_toDigits h)
  · rcases List.mem_append.1 h with h | h
    · exact .inl (isDigit_toDigits h)
    · rcases List.mem_cons.1 h with h | h
      · exact .inr h
      · exact .inl (isDigit_padded h)

theorem cast_natAbs_of_neg {n : ℤ} (h : n < 0) : ((n.natAbs : ℕ) : ℚ) = -n := by
  have hint : ((n.natAbs : ℕ) : ℤ) = -n := by omega
  rw [← Int.cast_natCast, hint, Int.cast_neg]

theorem cast_natAbs_of_nonneg {n : ℤ} (h : ¬ n < 0) : ((n.natAbs : ℕ) : ℚ) = n := by
  have hint : ((n.natAbs : ℕ) : ℤ) = n := by omega
  rw [← Int.cast_natCast, hint]

/-- **The value of an amount written with a fixed number of digits.** -/
theorem value?_fixed (d : ℕ) (n : ℤ) : value? (fixed d n) = some ((n : ℚ) / 10 ^ d) := by
  unfold value? fixed
  rw [String.toList_ofList]
  split
  · rename_i hneg
    show (unsigned? (magnitude d n.natAbs)).map (- ·) = _
    rw [unsigned?_magnitude, Option.map_some, cast_natAbs_of_neg hneg]
    congr 1
    ring
  · rename_i hneg
    rw [signed?_eq fun c => mem_magnitude, unsigned?_magnitude, cast_natAbs_of_nonneg hneg]

/-! ## The point -/

theorem filter_digits {l : List Char} (h : ∀ c ∈ l, c.isDigit = true) :
    l.filter (· ≠ '.') = l := by
  rw [List.filter_eq_self]
  intro c hc
  simpa using ne_point_of_isDigit (h c hc)

theorem unsigned?_withoutPoint (d n : ℕ) :
    unsigned? ((magnitude d n).filter (· ≠ '.')) = some (n : ℚ) := by
  unfold magnitude
  split
  · rw [filter_digits fun c => isDigit_toDigits,
      unsigned?_digits Nat.toDigits_ne_nil fun c => isDigit_toDigits, natural_toDigits]
  · rename_i hd
    have hlt : n % 10 ^ d < 10 ^ d := Nat.mod_lt _ (by positivity)
    have hlength := length_padded (Nat.pos_of_ne_zero hd) hlt
    have hdigits : ∀ c ∈ Nat.toDigits 10 (n / 10 ^ d) ++ padded d (n % 10 ^ d),
        c.isDigit = true := by
      intro c hc
      rcases List.mem_append.1 hc with hc | hc
      · exact isDigit_toDigits hc
      · exact isDigit_padded hc
    rw [List.filter_append, List.filter_cons_of_neg (by decide),
      filter_digits fun c => isDigit_toDigits, filter_digits fun c => isDigit_padded,
      unsigned?_digits (by simp) hdigits, natural_append, natural_toDigits, natural_padded,
      hlength, Nat.div_add_mod]

/-- **Without its point, the string is read as the integer.** -/
theorem value?_withoutPoint (d : ℕ) (n : ℤ) : value? (withoutPoint (fixed d n)) = some (n : ℚ) := by
  unfold value? withoutPoint fixed
  rw [String.toList_ofList, String.toList_ofList]
  split
  · rename_i hneg
    rw [List.filter_cons_of_pos (by decide)]
    show (unsigned? ((magnitude d n.natAbs).filter (· ≠ '.'))).map (- ·) = _
    rw [unsigned?_withoutPoint, Option.map_some, cast_natAbs_of_neg hneg, neg_neg]
  · rename_i hneg
    rw [signed?_eq fun c hc => mem_magnitude (List.mem_of_mem_filter hc), unsigned?_withoutPoint,
      cast_natAbs_of_nonneg hneg]

theorem dropWhile_digits {l m : List Char} (h : ∀ c ∈ l, c.isDigit = true) :
    (l ++ m).dropWhile (· ≠ '.') = m.dropWhile (· ≠ '.') := by
  apply List.dropWhile_append_of_pos
  intro c hc
  simpa using ne_point_of_isDigit (h c hc)

theorem fractionDigits_magnitude (d n : ℕ) :
    ((magnitude d n).dropWhile (· ≠ '.')).tail.length = d := by
  unfold magnitude
  split
  · rename_i hd
    have hdrop := dropWhile_digits (m := []) fun c (hc : c ∈ Nat.toDigits 10 n) =>
      isDigit_toDigits hc
    rw [List.append_nil] at hdrop
    rw [hdrop, hd]
    rfl
  · rename_i hd
    have hlt : n % 10 ^ d < 10 ^ d := Nat.mod_lt _ (by positivity)
    rw [dropWhile_digits fun c => isDigit_toDigits, List.dropWhile_cons_of_neg (by decide),
      List.tail_cons, length_padded (Nat.pos_of_ne_zero hd) hlt]

theorem fractionDigits_fixed (d : ℕ) (n : ℤ) : fractionDigits (fixed d n) = d := by
  unfold fractionDigits fixed
  rw [String.toList_ofList]
  split
  · rw [List.dropWhile_cons_of_pos (by decide)]
    exact fractionDigits_magnitude d _
  · exact fractionDigits_magnitude d _

/-- **A decimal string is a multiple of its last decimal.** -/
theorem unsigned?_mul_pow {l : List Char} {q : ℚ} (h : unsigned? l = some q) :
    ∃ n : ℤ, q * 10 ^ (l.dropWhile (· ≠ '.')).tail.length = n := by
  have hsplit : l.takeWhile Char.isDigit ++ l.dropWhile Char.isDigit = l :=
    List.takeWhile_append_dropWhile
  have hdigits : ∀ c ∈ l.takeWhile Char.isDigit, c.isDigit = true := fun c hc =>
    List.mem_takeWhile_imp hc
  simp only [unsigned?] at h
  split at h
  · rename_i hend
    rw [hend] at hsplit
    split at h
    · cases h
      refine ⟨(natural (l.takeWhile Char.isDigit) : ℤ), ?_⟩
      have hdrop := dropWhile_digits (m := []) hdigits
      rw [hsplit] at hdrop
      rw [hdrop, Int.cast_natCast]
      simp
    · cases h
  · rename_i fraction hend
    rw [hend] at hsplit
    split at h
    · cases h
      refine ⟨(natural (l.takeWhile Char.isDigit ++ fraction) : ℤ), ?_⟩
      have hdrop := dropWhile_digits (m := '.' :: fraction) hdigits
      rw [hsplit, List.dropWhile_cons_of_neg (by decide)] at hdrop
      rw [hdrop, Int.cast_natCast, List.tail_cons]
      field_simp
    · cases h
  · cases h

theorem value?_mul_pow {s : String} {q : ℚ} (h : value? s = some q) :
    ∃ n : ℤ, q * 10 ^ fractionDigits s = n := by
  unfold value? signed? at h
  unfold fractionDigits
  split at h
  · rename_i l hl
    obtain ⟨r, hr, rfl⟩ := Option.map_eq_some_iff.1 h
    obtain ⟨n, hn⟩ := unsigned?_mul_pow hr
    rw [hl, List.dropWhile_cons_of_pos (by decide)]
    exact ⟨-n, by rw [neg_mul, hn, Int.cast_neg]⟩
  · rename_i l hl
    rw [hl, List.dropWhile_cons_of_pos (by decide)]
    exact unsigned?_mul_pow h
  · exact unsigned?_mul_pow h

end Signs

example : value? "-12.050" = some (-1205 / 100) := by decide +kernel

end Numeral
