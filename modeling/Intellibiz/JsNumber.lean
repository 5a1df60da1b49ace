import Intellibiz.Extended
import Intellibiz.HexPairs
import Intellibiz.Numeral
import Intellibiz.Rounding

/-!
# Numbers of JavaScript read off texts

* `binary64` — results in double precision, with gradual underflow.
* `ofText` — `Number(text)` for a text without white space around it: decimal literals with an
  exponent, `0x` / `0o` / `0b` literals, `Infinity`, and NaN for everything else.

Principal results: `binary64_int` (integers that are kept), `floor_round_div` and `ofText_digits`.
-/

namespace JsNumber

open Rounding

def binary64 : Format where
  round q :=
    if |q| < (2 : ℚ) ^ (-1022 : ℤ) then halfEven (q * 2 ^ 1074) / 2 ^ 1074 else roundDigits 2 53 q
  overflows q := 2 ^ 1024 ≤ |q|

/-- The digits of a base. -/
def radix? (base : ℕ) (l : List Char) : Option ℕ :=
  if l = [] then none
  else l.foldlM (fun n c =>
    (HexPairs.value? c).bind fun d => if d < base then some (n * base + d) else none) 0

def nonDecimal? : List Char → Option ℕ
  | '0' :: c :: l =>
    if c ∈ ['x', 'X'] then radix? 16 l
    else if c ∈ ['o', 'O'] then radix? 8 l
    else if c ∈ ['b', 'B'] then radix? 2 l
    else none
  | _ => none

def digits? (l : List Char) : Option ℕ :=
  if l ≠ [] ∧ l.all Char.isDigit = true then some (Numeral.natural l) else none

/-- What stands behind the digits: nothing, or an exponent. -/
def exponent? : List Char → Option ℤ
  | [] => some 0
  | c :: l =>
    if c ∈ ['e', 'E'] then
      match l with
      | '-' :: l => (digits? l).map fun n => -(n : ℤ)
      | '+' :: l => (digits? l).map Int.ofNat
      | l => (digits? l).map Int.ofNat
    else none

/-- Digits, a point with digits, or both, and an exponent. -/
def decimal? (l : List Char) : Option ℚ :=
  let whole := l.takeWhile Char.isDigit
  let (fraction, rest) := match l.dropWhile Char.isDigit with
    | '.' :: rest => (rest.takeWhile Char.isDigit, rest.dropWhile Char.isDigit)
    | rest => ([], rest)
  if whole = [] ∧ fraction = [] then none
  else (exponent? rest).map fun (e : ℤ) =>
    (Numeral.natural (whole ++ fraction) : ℚ) * (10 : ℚ) ^ (e - fraction.length)

def unsigned (l : List Char) : Extended :=
  if l = "Infinity".toList then .infinity false
  else
    match decimal? l with
    | some q => binary64.result q
    | none => .nan

def ofText : List Char → Extended
  | [] => .finite 0
  | '-' :: l => (unsigned l).neg
  | '+' :: l => unsigned l
  | l =>
    match nonDecimal? l with
    | some n => binary64.result n
    | none => unsigned l

/-! ## Integers -/

theorem binary64_round_int {n : ℤ} (h : |n| ≤ 2 ^ 53) : binary64.round n = n := by
  show (if |(n : ℚ)| < (2 : ℚ) ^ (-1022 : ℤ) then (_ : ℚ) else _) = _
  split
  · rename_i hsmall
    have hzero : n = 0 := by
      have hlt : |(n : ℚ)| < 1 := hsmall.trans (zpow_lt_one_of_neg₀ (by norm_num) (by norm_num))
      exact Int.abs_lt_one_iff.1 (by exact_mod_cast hlt)
    rw [hzero, Int.cast_zero, zero_mul, halfEven_zero, Int.cast_zero, zero_div]
  · exact roundDigits_eq (by decide) (by decide) (.int h)

theorem binary64_fits_int {n : ℤ} (h : |n| ≤ 2 ^ 53) : binary64.Fits n := by
  rw [Format.Fits, binary64_round_int h]
  refine decide_eq_false (not_le.2 ?_)
  have hlt : |n| < 2 ^ 1024 := lt_of_le_of_lt h (pow_lt_pow_right₀ (by norm_num) (by norm_num))
  have hcast := (Int.cast_lt (R := ℚ)).2 hlt
  rwa [Int.cast_abs, Int.cast_pow, Int.cast_ofNat] at hcast

/-- **Integers of 53 bits are kept.** -/
theorem binary64_int {n : ℤ} (h : |n| ≤ 2 ^ 53) : binary64.result n = .finite n := by
  rw [Format.result_of_fits (binary64_fits_int h), binary64_round_int h]

theorem abs_round_sub_le {q : ℚ} (h : (2 : ℚ) ^ (-1022 : ℤ) ≤ |q|) :
    |binary64.round q - q| ≤ |q| / 2 ^ 53 := by
  have herr := abs_roundDigits_sub_le (b := 2) (p := 53) (q := q) (by decide)
  have hpow : (((2 : ℕ) : ℚ) ^ (1 - ((53 : ℕ) : ℤ))) = 1 / 2 ^ 52 := by
    rw [show (1 : ℤ) - ((53 : ℕ) : ℤ) = -((52 : ℕ) : ℤ) by norm_num, zpow_neg, zpow_natCast]
    norm_num
  have hround : binary64.round q = roundDigits 2 53 q := if_neg (not_lt.2 h)
  rw [hpow] at herr
  rw [hround]
  exact herr.trans_eq (by ring)

/-- A number that is rounded to at most `n` exceeds `n` by less than one half. -/
theorem abs_lt_of_abs_round_le {q : ℚ} {n : ℕ} (hn : n < 2 ^ 51) (h : |binary64.round q| ≤ n) :
    |q| < n + 1 / 2 := by
  by_contra hlarge
  rw [not_lt] at hlarge
  have hn0 : (0 : ℚ) ≤ n := Nat.cast_nonneg n
  have hn' : (n : ℚ) < 2 ^ 51 := by exact_mod_cast hn
  have htiny : (2 : ℚ) ^ (-1022 : ℤ) ≤ |q| := by
    have hhalf : (2 : ℚ) ^ (-1022 : ℤ) ≤ 2 ^ (-1 : ℤ) :=
      zpow_le_zpow_right₀ (by norm_num) (by norm_num)
    rw [zpow_neg_one] at hhalf
    linarith
  have herr := abs_round_sub_le htiny
  have hsub : |q| ≤ |binary64.round q - q| + |binary64.round q| := by
    have htri := abs_sub_abs_le_abs_sub q (binary64.round q)
    rw [abs_sub_comm q] at htri
    linarith
  -- the error at `n + 1 / 2` is less than one half
  have hkept : |q| - |q| / 2 ^ 53 ≤ n := by linarith
  have hfactor : (n + 1 / 2 : ℚ) * (1 - 1 / 2 ^ 53) ≤ |q| * (1 - 1 / 2 ^ 53) :=
    mul_le_mul_of_nonneg_right hlarge (by norm_num)
  have hexact : |q| * (1 - 1 / 2 ^ 53) = |q| - |q| / 2 ^ 53 := by ring
  have hgap : (n : ℚ) < (n + 1 / 2) * (1 - 1 / 2 ^ 53) := by
    norm_num
    linarith
  linarith

/-- The error is less than the distance of two multiples of `1 / d`. -/
theorem abs_round_div_sub_lt {n d : ℤ} (hn : 0 < n) (hn' : n < 2 ^ 53) (hd : 0 < d)
    (hd' : d ≤ 2 ^ 53) : |binary64.round ((n : ℚ) / d) - (n : ℚ) / d| < 1 / d := by
  have hdpos : (0 : ℚ) < d := by exact_mod_cast hd
  have hnpos : (0 : ℚ) < n := by exact_mod_cast hn
  have hone : (1 : ℚ) ≤ n := by exact_mod_cast hn
  have hlarge : (2 : ℚ) ^ (-1022 : ℤ) ≤ |(n : ℚ) / d| := by
    have hquot : (1 : ℚ) / 2 ^ 53 ≤ (n : ℚ) / d :=
      div_le_div₀ hnpos.le hone hdpos (by exact_mod_cast hd')
    have hsmall : (2 : ℚ) ^ (-1022 : ℤ) ≤ 2 ^ (-53 : ℤ) :=
      zpow_le_zpow_right₀ (by norm_num) (by norm_num)
    rw [abs_of_pos (by positivity)]
    refine hsmall.trans (le_trans (le_of_eq ?_) hquot)
    norm_num
  refine (abs_round_sub_le hlarge).trans_lt ?_
  have hn53 : (n : ℚ) < 2 ^ 53 := by exact_mod_cast hn'
  rw [abs_of_pos (by positivity), div_div, div_lt_div_iff₀ (by positivity) hdpos, one_mul, mul_comm]
  exact mul_lt_mul_of_pos_left hn53 hdpos

/-- **The floor of a quotient of integers** is not moved by rounding. -/
theorem floor_round_div {n d : ℤ} (hn : 0 ≤ n) (hn' : n < 2 ^ 53) (hd : 0 < d) (hd' : d ≤ 2 ^ 53) :
    ⌊binary64.round ((n : ℚ) / d)⌋ = n / d := by
  have hdpos : (0 : ℚ) < d := by exact_mod_cast hd
  by_cases hexact : n % d = 0
  · have hle : |n / d| ≤ 2 ^ 53 := by
      have hdiv := Int.ediv_le_self d hn
      rw [abs_of_nonneg (Int.ediv_nonneg hn hd.le)]
      omega
    have hq : (n : ℚ) / d = ((n / d : ℤ) : ℚ) := by
      rw [Int.cast_div_charZero (Int.dvd_of_emod_eq_zero hexact)]
    rw [hq, binary64_round_int hle, Int.floor_intCast]
  · have hrest : 0 < n % d := lt_of_le_of_ne (Int.emod_nonneg n hd.ne') (Ne.symm hexact)
    have hrest' := Int.emod_lt_of_pos n hd
    have hpos : 0 < n := lt_of_le_of_ne hn fun h => hexact (by rw [← h, Int.zero_emod])
    obtain ⟨hlow, hhigh⟩ := abs_lt.1 (abs_round_div_sub_lt hpos hn' hd hd')
    -- the quotient is at least `1 / d` away from the integers on both sides
    have hcast : (n : ℚ) / d = (n / d : ℤ) + ((n % d : ℤ) : ℚ) / d := by
      rw [div_eq_iff hdpos.ne', add_mul, div_mul_cancel₀ _ hdpos.ne', mul_comm]
      exact_mod_cast (Int.mul_ediv_add_emod n d).symm
    have hfirst : 1 / (d : ℚ) ≤ ((n % d : ℤ) : ℚ) / d :=
      div_le_div_of_nonneg_right (by exact_mod_cast hrest) hdpos.le
    have hlast : ((n % d : ℤ) : ℚ) / d + 1 / d ≤ 1 := by
      rw [← add_div, div_le_one hdpos]
      exact_mod_cast hrest'
    rw [Int.floor_eq_iff]
    constructor
    · linarith
    · linarith

theorem binary64_fits_div {n d : ℤ} (hn : 0 ≤ n) (hn' : n < 2 ^ 53) (hd : 0 < d)
    (hd' : d ≤ 2 ^ 53) : binary64.Fits ((n : ℚ) / d) := by
  obtain ⟨hlow, hhigh⟩ := Int.floor_eq_iff.1 (floor_round_div hn hn' hd hd')
  have hquot0 : (0 : ℚ) ≤ (n / d : ℤ) := by exact_mod_cast Int.ediv_nonneg hn hd.le
  have hquot : ((n / d : ℤ) : ℚ) < 2 ^ 53 := by
    exact_mod_cast (Int.ediv_le_self d hn).trans_lt hn'
  have hpow : (2 : ℚ) ^ 53 + 1 ≤ 2 ^ 54 := by norm_num
  have hbound : (2 : ℚ) ^ 54 ≤ 2 ^ 1024 := pow_le_pow_right₀ (by norm_num) (by norm_num)
  refine decide_eq_false (not_le.2 ?_)
  rw [abs_of_nonneg (hquot0.trans hlow)]
  calc binary64.round ((n : ℚ) / d) < (n / d : ℤ) + 1 := hhigh
    _ ≤ 2 ^ 53 + 1 := by gcongr
    _ ≤ 2 ^ 54 := hpow
    _ ≤ 2 ^ 1024 := hbound

theorem decimal?_digits {l : List Char} (hne : l ≠ []) (h : ∀ c ∈ l, c.isDigit = true) :
    decimal? l = some (Numeral.natural l : ℚ) := by
  have htake : l.takeWhile Char.isDigit = l := List.takeWhile_eq_self_iff.2 h
  have hdrop : l.dropWhile Char.isDigit = [] := List.dropWhile_eq_nil_iff.2 h
  simp only [decimal?, htake, hdrop]
  rw [if_neg fun hnil => hne hnil.1, exponent?, List.append_nil]
  simp

theorem nonDecimal?_digits {l : List Char} (h : ∀ c ∈ l, c.isDigit = true) :
    nonDecimal? l = none := by
  unfold nonDecimal?
  split
  · rename_i c l
    have hc : c.isDigit = true := h c (by simp)
    have hletters : ∀ letter ∈ ['x', 'X', 'o', 'O', 'b', 'B'], c ≠ letter := by
      rintro letter hletter rfl
      simp only [List.mem_cons, List.not_mem_nil, or_false] at hletter
      rcases hletter with rfl | rfl | rfl | rfl | rfl | rfl <;> cases hc
    simp only [List.forall_mem_cons] at hletters
    simp [hletters]
  · rfl

/-- **Digits are read as their number.** -/
theorem ofText_digits {l : List Char} (hne : l ≠ []) (h : ∀ c ∈ l, c.isDigit = true) :
    ofText l = binary64.result (Numeral.natural l) := by
  have hunsigned : unsigned l = binary64.result (Numeral.natural l) := by
    have hword : l ≠ "Infinity".toList := by
      rintro rfl
      exact absurd (h 'I' (by simp)) (by decide)
    rw [unsigned, if_neg hword, decimal?_digits hne h]
  unfold ofText
  split
  · exact absurd rfl hne
  · exact absurd (h '-' (by simp)) (by decide)
  · exact absurd (h '+' (by simp)) (by decide)
  · rw [nonDecimal?_digits h]
    exact hunsigned

end JsNumber
