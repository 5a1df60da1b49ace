import Mathlib.Algebra.Ring.Nat
import Mathlib.Data.List.Lex

/-!
# Numbers of fixed width and their order

* `padded` — a number in base `b`, with zeros in front to at least `k` digits.

Principal results: `length_padded`, `mem_padded` and `append_lt_of_padded` (texts that begin with
numbers of one width are ordered like the numbers).
-/

namespace FixedWidth

/-- The digits of `n` in base `b`, at least `k` of them. -/
def padded (b k n : ℕ) : List Char :=
  List.replicate (k - (Nat.toDigits b n).length) '0' ++ Nat.toDigits b n

variable {b k n m : ℕ}

/-! ## Digits -/

theorem digitChar_lt {d e : ℕ} (h : d < e) (he : e < 16) : Nat.digitChar d < Nat.digitChar e := by
  have hall : ∀ e : Fin 16, ∀ d : Fin 16, d < e → Nat.digitChar d < Nat.digitChar e := by decide
  exact hall ⟨e, he⟩ ⟨d, h.trans he⟩ h

theorem mem_toDigits (hb : 1 < b) {c : Char} (h : c ∈ Nat.toDigits b n) :
    ∃ d < b, c = Nat.digitChar d := by
  induction n using Nat.strong_induction_on with
  | _ n ih =>
    rw [Nat.toDigits_eq_if hb] at h
    split at h
    · rename_i hn
      exact ⟨n, hn, List.mem_singleton.1 h⟩
    · rename_i hn
      rcases List.mem_append.1 h with h | h
      · exact ih (n / b) (Nat.div_lt_self (by omega) hb) h
      · exact ⟨n % b, Nat.mod_lt n (by omega), List.mem_singleton.1 h⟩

theorem mem_padded (hb : 1 < b) {c : Char} (h : c ∈ padded b k n) :
    ∃ d < b, c = Nat.digitChar d := by
  rcases List.mem_append.1 h with h | h
  · exact ⟨0, by omega, List.eq_of_mem_replicate h⟩
  · exact mem_toDigits hb h

theorem length_padded (hb : 1 < b) (hk : 0 < k) (h : n < b ^ k) : (padded b k n).length = k := by
  have hle := (Nat.length_toDigits_le_iff hb hk).2 h
  unfold padded
  rw [List.length_append, List.length_replicate]
  omega

theorem padded_one (h : n < b) : padded b 1 n = [Nat.digitChar n] := by
  unfold padded
  rw [Nat.toDigits_of_lt_base h]
  rfl

/-- The last digit of a number, behind the others. -/
theorem padded_succ (hb : 1 < b) (hk : 0 < k) :
    padded b (k + 1) n = padded b k (n / b) ++ [Nat.digitChar (n % b)] := by
  unfold padded
  by_cases hn : n < b
  · -- all digits in front of the only one are padding
    rw [Nat.div_eq_of_lt hn, Nat.mod_eq_of_lt hn, Nat.toDigits_of_lt_base hn, Nat.toDigits_zero]
    obtain ⟨j, rfl⟩ := Nat.exists_eq_succ_of_ne_zero hk.ne'
    simp [List.replicate_succ']
  · rw [Nat.toDigits_of_base_le hb (Nat.not_lt.1 hn), List.length_append, List.length_singleton,
      Nat.add_sub_add_right, List.append_assoc]

/-! ## Order -/

/-- What decides the order of two texts of one length decides it whatever follows them. -/
theorem append_lt_append {l m : List Char} (h : l < m) (hlen : l.length = m.length)
    (s t : List Char) : l ++ s < m ++ t := by
  induction h with
  | nil => simp at hlen
  | cons _ ih => exact List.Lex.cons (ih (Nat.succ.inj hlen))
  | rel hlt => exact List.Lex.rel hlt

theorem padded_lt_padded (hb : 1 < b) (hb' : b ≤ 16) (hk : 0 < k) (h : n < m) (hm : m < b ^ k) :
    padded b k n < padded b k m := by
  induction k, hk using Nat.le_induction generalizing n m with
  | base =>
    change m < b ^ 1 at hm
    change padded b 1 n < padded b 1 m
    rw [Nat.pow_one] at hm
    rw [padded_one (h.trans hm), padded_one hm]
    exact List.Lex.rel (digitChar_lt h (hm.trans_le hb'))
  | succ k hk ih =>
    have hdiv : m / b < b ^ k := by
      rw [Nat.div_lt_iff_lt_mul (by omega), ← Nat.pow_succ]
      exact hm
    rw [padded_succ hb hk, padded_succ hb hk]
    rcases (Nat.div_le_div_right h.le : n / b ≤ m / b).lt_or_eq with hlt | heq
    · refine append_lt_append (ih hlt hdiv) ?_ _ _
      rw [length_padded hb hk (hlt.trans hdiv), length_padded hb hk hdiv]
    · have hmod : n % b < m % b := by
        have hn := Nat.div_add_mod n b
        have hm := Nat.div_add_mod m b
        rw [heq] at hn
        omega
      rw [heq]
      have hlast := digitChar_lt hmod ((Nat.mod_lt m (by omega)).trans_le hb')
      exact List.append_left_lt (List.Lex.rel hlast)

/-- **Texts that begin with numbers of one width are ordered like the numbers.** -/
theorem append_lt_of_padded (hb : 1 < b) (hb' : b ≤ 16) (hk : 0 < k) (h : n < m) (hm : m < b ^ k)
    (s t : List Char) : padded b k n ++ s < padded b k m ++ t := by
  refine append_lt_append (padded_lt_padded hb hb' hk h hm) ?_ s t
  rw [length_padded hb hk (h.trans hm), length_padded hb hk hm]

end FixedWidth
