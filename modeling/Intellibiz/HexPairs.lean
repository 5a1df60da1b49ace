import Mathlib.Data.List.Basic
import Mathlib.Data.Char

/-!
# Hexadecimal digit pairs

* `value?` — the value of a hexadecimal digit, of either case.
* `pairs` — the digit pairs that a text begins with; `leading` is that part of the text, `bytes`
  are the values of the pairs.
* `EvenHex` — a text that consists of digit pairs.
* `EqIgnoringCase` — texts that differ at most in the case of ASCII letters.

Principal results: `bytes_eq_iff` (texts that denote the same bytes) and `leading_eq_self_iff`.
-/

namespace HexPairs

/-! ## Digits -/

def digits : List Char :=
  ['0', '1', '2', '3', '4', '5', '6', '7', '8', '9', 'a', 'b', 'c', 'd', 'e', 'f']

def value? (c : Char) : Option Nat := digits.idxOf? c.toLower

def IsHex (c : Char) : Prop := (value? c).isSome

instance (c : Char) : Decidable (IsHex c) := inferInstanceAs (Decidable (_ = true))

/-- The value of a digit. -/
def value (c : Char) : Nat := (value? c).getD 0

theorem value_spec {c : Char} (h : IsHex c) : value c < 16 ∧ digits[value c]? = some c.toLower := by
  obtain ⟨x, hx⟩ := Option.isSome_iff_exists.1 h
  obtain ⟨hlt, hbeq, _⟩ := List.findIdx?_eq_some_iff_getElem.1 hx
  have heq : digits[x] = c.toLower := by simpa using hbeq
  rw [value, hx, Option.getD_some]
  exact ⟨hlt, by rw [List.getElem?_eq_getElem hlt, heq]⟩

/-- Digits have the same value if they differ at most in case. -/
theorem value_eq_iff {c d : Char} (hc : IsHex c) (hd : IsHex d) :
    value c = value d ↔ c.toLower = d.toLower := by
  constructor
  · intro h
    have hdigit := (value_spec hc).2
    rw [h, (value_spec hd).2] at hdigit
    exact (Option.some.inj hdigit).symm
  · intro h
    rw [value, value, value?, value?, h]

/-! ## Pairs -/

/-- The digit pairs before the first pair that has no value. -/
def pairs : List Char → List (Char × Char)
  | c :: d :: rest => if IsHex c ∧ IsHex d then (c, d) :: pairs rest else []
  | _ => []

def byteOf (p : Char × Char) : UInt8 := UInt8.ofNat (16 * value p.1 + value p.2)

def bytes (s : List Char) : List UInt8 := (pairs s).map byteOf

def leading (s : List Char) : List Char := (pairs s).flatMap fun p => [p.1, p.2]

/-- An even number of hexadecimal digits. -/
def EvenHex (s : List Char) : Prop := s.length % 2 = 0 ∧ ∀ c ∈ s, IsHex c

instance (s : List Char) : Decidable (EvenHex s) :=
  haveI : Decidable (∀ c ∈ s, IsHex c) := List.decidableBAll _ _
  inferInstanceAs (Decidable (_ ∧ _))

def EqIgnoringCase (s t : List Char) : Prop := s.map Char.toLower = t.map Char.toLower

instance (s t : List Char) : Decidable (EqIgnoringCase s t) :=
  inferInstanceAs (Decidable (_ = _))

theorem mem_pairs {s : List Char} {p : Char × Char} (h : p ∈ pairs s) :
    IsHex p.1 ∧ IsHex p.2 := by
  induction s using pairs.induct with
  | case1 c d rest hhex ih =>
    rw [pairs, if_pos hhex] at h
    rcases List.mem_cons.1 h with rfl | h
    · exact hhex
    · exact ih h
  | case2 c d rest hhex =>
    rw [pairs, if_neg hhex] at h
    cases h
  | case3 s hshort =>
    rw [pairs] at h
    · cases h
    · exact hshort

theorem evenHex_cons_cons {c d : Char} {rest : List Char} :
    EvenHex (c :: d :: rest) ↔ (IsHex c ∧ IsHex d) ∧ EvenHex rest := by
  simp only [EvenHex, List.length_cons, List.forall_mem_cons, and_assoc]
  constructor
  · rintro ⟨hlength, hc, hd, hrest⟩
    exact ⟨hc, hd, by omega, hrest⟩
  · rintro ⟨hc, hd, hlength, hrest⟩
    exact ⟨by omega, hc, hd, hrest⟩

theorem leading_eq_self_iff {s : List Char} : leading s = s ↔ EvenHex s := by
  induction s using pairs.induct with
  | case1 c d rest hhex ih =>
    rw [leading, pairs, if_pos hhex, List.flatMap_cons, evenHex_cons_cons, ← ih]
    simp [hhex, leading]
  | case2 c d rest hhex =>
    rw [leading, pairs, if_neg hhex, evenHex_cons_cons]
    simp [hhex]
  | case3 s hshort =>
    match s, hshort with
    | [], _ => simp [leading, pairs, EvenHex]
    | [c], _ => simp [leading, pairs, EvenHex]
    | c :: d :: rest, hshort => exact absurd rfl (hshort c d rest)

/-! ## Equal bytes -/

theorem byteOf_eq_iff {p q : Char × Char} (hp : IsHex p.1 ∧ IsHex p.2)
    (hq : IsHex q.1 ∧ IsHex q.2) :
    byteOf p = byteOf q ↔ p.1.toLower = q.1.toLower ∧ p.2.toLower = q.2.toLower := by
  rw [← value_eq_iff hp.1 hq.1, ← value_eq_iff hp.2 hq.2]
  have h₁ := (value_spec hp.1).1
  have h₂ := (value_spec hp.2).1
  have h₃ := (value_spec hq.1).1
  have h₄ := (value_spec hq.2).1
  constructor
  · intro h
    have hnat := congrArg UInt8.toNat h
    simp only [byteOf, UInt8.toNat_ofNat'] at hnat
    omega
  · rintro ⟨hfirst, hsecond⟩
    rw [byteOf, byteOf, hfirst, hsecond]

theorem map_byteOf_eq_iff {ps qs : List (Char × Char)} (hps : ∀ p ∈ ps, IsHex p.1 ∧ IsHex p.2)
    (hqs : ∀ q ∈ qs, IsHex q.1 ∧ IsHex q.2) :
    ps.map byteOf = qs.map byteOf ↔
      EqIgnoringCase (ps.flatMap fun p => [p.1, p.2]) (qs.flatMap fun q => [q.1, q.2]) := by
  unfold EqIgnoringCase
  induction ps generalizing qs with
  | nil => cases qs <;> simp
  | cons p ps ih =>
    cases qs with
    | nil => simp
    | cons q qs =>
      have hbyte := byteOf_eq_iff (hps p (by simp)) (hqs q (by simp))
      have hrest := ih (fun x hx => hps x (List.mem_cons_of_mem p hx))
        (fun x hx => hqs x (List.mem_cons_of_mem q hx))
      simp only [List.map_cons, List.cons.injEq, hbyte, hrest, List.flatMap_cons,
        List.cons_append, List.nil_append, and_assoc]

/-- **Texts that denote the same bytes**: their leading pairs are the same but for case. -/
theorem bytes_eq_iff {s t : List Char} :
    bytes s = bytes t ↔ EqIgnoringCase (leading s) (leading t) :=
  map_byteOf_eq_iff (fun _ => mem_pairs) (fun _ => mem_pairs)

theorem bytes_eq_nil_iff {s : List Char} : bytes s = [] ↔ leading s = [] := by
  unfold bytes leading
  cases pairs s <;> simp

/-! ## Lower-case digests -/

/-- A digest of `n` lower-case digits. -/
def LowerHex (n : Nat) (s : String) : Prop := s.toList.length = n ∧ ∀ c ∈ s.toList, c ∈ digits

instance (n : Nat) (s : String) : Decidable (LowerHex n s) :=
  haveI : Decidable (∀ c ∈ s.toList, c ∈ digits) := List.decidableBAll _ _
  inferInstanceAs (Decidable (_ ∧ _))

/-- A table of digests; what is not in it has the digest `00…0`. -/
def recorded {α : Type} [BEq α] (n : Nat) (table : List (α × String)) (a : α) : String :=
  (table.lookup a).getD (String.ofList (List.replicate n '0'))

theorem lowerHex_recorded {α : Type} [BEq α] [LawfulBEq α] {n : Nat} {table : List (α × String)}
    (h : ∀ e ∈ table, LowerHex n e.2) (a : α) : LowerHex n (recorded n table a) := by
  unfold recorded
  cases hlookup : table.lookup a with
  | none =>
    rw [Option.getD_none, LowerHex, String.toList_ofList, List.length_replicate]
    refine ⟨rfl, fun c hc => ?_⟩
    rw [List.eq_of_mem_replicate hc]
    decide
  | some digest =>
    obtain ⟨before, after, rfl, _⟩ := List.lookup_eq_some_iff.1 hlookup
    exact h (a, digest) (by simp)

theorem isHex_of_mem_digits {c : Char} (h : c ∈ digits) : IsHex c ∧ c.toLower = c := by
  simp only [digits, List.mem_cons, List.not_mem_nil, or_false] at h
  rcases h with rfl | rfl | rfl | rfl | rfl | rfl | rfl | rfl | rfl | rfl | rfl | rfl | rfl | rfl |
    rfl | rfl <;> exact ⟨rfl, rfl⟩

theorem LowerHex.evenHex {n : Nat} {s : String} (h : LowerHex n s) (hn : n % 2 = 0) :
    EvenHex s.toList :=
  ⟨by rw [h.1, hn], fun c hc => (isHex_of_mem_digits (h.2 c hc)).1⟩

theorem LowerHex.map_toLower {n : Nat} {s : String} (h : LowerHex n s) :
    s.toList.map Char.toLower = s.toList :=
  (List.map_congr_left fun c hc => (isHex_of_mem_digits (h.2 c hc)).2).trans (List.map_id' _)

end HexPairs
