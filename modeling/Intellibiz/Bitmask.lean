import Mathlib.Data.List.Basic
import Mathlib.Logic.Function.Basic

/-!
# Sets of flags in a machine word

* `Flags` — a numbering of flags by the bits of a word, each flag a bit of its own.
* `mask`, `Has` — the word of a list of flags, and the test of one flag in any word.

Principal results: `has_mask`, `and_mask_eq_mask_iff`, `and_mask_ne_zero_iff` (one comparison of
words decides a question about each flag of a list).
-/

namespace Intellibiz.Bitmask

/-- Flags numbered by the bits of a word of `w` bits. -/
structure Flags (w : ℕ) (α : Type*) where
  index : α → Fin w
  injective : Function.Injective index

namespace Flags

variable {w : ℕ} {α : Type*} (F : Flags w α)

/-- The word with the bit of one flag. -/
def bit (a : α) : BitVec w := BitVec.twoPow w (F.index a)

/-- The bits of a list of flags, from the left. -/
def mask (as : List α) : BitVec w := as.foldl (fun acc a => acc ||| F.bit a) 0

/-- The word holds the flag. -/
def Has (m : BitVec w) (a : α) : Prop := m &&& F.bit a ≠ 0

variable {F}

theorem getLsbD_bit (a : α) (i : ℕ) : (F.bit a).getLsbD i = decide ((F.index a : ℕ) = i) := by
  unfold bit
  rw [BitVec.getLsbD_twoPow]
  by_cases h : (F.index a : ℕ) = i
  · subst h
    simp [(F.index a).isLt]
  · simp [h]

/-- Two words meet when they share a bit. -/
theorem and_ne_zero_iff (x y : BitVec w) :
    x &&& y ≠ 0 ↔ ∃ i, x.getLsbD i = true ∧ y.getLsbD i = true := by
  constructor
  · intro h
    by_contra hnone
    push Not at hnone
    apply h
    apply BitVec.eq_of_getLsbD_eq
    intro i hi
    rw [BitVec.getLsbD_and]
    cases hx : x.getLsbD i with
    | false => simp
    | true =>
      rw [Bool.true_and, Bool.eq_false_iff.2 (hnone i hx)]
      simp
  · rintro ⟨i, hx, hy⟩ h
    have hbit := congrArg (fun z : BitVec w => z.getLsbD i) h
    simp only [BitVec.getLsbD_and, hx, hy, Bool.and_true] at hbit
    simp at hbit

/-- A flag is held when its own bit is set, whatever the others are. -/
theorem has_iff (m : BitVec w) (a : α) : F.Has m a ↔ m.getLsbD (F.index a) = true := by
  unfold Has
  rw [and_ne_zero_iff]
  constructor
  · rintro ⟨i, hm, hbit⟩
    rw [getLsbD_bit, decide_eq_true_eq] at hbit
    rwa [hbit]
  · intro hset
    exact ⟨F.index a, hset, by rw [getLsbD_bit, decide_eq_true rfl]⟩

theorem getLsbD_foldl (as : List α) (acc : BitVec w) (i : ℕ) :
    (as.foldl (fun acc a => acc ||| F.bit a) acc).getLsbD i = true ↔
      acc.getLsbD i = true ∨ ∃ a ∈ as, (F.index a : ℕ) = i := by
  induction as generalizing acc with
  | nil => simp
  | cons a as ih =>
    rw [List.foldl_cons, ih, BitVec.getLsbD_or, getLsbD_bit]
    simp [or_assoc]

theorem getLsbD_mask (as : List α) (i : ℕ) :
    (F.mask as).getLsbD i = true ↔ ∃ a ∈ as, (F.index a : ℕ) = i := by
  unfold mask
  rw [getLsbD_foldl]
  simp

/-- **A mask holds exactly the flags that it was made of.** -/
theorem has_mask (as : List α) (a : α) : F.Has (F.mask as) a ↔ a ∈ as := by
  rw [has_iff, getLsbD_mask]
  constructor
  · rintro ⟨b, hb, hindex⟩
    rwa [← F.injective (Fin.ext hindex)]
  · intro ha
    exact ⟨a, ha, rfl⟩

/-- **A word contains a mask when it holds each of its flags.** -/
theorem and_mask_eq_mask_iff (m : BitVec w) (as : List α) :
    m &&& F.mask as = F.mask as ↔ ∀ a ∈ as, F.Has m a := by
  constructor
  · intro h a ha
    have hbit := congrArg (fun x : BitVec w => x.getLsbD (F.index a)) h
    have hmask : (F.mask as).getLsbD (F.index a) = true := (getLsbD_mask as _).2 ⟨a, ha, rfl⟩
    simp only [BitVec.getLsbD_and, hmask, Bool.and_true] at hbit
    exact (has_iff m a).2 hbit
  · intro h
    apply BitVec.eq_of_getLsbD_eq
    intro i hi
    rw [BitVec.getLsbD_and]
    cases hmask : (F.mask as).getLsbD i with
    | false => rw [Bool.and_false]
    | true =>
      obtain ⟨a, ha, rfl⟩ := (getLsbD_mask as i).1 hmask
      rw [(has_iff m a).1 (h a ha), Bool.true_and]

/-- **A word meets a mask when it holds one of its flags.** -/
theorem and_mask_ne_zero_iff (m : BitVec w) (as : List α) :
    m &&& F.mask as ≠ 0 ↔ ∃ a ∈ as, F.Has m a := by
  rw [and_ne_zero_iff]
  constructor
  · rintro ⟨i, hset, hmask⟩
    obtain ⟨a, ha, rfl⟩ := (getLsbD_mask as i).1 hmask
    exact ⟨a, ha, (has_iff m a).2 hset⟩
  · rintro ⟨a, ha, hhas⟩
    exact ⟨F.index a, (has_iff m a).1 hhas, (getLsbD_mask as _).2 ⟨a, ha, rfl⟩⟩

end Flags

end Intellibiz.Bitmask
