import Mathlib.Data.List.Basic
import Mathlib.Data.Char

/-!
# UTF-8 with replacement

* `encode` — the UTF-8 bytes of a text.
* `decode` — bytes read as UTF-8, byte by byte; each longest part of a sequence that cannot be
  completed is read as U+FFFD.

Principal results: `decode_encode` and `encode_injective`.
-/

namespace Utf8

def encode (s : List Char) : List UInt8 := s.flatMap String.utf8EncodeChar

def replacement : Char := '\ufffd'

/-- A sequence that was begun: how many bytes are missing, the range of the next one, and the value
so far. -/
structure Pending where
  needed : Nat
  lower : Nat
  upper : Nat
  codePoint : Nat

/-- A byte between two sequences. -/
def first (b : UInt8) : List Char × Option Pending :=
  let n := b.toNat
  if n ≤ 0x7F then ([Char.ofNat n], none)
  else if 0xC2 ≤ n ∧ n ≤ 0xDF then ([], some ⟨1, 0x80, 0xBF, n - 0xC0⟩)
  else if 0xE0 ≤ n ∧ n ≤ 0xEF then
    ([], some ⟨2, if n = 0xE0 then 0xA0 else 0x80, if n = 0xED then 0x9F else 0xBF, n - 0xE0⟩)
  else if 0xF0 ≤ n ∧ n ≤ 0xF4 then
    ([], some ⟨3, if n = 0xF0 then 0x90 else 0x80, if n = 0xF4 then 0x8F else 0xBF, n - 0xF0⟩)
  else ([replacement], none)

/-- A byte within a sequence; one out of range ends it and is read again. -/
def next (p : Pending) (b : UInt8) : List Char × Option Pending :=
  let n := b.toNat
  if p.lower ≤ n ∧ n ≤ p.upper then
    let codePoint := p.codePoint * 64 + (n - 0x80)
    if p.needed = 1 then ([Char.ofNat codePoint], none)
    else ([], some ⟨p.needed - 1, 0x80, 0xBF, codePoint⟩)
  else
    let (out, pending) := first b
    (replacement :: out, pending)

def decodeFrom : Option Pending → List UInt8 → List Char
  | none, [] => []
  | some _, [] => [replacement]
  | none, b :: bs => (first b).1 ++ decodeFrom (first b).2 bs
  | some p, b :: bs => (next p b).1 ++ decodeFrom (next p b).2 bs

def decode (bs : List UInt8) : List Char := decodeFrom none bs

/-! ## Round trip -/

theorem toNat_ofNat {n : Nat} (h : n < 256) : (UInt8.ofNat n).toNat = n := by
  rw [UInt8.toNat_ofNat', Nat.mod_eq_of_lt h]

theorem first_ascii {n : Nat} (h : n ≤ 0x7F) :
    first (UInt8.ofNat n) = ([Char.ofNat n], none) := by
  unfold first
  rw [toNat_ofNat (by omega)]
  exact if_pos h

theorem first_two {n : Nat} (h : 0xC2 ≤ n ∧ n ≤ 0xDF) :
    first (UInt8.ofNat n) = ([], some ⟨1, 0x80, 0xBF, n - 0xC0⟩) := by
  unfold first
  rw [toNat_ofNat (by omega)]
  dsimp only
  rw [if_neg (by omega), if_pos h]

theorem first_three {n : Nat} (h : 0xE0 ≤ n ∧ n ≤ 0xEF) :
    first (UInt8.ofNat n) = ([], some ⟨2, if n = 0xE0 then 0xA0 else 0x80,
      if n = 0xED then 0x9F else 0xBF, n - 0xE0⟩) := by
  unfold first
  rw [toNat_ofNat (by omega)]
  dsimp only
  rw [if_neg (by omega), if_neg (by omega), if_pos h]

theorem first_four {n : Nat} (h : 0xF0 ≤ n ∧ n ≤ 0xF4) :
    first (UInt8.ofNat n) = ([], some ⟨3, if n = 0xF0 then 0x90 else 0x80,
      if n = 0xF4 then 0x8F else 0xBF, n - 0xF0⟩) := by
  unfold first
  rw [toNat_ofNat (by omega)]
  dsimp only
  rw [if_neg (by omega), if_neg (by omega), if_neg (by omega), if_pos h]

theorem next_done {lower upper value n : Nat} (hn : n < 256) (h : lower ≤ n ∧ n ≤ upper) :
    next ⟨1, lower, upper, value⟩ (UInt8.ofNat n) =
      ([Char.ofNat (value * 64 + (n - 0x80))], none) := by
  unfold next
  rw [toNat_ofNat hn]
  exact if_pos h

theorem next_more {needed lower upper value n : Nat} (hn : n < 256) (h : lower ≤ n ∧ n ≤ upper)
    (hneeded : needed ≠ 1) :
    next ⟨needed, lower, upper, value⟩ (UInt8.ofNat n) =
      ([], some ⟨needed - 1, 0x80, 0xBF, value * 64 + (n - 0x80)⟩) := by
  unfold next
  rw [toNat_ofNat hn]
  dsimp only
  rw [if_pos h, if_neg hneeded]

/-- The bytes of a code point. -/
def sequence (v : Nat) : List UInt8 :=
  if v ≤ 127 then [UInt8.ofNat v]
  else if v ≤ 2047 then [UInt8.ofNat (v / 64 % 32 + 192), UInt8.ofNat (v % 64 + 128)]
  else if v ≤ 65535 then
    [UInt8.ofNat (v / 4096 % 16 + 224), UInt8.ofNat (v / 64 % 64 + 128),
      UInt8.ofNat (v % 64 + 128)]
  else
    [UInt8.ofNat (v / 262144 % 8 + 240), UInt8.ofNat (v / 4096 % 64 + 128),
      UInt8.ofNat (v / 64 % 64 + 128), UInt8.ofNat (v % 64 + 128)]

theorem utf8EncodeChar_eq (c : Char) : String.utf8EncodeChar c = sequence c.toNat := rfl

theorem decodeFrom_sequence {v : Nat} (hv : v.isValidChar) (bs : List UInt8) :
    decodeFrom none (sequence v ++ bs) = Char.ofNat v :: decodeFrom none bs := by
  simp only [Nat.isValidChar] at hv
  unfold sequence
  split
  · rename_i h1
    rw [List.singleton_append, decodeFrom, first_ascii h1]
    rfl
  · split
    · rename_i h1 h2
      have hvalue : (v / 64 % 32 + 192 - 0xC0) * 64 + (v % 64 + 128 - 0x80) = v := by omega
      rw [List.cons_append, List.cons_append, List.nil_append, decodeFrom,
        first_two (by omega), decodeFrom, next_done (by omega) (by omega), hvalue]
      rfl
    · split
      · rename_i h1 h2 h3
        have hvalue : ((v / 4096 % 16 + 224 - 0xE0) * 64 + (v / 64 % 64 + 128 - 0x80)) * 64 +
            (v % 64 + 128 - 0x80) = v := by omega
        rw [List.cons_append, List.cons_append, List.cons_append, List.nil_append, decodeFrom,
          first_three (by omega), decodeFrom, next_more (by omega) (by split <;> split <;> omega)
          (by decide), decodeFrom, next_done (by omega) (by omega), hvalue]
        rfl
      · rename_i h1 h2 h3
        have hvalue : (((v / 262144 % 8 + 240 - 0xF0) * 64 + (v / 4096 % 64 + 128 - 0x80)) * 64 +
            (v / 64 % 64 + 128 - 0x80)) * 64 + (v % 64 + 128 - 0x80) = v := by omega
        rw [List.cons_append, List.cons_append, List.cons_append, List.cons_append,
          List.nil_append, decodeFrom, first_four (by omega), decodeFrom,
          next_more (by omega) (by split <;> split <;> omega) (by decide), decodeFrom,
          next_more (by omega) (by omega) (by decide), decodeFrom,
          next_done (by omega) (by omega), hvalue]
        rfl

/-- **Round trip.** -/
theorem decode_encode (s : List Char) : decode (encode s) = s := by
  unfold decode encode
  induction s with
  | nil => rfl
  | cons c s ih =>
    have hvalid : c.toNat.isValidChar := c.valid
    rw [List.flatMap_cons, utf8EncodeChar_eq, decodeFrom_sequence hvalid, ih]
    exact congrArg (· :: s) (Char.ofNat_toNat c)

theorem encode_injective : Function.Injective encode := by
  intro s t h
  rw [← decode_encode s, h, decode_encode]

/-- The bytes of a character outside ASCII are outside ASCII. -/
theorem le_of_mem_sequence {v : Nat} (hv : 127 < v) {b : UInt8} (h : b ∈ sequence v) :
    128 ≤ b.toNat := by
  unfold sequence at h
  rw [if_neg (by omega)] at h
  have hbyte : ∀ n, 128 ≤ n → n < 256 → 128 ≤ (UInt8.ofNat n).toNat := by
    intro n hn hlt
    rw [toNat_ofNat hlt]
    exact hn
  split at h
  · rcases List.mem_pair.1 h with rfl | rfl <;> exact hbyte _ (by omega) (by omega)
  · split at h
    · simp only [List.mem_cons, List.not_mem_nil, or_false] at h
      rcases h with rfl | rfl | rfl <;> exact hbyte _ (by omega) (by omega)
    · simp only [List.mem_cons, List.not_mem_nil, or_false] at h
      rcases h with rfl | rfl | rfl | rfl <;> exact hbyte _ (by omega) (by omega)

/-- A byte of ASCII stands for its character. -/
theorem eq_of_mem_utf8EncodeChar {c : Char} {b : UInt8} (hb : b.toNat < 128)
    (h : b ∈ String.utf8EncodeChar c) : c.toNat = b.toNat := by
  rw [utf8EncodeChar_eq] at h
  by_cases hc : c.toNat ≤ 127
  · rw [sequence, if_pos hc, List.mem_singleton] at h
    rw [h, toNat_ofNat (by omega)]
  · have hge := le_of_mem_sequence (by omega) h
    omega

end Utf8
