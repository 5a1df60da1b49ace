import Intellibiz.HexPairs
import Intellibiz.Utf8

/-!
# Percent-encoding and form bodies

* `percent` — a byte as `%XX`; `escape` writes a character as it is or as its percent-encoded
  UTF-8 bytes, `formEscape` writes a space as `+`.
* `replaceEscapes` — the escapes of a text replaced, each by its two digits.
* `component` — how a name or a value of a form body is read.
* `parse` — the names and values of an `application/x-www-form-urlencoded` body, in order.

Principal results: `replaceEscapes_escapes`, `formBytes_formEscape` (an escaped text is read back)
and its consequence `formEscape_injective`.
-/

namespace FormUrlencoded

open HexPairs

/-! ## Writing -/

def upperDigits : List Char :=
  ['0', '1', '2', '3', '4', '5', '6', '7', '8', '9', 'A', 'B', 'C', 'D', 'E', 'F']

def upperDigit (n : Nat) : Char := upperDigits.getD n '0'

def percent (b : UInt8) : List Char :=
  ['%', upperDigit (b.toNat / 16), upperDigit (b.toNat % 16)]

/-- A character that is kept, or the escapes of its bytes. -/
def escape (keep : Char → Bool) (c : Char) : List Char :=
  if keep c then [c] else (String.utf8EncodeChar c).flatMap percent

def formEscape (keep : Char → Bool) (c : Char) : List Char :=
  if c = ' ' then ['+'] else escape keep c

/-- None of the kept characters has a meaning in a form body. -/
def Plain (keep : Char → Bool) : Prop := ∀ c, keep c = true → c ∉ ['+', '%', '&', '=', ' ']

theorem plain_of_not_kept {keep : Char → Bool}
    (h : ∀ c ∈ ['+', '%', '&', '=', ' '], keep c = false) : Plain keep := by
  intro c hkeep hc
  rw [h c hc] at hkeep
  cases hkeep

theorem Plain.ne {keep : Char → Bool} (hplain : Plain keep) {c : Char} (hkeep : keep c = true) :
    c ≠ '+' ∧ c ≠ '%' ∧ c ≠ '&' ∧ c ≠ '=' ∧ c ≠ ' ' := by
  simpa using hplain c hkeep

theorem upperDigit_spec {n : Nat} (h : n < 16) :
    IsHex (upperDigit n) ∧ value (upperDigit n) = n ∧ upperDigit n ∈ upperDigits := by
  have hall : ∀ m < 16,
      IsHex (upperDigit m) ∧ value (upperDigit m) = m ∧ upperDigit m ∈ upperDigits := by decide
  exact hall n h

theorem percent_digits (b : UInt8) : b.toNat / 16 < 16 ∧ b.toNat % 16 < 16 := by
  have hb := b.toNat_lt
  omega

theorem byteOf_upperDigits (b : UInt8) :
    byteOf (upperDigit (b.toNat / 16), upperDigit (b.toNat % 16)) = b := by
  obtain ⟨hhigh, hlow⟩ := percent_digits b
  rw [byteOf, (upperDigit_spec hhigh).2.1, (upperDigit_spec hlow).2.1, Nat.div_add_mod]
  exact UInt8.ofNat_toNat

theorem mem_percent {b : UInt8} {c : Char} (h : c ∈ percent b) : c = '%' ∨ c ∈ upperDigits := by
  obtain ⟨hhigh, hlow⟩ := percent_digits b
  simp only [percent, List.mem_cons, List.not_mem_nil, or_false] at h
  rcases h with rfl | rfl | rfl
  · exact .inl rfl
  · exact .inr (upperDigit_spec hhigh).2.2
  · exact .inr (upperDigit_spec hlow).2.2

theorem mem_formEscape {keep : Char → Bool} {c d : Char} (h : d ∈ formEscape keep c) :
    d = '+' ∨ d = '%' ∨ d ∈ upperDigits ∨ keep d = true := by
  unfold formEscape escape at h
  split at h
  · exact .inl (List.mem_singleton.1 h)
  · split at h
    · rename_i hkeep
      rw [List.mem_singleton.1 h]
      exact .inr (.inr (.inr hkeep))
    · obtain ⟨b, _, hb⟩ := List.mem_flatMap.1 h
      rcases mem_percent hb with h | h
      · exact .inr (.inl h)
      · exact .inr (.inr (.inl h))

/-- An escaped text has none of the separators of a form body. -/
theorem separator_not_mem {keep : Char → Bool} (hplain : Plain keep) {d : Char}
    (hd : d ∈ ['&', '=']) (s : List Char) : d ∉ s.flatMap (formEscape keep) := by
  intro h
  obtain ⟨c, _, hc⟩ := List.mem_flatMap.1 h
  have hdigits : ∀ d ∈ ['&', '='], d ≠ '+' ∧ d ≠ '%' ∧ d ∉ upperDigits := by
    simp [upperDigits]
  obtain ⟨hplus, hpercent, hdigit⟩ := hdigits d hd
  rcases mem_formEscape hc with h | h | h | h
  · exact hplus h
  · exact hpercent h
  · exact hdigit h
  · obtain ⟨_, _, hand, heq, _⟩ := hplain.ne h
    rcases List.mem_pair.1 hd with rfl | rfl
    · exact hand rfl
    · exact heq rfl

/-! ## Rewriting escapes -/

/-- Each `%` with two characters after it is replaced where `f` has a text for the two. -/
def replaceEscapes (f : Char → Char → Option (List Char)) : List Char → List Char
  | c :: a :: b :: rest =>
    match if c = '%' then f a b else none with
    | some text => text ++ replaceEscapes f rest
    | none => c :: replaceEscapes f (a :: b :: rest)
  | c :: rest => c :: replaceEscapes f rest
  | [] => []

/-- What becomes of the escape of a byte. -/
def replaced (f : Char → Char → Option (List Char)) (b : UInt8) : List Char :=
  (f (upperDigit (b.toNat / 16)) (upperDigit (b.toNat % 16))).getD (percent b)

theorem replaceEscapes_cons {c : Char} (h : c ≠ '%') (f : Char → Char → Option (List Char))
    (rest : List Char) : replaceEscapes f (c :: rest) = c :: replaceEscapes f rest := by
  match rest with
  | [] => rfl
  | [a] => rfl
  | a :: b :: rest => rw [replaceEscapes, if_neg h]

theorem replaceEscapes_percent (f : Char → Char → Option (List Char)) (b : UInt8)
    (rest : List Char) :
    replaceEscapes f (percent b ++ rest) = replaced f b ++ replaceEscapes f rest := by
  obtain ⟨hhigh, hlow⟩ := percent_digits b
  have hdigits : ∀ d ∈ upperDigits, d ≠ '%' := by simp [upperDigits]
  show replaceEscapes f ('%' :: upperDigit (b.toNat / 16) :: upperDigit (b.toNat % 16) :: rest) = _
  rw [replaceEscapes, if_pos rfl, replaced]
  cases f (upperDigit (b.toNat / 16)) (upperDigit (b.toNat % 16)) with
  | some text => rfl
  | none =>
    dsimp only
    rw [replaceEscapes_cons (hdigits _ (upperDigit_spec hhigh).2.2),
      replaceEscapes_cons (hdigits _ (upperDigit_spec hlow).2.2)]
    rfl

/-- **The escapes of a text are replaced one by one.** -/
theorem replaceEscapes_escapes (f : Char → Char → Option (List Char)) (bs : List UInt8)
    (rest : List Char) :
    replaceEscapes f (bs.flatMap percent ++ rest) =
      bs.flatMap (replaced f) ++ replaceEscapes f rest := by
  induction bs with
  | nil => rfl
  | cons b bs ih =>
    rw [List.flatMap_cons, List.append_assoc, replaceEscapes_percent, ih, List.flatMap_cons,
      List.append_assoc]

/-! ## Reading -/

def plusToSpace (s : List Char) : List Char := s.map fun c => if c = '+' then ' ' else c

/-- The bytes of a text in which a `%` with two digits after it stands for a byte. -/
def percentDecode : List Char → List UInt8
  | c :: a :: b :: rest =>
    if c = '%' ∧ IsHex a ∧ IsHex b then byteOf (a, b) :: percentDecode rest
    else String.utf8EncodeChar c ++ percentDecode (a :: b :: rest)
  | c :: rest => String.utf8EncodeChar c ++ percentDecode rest
  | [] => []

def formBytes (s : List Char) : List UInt8 := percentDecode (plusToSpace s)

def component (s : List Char) : List Char := Utf8.decode (formBytes s)

/-- A name, and what follows the first `=`. -/
def parsePiece (piece : List Char) : List Char × List Char :=
  (component (piece.takeWhile (· ≠ '=')), component ((piece.dropWhile (· ≠ '=')).drop 1))

def parse (s : List Char) : List (List Char × List Char) :=
  ((s.splitOn '&').filter (· ≠ [])).map parsePiece

theorem percentDecode_percent (b : UInt8) (rest : List Char) :
    percentDecode (percent b ++ rest) = b :: percentDecode rest := by
  obtain ⟨hhigh, hlow⟩ := percent_digits b
  show percentDecode ('%' :: upperDigit (b.toNat / 16) :: upperDigit (b.toNat % 16) :: rest) = _
  rw [percentDecode, if_pos ⟨rfl, (upperDigit_spec hhigh).1, (upperDigit_spec hlow).1⟩,
    byteOf_upperDigits]

theorem percentDecode_cons {c : Char} (h : c ≠ '%') (rest : List Char) :
    percentDecode (c :: rest) = String.utf8EncodeChar c ++ percentDecode rest := by
  match rest with
  | [] => rfl
  | [a] => rfl
  | a :: b :: rest =>
    rw [percentDecode, if_neg]
    exact fun hc => h hc.1

theorem percentDecode_escapes (bs : List UInt8) (rest : List Char) :
    percentDecode (bs.flatMap percent ++ rest) = bs ++ percentDecode rest := by
  induction bs with
  | nil => rfl
  | cons b bs ih =>
    rw [List.flatMap_cons, List.append_assoc, percentDecode_percent, ih, List.cons_append]

theorem plusToSpace_of_not_mem {s : List Char} (h : '+' ∉ s) : plusToSpace s = s := by
  refine (List.map_congr_left fun c hc => ?_).trans (List.map_id' _)
  rw [if_neg]
  rintro rfl
  exact h hc

theorem formBytes_formEscape_cons {keep : Char → Bool} (hplain : Plain keep) (c : Char)
    (rest : List Char) :
    formBytes (formEscape keep c ++ rest) = String.utf8EncodeChar c ++ formBytes rest := by
  unfold formBytes formEscape escape
  rw [plusToSpace, List.map_append, ← plusToSpace, ← plusToSpace]
  split
  · rename_i hspace
    subst hspace
    exact percentDecode_cons (by decide) _
  · split
    · rename_i hkeep
      obtain ⟨hplus, hpercent, _⟩ := hplain.ne hkeep
      rw [plusToSpace_of_not_mem (by simpa using hplus.symm)]
      exact percentDecode_cons hpercent _
    · rw [plusToSpace_of_not_mem, percentDecode_escapes]
      intro h
      obtain ⟨b, _, hb⟩ := List.mem_flatMap.1 h
      rcases mem_percent hb with h | h
      · exact absurd h (by decide)
      · exact absurd h (by decide)

/-- **An escaped text is read back.** -/
theorem formBytes_formEscape {keep : Char → Bool} (hplain : Plain keep) (s : List Char) :
    formBytes (s.flatMap (formEscape keep)) = Utf8.encode s := by
  induction s with
  | nil => rfl
  | cons c s ih =>
    rw [List.flatMap_cons, formBytes_formEscape_cons hplain, ih]
    rfl

theorem formEscape_injective {keep : Char → Bool} (hplain : Plain keep) :
    Function.Injective fun s : List Char => s.flatMap (formEscape keep) := by
  intro s t h
  have hbytes := congrArg formBytes h
  rw [formBytes_formEscape hplain, formBytes_formEscape hplain] at hbytes
  exact Utf8.encode_injective hbytes

end FormUrlencoded
