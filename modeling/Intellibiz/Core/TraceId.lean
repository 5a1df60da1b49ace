import Intellibiz.FixedWidth
import Intellibiz.HexPairs

/-!
# Trace ids

Model of `createTraceId` and `isTraceId` (`packages/core/src/trace.ts`).

* `createTraceId` — the id at a reading of the clock, with eight random bytes.
* `isTraceId` — the pattern of an id, `ibiz_` with `trc` or `tst` and 28 digits.

Principal results: `isTraceId_createTraceId`, `traceIds_sorted`.
-/

namespace Intellibiz.Core

open FixedWidth (padded)

/-- `randomBytes(8)` -/
abbrev Random : Type := Vector UInt8 8

/-- `toString('hex')` of a byte. -/
def hexByte (b : UInt8) : List Char :=
  [Nat.digitChar (b.toNat / 16), Nat.digitChar (b.toNat % 16)]

def hexBytes (bytes : List UInt8) : List Char := bytes.flatMap hexByte

def createTraceId (now : ℕ) (random : Random) : List Char :=
  "ibiz_trc_".toList ++ (padded 16 12 now ++ hexBytes random.toList)

/-- `/^ibiz_(trc|tst)_[0-9a-f]{28}$/` -/
def isTraceId (value : List Char) : Bool :=
  (value.take 9 = "ibiz_trc_".toList || value.take 9 = "ibiz_tst_".toList) &&
    (value.drop 9).length = 28 && (value.drop 9).all fun c => HexPairs.digits.contains c

/-! ## Digits -/

theorem digitChar_mem {d : ℕ} (h : d < 16) : HexPairs.digits.contains (Nat.digitChar d) = true := by
  have hall : ∀ d : Fin 16, HexPairs.digits.contains (Nat.digitChar d) = true := by decide
  exact hall ⟨d, h⟩

theorem length_hexBytes (bytes : List UInt8) : (hexBytes bytes).length = 2 * bytes.length := by
  induction bytes with
  | nil => rfl
  | cons b bytes ih =>
    have hcons : hexBytes (b :: bytes) = hexByte b ++ hexBytes bytes := rfl
    rw [hcons, List.length_append, ih, List.length_cons]
    change 2 + _ = _
    omega

theorem mem_hexBytes {bytes : List UInt8} {c : Char} (h : c ∈ hexBytes bytes) :
    HexPairs.digits.contains c = true := by
  obtain ⟨b, -, hc⟩ := List.mem_flatMap.1 h
  have hb : b.toNat < 256 := b.toNat_lt
  rcases hc with _ | ⟨_, _ | ⟨_, ⟨⟩⟩⟩
  · exact digitChar_mem (by omega)
  · exact digitChar_mem (by omega)

/-! ## Ids -/

variable {now : ℕ}

/-- The 28 digits of an id. -/
theorem length_digits (h : now < 16 ^ 12) (random : Random) :
    (padded 16 12 now ++ hexBytes random.toList).length = 28 := by
  rw [List.length_append, FixedWidth.length_padded (by decide) (by decide) h, length_hexBytes,
    Vector.length_toList]

theorem length_createTraceId (h : now < 16 ^ 12) (random : Random) :
    (createTraceId now random).length = 37 := by
  unfold createTraceId
  rw [List.length_append, length_digits h]
  rfl

/-- **An id fits the pattern of ids.** -/
theorem isTraceId_createTraceId (h : now < 16 ^ 12) (random : Random) :
    isTraceId (createTraceId now random) = true := by
  have htake : (createTraceId now random).take 9 = "ibiz_trc_".toList := rfl
  have hdrop : (createTraceId now random).drop 9 =
      padded 16 12 now ++ hexBytes random.toList := rfl
  have hdigits : ((createTraceId now random).drop 9).all
      (fun c => HexPairs.digits.contains c) = true := by
    rw [hdrop, List.all_eq_true]
    intro c hc
    rcases List.mem_append.1 hc with hc | hc
    · obtain ⟨d, hd, rfl⟩ := FixedWidth.mem_padded (by decide) hc
      exact digitChar_mem hd
    · exact mem_hexBytes hc
  unfold isTraceId
  rw [hdigits, htake, hdrop, length_digits h]
  rfl

/-- **Ids sort by time**, whatever their random bytes are; each has 37 characters and is one. -/
theorem traceIds_sorted {t₁ t₂ : ℕ} (h : t₁ < t₂) (ht : t₂ < 16 ^ 12) (random₁ random₂ : Random) :
    createTraceId t₁ random₁ < createTraceId t₂ random₂ ∧
      (createTraceId t₁ random₁).length = 37 ∧ (createTraceId t₂ random₂).length = 37 ∧
      isTraceId (createTraceId t₁ random₁) = true ∧
      isTraceId (createTraceId t₂ random₂) = true := by
  refine ⟨?_, length_createTraceId (h.trans ht) random₁, length_createTraceId ht random₂,
    isTraceId_createTraceId (h.trans ht) random₁, isTraceId_createTraceId ht random₂⟩
  have hlt := FixedWidth.append_lt_of_padded (b := 16) (by decide) (by decide) (by decide) h ht
    (hexBytes random₁.toList) (hexBytes random₂.toList)
  exact List.append_left_lt hlt

/-- From fifteen to sixteen the number of digits grows, and the width does not. -/
theorem traceIds_fifteen_sixteen :
    createTraceId 15 (Vector.replicate 8 255) < createTraceId 16 (Vector.replicate 8 0) ∧
      (createTraceId 15 (Vector.replicate 8 255)).length = 37 ∧
      (createTraceId 16 (Vector.replicate 8 0)).length = 37 ∧
      isTraceId (createTraceId 15 (Vector.replicate 8 255)) = true ∧
      isTraceId (createTraceId 16 (Vector.replicate 8 0)) = true :=
  traceIds_sorted (by decide) (by decide) _ _

end Intellibiz.Core
