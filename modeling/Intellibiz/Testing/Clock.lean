import Intellibiz.Db.Template
import Intellibiz.JsNumber

/-!
# The virtual clock of the test helpers

Model of `packages/testing/src/time-travel.ts`: numbers are those of JavaScript, with every sum
rounded, and the real clock is held fixed.

* `parseDuration` — a duration as milliseconds.
* `Clock`, `Call` — the offset and the frozen instant, and the calls that change them; one that
  throws changes nothing.
* `Reflects` — the states and durations of which the readings of the clock show an advance.

Principal results: `advance_obeyed_iff` and `advance_frozen_lost`.
-/

namespace Intellibiz.Testing

open Extended JsNumber
open Db (Text)

/-! ## Durations -/

/-- The factor of a unit; milliseconds are not multiplied. -/
def factors : List (Text × ℚ) :=
  [("s".toList, 1000), ("m".toList, 60000), ("h".toList, 3600000), ("d".toList, 86400000),
   ("w".toList, 604800000), ("y".toList, 31536000000)]

def invalidDuration (duration : Text) : Text :=
  "Invalid duration format: '".toList ++ duration ++
    "'. Use '30d', '2h', '15m', '1y', '500ms', '30s', '2w'.".toList

/-- `/^(\d+)(ms|s|m|h|d|w|y)$/` -/
def parseDuration (duration : Text) : Except Text Extended :=
  let amount := duration.takeWhile Char.isDigit
  let unit := duration.dropWhile Char.isDigit
  let n := binary64.result (Numeral.natural amount)
  if amount = [] then .error (invalidDuration duration)
  else if unit = "ms".toList then .ok n
  else
    match factors.lookup unit with
    | some factor => .ok (binary64.mul n (finite factor))
    | none => .error (invalidDuration duration)

/-! ## The clock -/

structure Clock where
  offset : Extended
  frozenAt : Option Extended
  deriving DecidableEq

inductive Call where
  | advance (duration : Text)
  | freeze (timestampMs : Extended)
  | advanceFromFrozen (duration : Text)
  | reset

def initial : Clock := ⟨finite 0, none⟩

def notFrozen : Text :=
  "advanceFromFrozen: clock is not frozen. Call time.freeze() first.".toList

section Readings

-- the real clock, a whole number of milliseconds
variable (now : ℤ)

def virtualNow (s : Clock) : Extended :=
  match s.frozenAt with
  | some t => t
  | none => binary64.add (finite now) s.offset

def advance (s : Clock) (duration : Text) : Except Text Clock := do
  let ms ← parseDuration duration
  return { s with offset := binary64.add s.offset ms }

def freeze (_ : Clock) (timestampMs : Extended) : Clock where
  offset := binary64.sub timestampMs (finite now)
  frozenAt := some timestampMs

def advanceFromFrozen (s : Clock) (duration : Text) : Except Text Clock :=
  match s.frozenAt with
  | none => .error notFrozen
  | some t => do
    let ms ← parseDuration duration
    return { s with frozenAt := some (binary64.add t ms) }

def apply (s : Clock) : Call → Except Text Clock
  | .advance duration => advance s duration
  | .freeze timestampMs => .ok (freeze now s timestampMs)
  | .advanceFromFrozen duration => advanceFromFrozen s duration
  | .reset => .ok initial

/-- The state after a call that may have thrown. -/
def settle (s : Clock) (c : Call) : Clock :=
  match apply now s c with
  | .ok s' => s'
  | .error _ => s

def run (s : Clock) (calls : List Call) : Clock := calls.foldl (settle now) s

/-! ## What the readings show -/

/-- A frozen clock shows an advance that its instant absorbs; a running one when it makes no
difference which of the two sums is taken first. -/
def Reflects (s : Clock) (ms : Extended) : Prop :=
  match s.frozenAt with
  | some t => binary64.add t ms = t
  | none => binary64.add (finite now) (binary64.add s.offset ms) =
      binary64.add (binary64.add (finite now) s.offset) ms

/-- The whole numbers that all are exact. -/
def Whole (n : ℤ) : Prop := |n| ≤ 2 ^ 53

variable {now}

theorem advance_eq {s : Clock} {duration : Text} {ms : Extended}
    (h : parseDuration duration = .ok ms) :
    advance s duration = .ok { s with offset := binary64.add s.offset ms } := by
  unfold advance
  rw [h]
  rfl

theorem settle_advance {s : Clock} {duration : Text} {ms : Extended}
    (h : parseDuration duration = .ok ms) :
    settle now s (.advance duration) = { s with offset := binary64.add s.offset ms } := by
  have happly : apply now s (.advance duration) = _ := advance_eq h
  unfold settle
  rw [happly]

theorem settle_advance_error {s : Clock} {duration e : Text}
    (h : parseDuration duration = .error e) : settle now s (.advance duration) = s := by
  have happly : apply now s (.advance duration) = .error e := by
    change advance s duration = _
    unfold advance
    rw [h]
    rfl
  unfold settle
  rw [happly]

theorem settle_advanceFromFrozen (s : Clock) (duration : Text) :
    settle now s (.advanceFromFrozen duration) =
      match s.frozenAt, parseDuration duration with
      | some t, .ok ms => { s with frozenAt := some (binary64.add t ms) }
      | _, _ => s := by
  have happly : apply now s (.advanceFromFrozen duration) = advanceFromFrozen s duration := rfl
  unfold settle
  rw [happly]
  unfold advanceFromFrozen
  cases s.frozenAt with
  | none => rfl
  | some t => cases parseDuration duration <;> rfl

theorem virtualNow_advance_iff (s : Clock) {duration : Text} {ms : Extended}
    (h : parseDuration duration = .ok ms) :
    virtualNow now (settle now s (.advance duration)) = binary64.add (virtualNow now s) ms ↔
      Reflects now s ms := by
  rw [settle_advance h]
  unfold virtualNow Reflects
  cases s.frozenAt with
  | some t => exact eq_comm
  | none => exact Iff.rfl

theorem add_whole {a b : ℤ} (h : Whole (a + b)) :
    binary64.add (finite a) (finite b) = finite ((a + b : ℤ) : ℚ) := by
  change binary64.result ((a : ℚ) + (b : ℚ)) = _
  rw [← Int.cast_add]
  exact binary64_int h

/-- Between whole numbers a running clock shows every advance, and a frozen one that of nothing. -/
theorem reflects_whole_iff {s : Clock} {k m : ℤ} (hoffset : s.offset = finite k)
    (hfrozen : ∀ t ∈ s.frozenAt, ∃ j : ℤ, t = finite j ∧ Whole (j + m))
    (hnow : Whole (now + k)) (hadvance : Whole (k + m)) (hsum : Whole (now + k + m)) :
    Reflects now s (finite m) ↔ s.frozenAt = none ∨ m = 0 := by
  unfold Reflects
  cases hs : s.frozenAt with
  | none =>
    have hsum' : Whole (now + (k + m)) := by rwa [← add_assoc]
    rw [hoffset, add_whole hadvance, add_whole hnow, add_whole hsum, add_whole hsum', add_assoc]
    simp
  | some t =>
    obtain ⟨j, rfl, hj⟩ := hfrozen t hs
    change binary64.add (finite j) (finite m) = finite j ↔ _
    rw [add_whole hj]
    simp

/-! ## Advances of a frozen clock -/

/-- The states differ at most in an offset that is not read. -/
def Alike (s s' : Clock) : Prop :=
  s.frozenAt = s'.frozenAt ∧ (s.frozenAt = none → s.offset = s'.offset)

theorem Alike.virtualNow {s s' : Clock} (h : Alike s s') :
    virtualNow now s = virtualNow now s' := by
  unfold Testing.virtualNow
  rw [← h.1]
  cases hs : s.frozenAt with
  | some t => rfl
  | none => rw [h.2 hs]

theorem Alike.settle {s s' : Clock} (h : Alike s s') (c : Call) :
    Alike (settle now s c) (settle now s' c) := by
  obtain ⟨hfrozen, hoffset⟩ := h
  cases c with
  | advance duration =>
    cases hms : parseDuration duration with
    | ok ms =>
      rw [settle_advance hms, settle_advance hms]
      exact ⟨hfrozen, fun hnone => congrArg (binary64.add · ms) (hoffset hnone)⟩
    | error e =>
      rw [settle_advance_error hms, settle_advance_error hms]
      exact ⟨hfrozen, hoffset⟩
  | freeze t => exact ⟨rfl, fun _ => rfl⟩
  | advanceFromFrozen duration =>
    rw [settle_advanceFromFrozen, settle_advanceFromFrozen, ← hfrozen]
    cases hs : s.frozenAt with
    | none => exact ⟨hfrozen, hoffset⟩
    | some t =>
      cases parseDuration duration with
      | ok ms => exact ⟨rfl, fun hnone => by cases hnone⟩
      | error e => exact ⟨hfrozen, hoffset⟩
  | reset => exact ⟨rfl, fun _ => rfl⟩

theorem Alike.run {s s' : Clock} (h : Alike s s') (calls : List Call) :
    Alike (run now s calls) (run now s' calls) := by
  induction calls generalizing s s' with
  | nil => exact h
  | cons c calls ih => exact ih (h.settle c)

/-- **An advance of a frozen clock is lost for good**: no later calls make a reading show it. -/
theorem advance_frozen_lost {s : Clock} (hs : s.frozenAt ≠ none) (duration : Text)
    (calls : List Call) :
    virtualNow now (run now (settle now s (.advance duration)) calls) =
      virtualNow now (run now s calls) := by
  refine (Alike.run ?_ calls).virtualNow
  cases hms : parseDuration duration with
  | ok ms =>
    rw [settle_advance hms]
    exact ⟨rfl, fun hnone => absurd hnone hs⟩
  | error e =>
    rw [settle_advance_error hms]
    exact ⟨rfl, fun _ => rfl⟩

end Readings

/-- **When a reading shows an advance**, in every state that calls lead to: exactly when the state
reflects it; between whole numbers, when the clock runs or the duration is nothing. -/
theorem advance_obeyed_iff (now : ℤ) (calls : List Call) {duration : Text} {ms : Extended}
    (h : parseDuration duration = .ok ms) :
    let s := run now initial calls
    let obeyed := virtualNow now (settle now s (.advance duration)) =
      binary64.add (virtualNow now s) ms
    (obeyed ↔ Reflects now s ms) ∧
      ∀ k m : ℤ, s.offset = finite k → ms = finite m →
        (∀ t ∈ s.frozenAt, ∃ j : ℤ, t = finite j ∧ Whole (j + m)) →
        Whole (now + k) → Whole (k + m) → Whole (now + k + m) →
        (obeyed ↔ s.frozenAt = none ∨ m = 0) := by
  intro s obeyed
  have hobeyed : obeyed ↔ Reflects now s ms := virtualNow_advance_iff s h
  refine ⟨hobeyed, ?_⟩
  rintro k m hoffset rfl hfrozen hnow hadvance hsum
  rw [hobeyed]
  exact reflects_whole_iff hoffset hfrozen hnow hadvance hsum

/-! ### A day -/

theorem parseDuration_day : parseDuration "1d".toList = .ok (finite 86400000) := by
  have hone : binary64.result (Numeral.natural ['1']) = finite 1 := by
    have h := binary64_int (n := 1) (by norm_num)
    simpa [Numeral.natural, Nat.ofDigitChars] using h
  have hday : binary64.mul (finite 1) (finite 86400000) = finite 86400000 := by
    have h := binary64_int (n := 86400000) (by norm_num)
    change binary64.result (1 * 86400000) = _
    simpa using h
  change Except.ok (binary64.mul (binary64.result (Numeral.natural ['1'])) (finite 86400000)) = _
  rw [hone, hday]

theorem advance_frozen_day :
    let s := run 0 initial [.freeze (finite 1700000000000)]
    virtualNow 0 s = finite 1700000000000 ∧
      virtualNow 0 (settle 0 s (.advance "1d".toList)) = finite 1700000000000 ∧
      binary64.add (virtualNow 0 s) (finite 86400000) = finite 1700086400000 := by
  refine ⟨rfl, ?_, ?_⟩
  · rw [settle_advance parseDuration_day]
    rfl
  · have h := binary64_int (n := 1700086400000) (by norm_num)
    change binary64.result (1700000000000 + 86400000) = _
    norm_num at h ⊢
    exact h

theorem advance_running_day :
    virtualNow 0 (settle 0 initial (.advance "1d".toList)) =
      binary64.add (virtualNow 0 initial) (finite 86400000) := by
  have hwhole : Whole 86400000 := by unfold Whole; norm_num
  have hzero : Whole 0 := by unfold Whole; norm_num
  have hobeyed := (advance_obeyed_iff 0 [] parseDuration_day).2 0 86400000
  refine (hobeyed ?_ ?_ nofun ?_ ?_ ?_).2 (.inl rfl)
  · exact congrArg finite Int.cast_zero.symm
  · norm_num
  all_goals assumption

end Intellibiz.Testing
