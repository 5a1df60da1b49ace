import Intellibiz.Db.Placeholder
import Intellibiz.Numeral

/-!
# Renumbering, run by run

A literal piece may have any characters, so what `/\$(\d+)/g` finds in a fragment need not be one
of its placeholders.  The numbers are exact.

* `Symbol` — a character of a literal piece, or the place of a value; `intended` is the text.
* `Stable` — symbols whose text renumbering by `k` only renumbers.
* `Run` — a `$` and the digits behind it, the intended and the actual ones; `Cell`.
* `shiftFrom` — renumbering.

Principal results: `Run.Sound.close_cases` (a run that went wrong stays wrong), `shiftFrom_spec` and
`actualText_eq_iff` (the texts agree if every run is right).
-/

namespace Intellibiz.Db

open Numeral

/-! ## What is written -/

/-- A character of a literal piece, or the place of a value. -/
inductive Symbol where
  | char (c : Char)
  | hole
  deriving DecidableEq

/-- The pieces as they are written, each value as a placeholder; the first has number `k + 1`. -/
def intended : ℕ → List Symbol → Text
  | _, [] => []
  | k, .char c :: l => c :: intended k l
  | k, .hole :: l => placeholder (k + 1) ++ intended (k + 1) l

/-- The number of values. -/
def holeCount (l : List Symbol) : ℕ := l.count .hole

@[simp] theorem holeCount_append (l m : List Symbol) :
    holeCount (l ++ m) = holeCount l + holeCount m := List.count_append

@[simp] theorem holeCount_chars (s : Text) : holeCount (s.map .char) = 0 := by
  simp [holeCount, List.count_eq_zero]

/-! ## What renumbering leaves alone -/

/-- The digits at the start. -/
def digitsAhead : List Symbol → Text
  | .char c :: l => if c.isDigit then c :: digitsAhead l else []
  | _ => []

/-- Renumbering by `k` changes no more than the numbers: after a `$` of a literal piece there are no
digits, or digits without leading zeros that are not renumbered, and no digit continues the number
of a value that is. -/
def Stable (k : ℕ) : List Symbol → Prop
  | [] => True
  | .char c :: l =>
    (c = '$' → digitsAhead l = [] ∨ (k = 0 ∧ Canonical (digitsAhead l))) ∧ Stable k l
  | .hole :: l => (k = 0 ∨ digitsAhead l = []) ∧ Stable k l

instance decidableStable (k : ℕ) : (l : List Symbol) → Decidable (Stable k l)
  | [] => isTrue trivial
  | .char c :: l =>
    have := decidableStable k l
    inferInstanceAs (Decidable ((c = '$' → _ ∨ (_ ∧ _)) ∧ Stable k l))
  | .hole :: l =>
    have := decidableStable k l
    inferInstanceAs (Decidable ((_ ∨ _) ∧ Stable k l))

/-! ## Runs -/

/-- A `$` and the digits behind it: those of the number, if it is the placeholder of a value, and
the literal ones (`tail`); and the digits that the text has there. -/
structure Run where
  number : Option ℕ
  tail : Text
  actual : Text

def Run.expected (r : Run) : Text := r.number.elim [] (Nat.toDigits 10) ++ r.tail

def Run.Right (r : Run) : Prop := r.expected = r.actual

/-- A digit behind the run. -/
def Run.push (r : Run) (c : Char) : Run :=
  { r with tail := r.tail ++ [c], actual := r.actual ++ [c] }

/-- Renumbering by `k`. -/
def Run.close (k : ℕ) (r : Run) : Run :=
  if r.actual = [] then r
  else
    { r with number := r.number.map (· + k), actual := Nat.toDigits 10 (parseInt r.actual + k) }

def Run.Stable (k : ℕ) (r : Run) : Prop :=
  if r.number = none then r.tail = [] ∨ (k = 0 ∧ Canonical r.tail) else k = 0 ∨ r.tail = []

/-- A run that went wrong: a literal has become greater or lost zeros; the number of a value,
continued by a literal, has been moved by less than its digits. -/
def Run.Off (r : Run) : Prop :=
  if r.number = none then
    natural r.expected < natural r.actual ∨
      (natural r.expected = natural r.actual ∧ r.actual.length < r.expected.length)
  else natural r.actual < natural r.expected

structure Run.Sound (r : Run) : Prop where
  tail : ∀ c ∈ r.tail, c.isDigit = true
  actual : ∀ c ∈ r.actual, c.isDigit = true
  positive : ∀ n ∈ r.number, 0 < n
  empty : r.actual = [] → r.expected = []
  rightOrOff : r.Right ∨ r.Off

section Runs

variable {r : Run} {k : ℕ} {c : Char}

theorem parseInt_eq_natural (digits : Text) : parseInt digits = natural digits := by
  unfold natural
  rw [Nat.ofDigitChars_eq_foldl]
  rfl

theorem Run.Off.not_right (h : r.Off) : ¬ r.Right := by
  intro hright
  unfold Off at h
  rw [hright] at h
  split at h <;> omega

@[simp] theorem Run.expected_push (r : Run) (c : Char) :
    (r.push c).expected = r.expected ++ [c] := by
  simp [Run.expected, Run.push]

theorem Run.right_push_iff : (r.push c).Right ↔ r.Right := by
  unfold Right
  rw [expected_push]
  exact List.append_left_inj [c]

theorem natural_snoc (l : Text) (c : Char) : natural (l ++ [c]) = 10 * natural l + natural [c] := by
  rw [natural_append]
  simp

theorem Run.Off.push (h : r.Off) (c : Char) : (r.push c).Off := by
  have hactual : (r.push c).actual = r.actual ++ [c] := rfl
  have hnumber : (r.push c).number = r.number := rfl
  unfold Off at h ⊢
  rw [hactual, hnumber, Run.expected_push, natural_snoc, natural_snoc, List.length_append,
    List.length_append]
  split
  · rename_i hnone
    rw [if_pos hnone] at h
    omega
  · rename_i hsome
    rw [if_neg hsome] at h
    omega

theorem Run.Sound.push (h : r.Sound) (hc : c.isDigit = true) : (r.push c).Sound := by
  refine ⟨?_, ?_, h.positive, ?_, ?_⟩
  · simpa [Run.push, or_imp, forall_and] using ⟨h.tail, hc⟩
  · simpa [Run.push, or_imp, forall_and] using ⟨h.actual, hc⟩
  · intro hempty
    simp [Run.push] at hempty
  · rcases h.rightOrOff with hright | hoff
    · exact .inl (Run.right_push_iff.2 hright)
    · exact .inr (hoff.push c)

theorem Run.Sound.expected_digits (h : r.Sound) : ∀ c ∈ r.expected, c.isDigit = true := by
  intro c hc
  unfold expected at hc
  rcases List.mem_append.1 hc with hc | hc
  · cases hnumber : r.number with
    | none => simp [hnumber] at hc
    | some n =>
      rw [hnumber] at hc
      exact Numeral.isDigit_toDigits hc
  · exact h.tail c hc

theorem Run.Sound.ne_nil (h : r.Sound) (hnumber : r.number ≠ none) : r.actual ≠ [] := by
  intro hempty
  obtain ⟨n, hn⟩ := Option.ne_none_iff_exists'.1 hnumber
  have hexpected := h.empty hempty
  simp [expected, hn, Nat.toDigits_ne_nil] at hexpected

/-- A run with neither a number nor digits is left alone. -/
theorem Run.Sound.close_empty (h : r.Sound) (hempty : r.actual = []) :
    r.close k = r ∧ r.Right ∧ r.Stable k := by
  have hnumber : r.number = none := by
    by_contra hnumber
    exact h.ne_nil hnumber hempty
  have hexpected := h.empty hempty
  have htail : r.tail = [] := by simpa [expected, hnumber] using hexpected
  refine ⟨by rw [close, if_pos hempty], by rw [Right, hexpected, hempty], ?_⟩
  rw [Run.Stable, if_pos hnumber]
  exact .inl htail

/-- What follows a `$` of a literal piece. -/
theorem Run.Sound.close_literal (h : r.Sound) (hnumber : r.number = none) (hne : r.actual ≠ []) :
    ((r.close k).Right ∧ r.Right ∧ r.Stable k) ∨ ((r.close k).Off ∧ ¬ (r.Right ∧ r.Stable k)) := by
  have hexpected : (r.close k).expected = r.expected := by
    simp [close, hne, expected, hnumber]
  have hactual : (r.close k).actual = Nat.toDigits 10 (natural r.actual + k) := by
    simp [close, hne, parseInt_eq_natural]
  have hnone : (r.close k).number = none := by simp [close, hne, hnumber]
  have htail : r.expected = r.tail := by simp [expected, hnumber]
  have hshort := length_toDigits_natural_le hne h.actual
  by_cases hk : k = 0
  · subst hk
    rcases h.rightOrOff with hright | hoff
    · have hcanonical := toDigits_natural_iff hne h.actual
      have htailne : r.tail ≠ [] := by rwa [← htail, hright]
      by_cases hc : Canonical r.tail
      · left
        refine ⟨?_, hright, ?_⟩
        · rw [Right, hexpected, hactual, Nat.add_zero, hright, hcanonical.2]
          rwa [← hright, htail]
        · rw [Run.Stable, if_pos hnumber]
          exact .inr ⟨rfl, hc⟩
      · right
        refine ⟨?_, ?_⟩
        · rw [Off, if_pos hnone, hexpected, hactual, Nat.add_zero, natural_toDigits, hright]
          refine .inr ⟨rfl, lt_of_le_of_ne hshort ?_⟩
          -- of one length, the two would be the same digits
          intro hlength
          have hsame := natural_inj (fun c hc => Numeral.isDigit_toDigits hc) h.actual hlength
            (natural_toDigits _)
          rw [hcanonical, ← hright, htail] at hsame
          exact hc hsame
        · rintro ⟨-, hstable⟩
          rw [Run.Stable, if_pos hnumber] at hstable
          rcases hstable with hnil | ⟨-, hstable⟩
          · exact htailne hnil
          · exact hc hstable
    · right
      refine ⟨?_, fun hboth => hoff.not_right hboth.1⟩
      rw [Off, if_pos hnumber] at hoff
      rw [Off, if_pos hnone, hexpected, hactual, Nat.add_zero, natural_toDigits]
      omega
  · right
    refine ⟨?_, ?_⟩
    · have hle : natural r.expected ≤ natural r.actual := by
        rcases h.rightOrOff with hright | hoff
        · rw [hright]
        · rw [Off, if_pos hnumber] at hoff
          omega
      rw [Off, if_pos hnone, hexpected, hactual, natural_toDigits]
      omega
    · rintro ⟨hright, hstable⟩
      rw [Run.Stable, if_pos hnumber] at hstable
      rcases hstable with hnil | ⟨hzero, -⟩
      · rw [Right, htail, hnil] at hright
        exact hne hright.symm
      · exact hk hzero

/-- The placeholder of a value. -/
theorem Run.Sound.close_value (h : r.Sound) {n : ℕ} (hnumber : r.number = some n) :
    ((r.close k).Right ∧ r.Right ∧ r.Stable k) ∨ ((r.close k).Off ∧ ¬ (r.Right ∧ r.Stable k)) := by
  have hsome : r.number ≠ none := by simp [hnumber]
  have hne := h.ne_nil hsome
  have hactual : (r.close k).actual = Nat.toDigits 10 (natural r.actual + k) := by
    simp [close, hne, parseInt_eq_natural]
  have hclosed : (r.close k).number ≠ none := by simp [close, hne, hnumber]
  have hexpected : (r.close k).expected = Nat.toDigits 10 (n + k) ++ r.tail := by
    simp [close, hne, expected, hnumber]
  have hbefore : r.expected = Nat.toDigits 10 n ++ r.tail := by simp [expected, hnumber]
  have hvalue : natural r.expected = 10 ^ r.tail.length * n + natural r.tail := by
    rw [hbefore, natural_append, natural_toDigits]
  have hafter : natural (r.close k).expected = 10 ^ r.tail.length * (n + k) + natural r.tail := by
    rw [hexpected, natural_append, natural_toDigits]
  have hpow : 1 ≤ 10 ^ r.tail.length := Nat.one_le_pow _ _ (by norm_num)
  have hmul : k ≤ 10 ^ r.tail.length * k := Nat.le_mul_of_pos_left k hpow
  rw [Nat.mul_add] at hafter
  rcases h.rightOrOff with hright | hoff
  · by_cases hstable : k = 0 ∨ r.tail = []
    · left
      refine ⟨?_, hright, by rw [Run.Stable, if_neg hsome]; exact hstable⟩
      rw [Right, hactual, hexpected, ← hright, hbefore]
      rcases hstable with rfl | htail
      · -- the digits start with those of a positive number
        have hdigits : ∀ c ∈ Nat.toDigits 10 n ++ r.tail, c.isDigit = true := by
          rw [← hbefore]
          exact h.expected_digits
        have hcanonical : Canonical (Nat.toDigits 10 n ++ r.tail) := by
          intro hhead
          rw [List.head?_append_of_ne_nil _ Nat.toDigits_ne_nil] at hhead
          have hzero := natural_toDigits n
          rw [canonical_toDigits n hhead] at hzero
          have hpos := h.positive n hnumber
          simp [natural, Nat.ofDigitChars_cons] at hzero
          omega
        exact ((toDigits_natural_iff (by simp [Nat.toDigits_ne_nil]) hdigits).2 hcanonical).symm
      · simp [htail]
    · right
      obtain ⟨hk, htail⟩ := not_or.1 hstable
      refine ⟨?_, ?_⟩
      · have hten : 10 ≤ 10 ^ r.tail.length :=
          Nat.le_self_pow (fun hnil => htail (List.length_eq_zero_iff.1 hnil)) 10
        have hmore : 10 * k ≤ 10 ^ r.tail.length * k := Nat.mul_le_mul_right k hten
        rw [Off, if_neg hclosed, hactual, natural_toDigits, hafter, ← hright, hvalue]
        omega
      · rintro ⟨-, hboth⟩
        rw [Run.Stable, if_neg hsome] at hboth
        exact hstable hboth
  · right
    refine ⟨?_, fun hboth => hoff.not_right hboth.1⟩
    rw [Off, if_neg hsome, hvalue] at hoff
    rw [Off, if_neg hclosed, hactual, natural_toDigits, hafter]
    omega

/-- **A run that went wrong stays wrong**; one that is right stays right if it is stable. -/
theorem Run.Sound.close_cases (h : r.Sound) :
    ((r.close k).Right ∧ r.Right ∧ r.Stable k) ∨ ((r.close k).Off ∧ ¬ (r.Right ∧ r.Stable k)) := by
  by_cases hempty : r.actual = []
  · obtain ⟨hclose, hright, hstable⟩ := h.close_empty (k := k) hempty
    exact .inl ⟨by rwa [hclose], hright, hstable⟩
  · cases hnumber : r.number with
    | none => exact h.close_literal hnumber hempty
    | some n => exact h.close_value hnumber

theorem Run.Sound.right_close_iff (h : r.Sound) : (r.close k).Right ↔ r.Right ∧ r.Stable k := by
  rcases h.close_cases (k := k) with ⟨hright, hboth⟩ | ⟨hoff, hnot⟩
  · exact iff_of_true hright hboth
  · exact iff_of_false hoff.not_right hnot

theorem Run.Sound.close (h : r.Sound) (k : ℕ) : (r.close k).Sound := by
  by_cases hempty : r.actual = []
  · rwa [(h.close_empty (k := k) hempty).1]
  · have hactual : (r.close k).actual = Nat.toDigits 10 (parseInt r.actual + k) := by
      simp [Run.close, hempty]
    have htail : (r.close k).tail = r.tail := by simp [Run.close, hempty]
    have hnumber : (r.close k).number = r.number.map (· + k) := by simp [Run.close, hempty]
    refine ⟨by rw [htail]; exact h.tail, ?_, ?_, ?_, ?_⟩
    · rw [hactual]
      exact fun c hc => Numeral.isDigit_toDigits hc
    · intro n hn
      rw [hnumber, Option.mem_map] at hn
      obtain ⟨m, hm, rfl⟩ := hn
      exact Nat.add_pos_left (h.positive m hm) k
    · rw [hactual]
      exact fun hnil => absurd hnil Nat.toDigits_ne_nil
    · exact h.close_cases.imp And.left And.left

end Runs

/-! ## Cells -/

/-- A piece of the text of a fragment. -/
inductive Cell where
  | char (c : Char)
  | run (r : Run)

def Cell.actual : Cell → Text
  | .char c => [c]
  | .run r => '$' :: r.actual

def Cell.expected : Cell → Text
  | .char c => [c]
  | .run r => '$' :: r.expected

def Cell.symbols : Cell → List Symbol
  | .char c => [.char c]
  | .run r => (if r.number = none then .char '$' else .hole) :: r.tail.map .char

def Cell.number : Cell → Option ℕ
  | .char _ => none
  | .run r => r.number

def Cell.Sound : Cell → Prop
  | .char c => c ≠ '$'
  | .run r => r.Sound

def Cell.Right : Cell → Prop
  | .char _ => True
  | .run r => r.Right

/-- A character of a literal piece. -/
def Cell.ofChar (c : Char) : Cell := if c = '$' then .run ⟨none, [], []⟩ else .char c

def actualText (cells : List Cell) : Text := cells.flatMap Cell.actual

def expectedText (cells : List Cell) : Text := cells.flatMap Cell.expected

def symbolsOf (cells : List Cell) : List Symbol := cells.flatMap Cell.symbols

def numbersOf (cells : List Cell) : List ℕ := cells.filterMap Cell.number

def AllSound (cells : List Cell) : Prop := ∀ cell ∈ cells, cell.Sound

def AllRight (cells : List Cell) : Prop := ∀ cell ∈ cells, cell.Right

/-- `renumberFrom`, cell by cell; `r` is the run that is being read. -/
def shiftFrom (k : ℕ) : Option Run → List Cell → List Cell
  | none, [] => []
  | none, .char c :: cells => .char c :: shiftFrom k none cells
  | none, .run r :: cells => shiftFrom k (some r) cells
  | some r, [] => [.run (r.close k)]
  | some r, .char c :: cells =>
    if c.isDigit then shiftFrom k (some (r.push c)) cells
    else .run (r.close k) :: .char c :: shiftFrom k none cells
  | some r, .run r' :: cells => .run (r.close k) :: shiftFrom k (some r') cells

/-- The cells from the run that is being read. -/
def pending (state : Option Run) (cells : List Cell) : List Cell :=
  state.elim cells fun r => .run r :: cells

section Cells

variable {cells : List Cell} {k : ℕ}

theorem digitsAhead_chars {ds : Text} (hds : ∀ c ∈ ds, c.isDigit = true) (l : List Symbol) :
    digitsAhead (ds.map .char ++ l) = ds ++ digitsAhead l := by
  induction ds with
  | nil => rfl
  | cons c ds ih =>
    obtain ⟨hc, hds⟩ := List.forall_mem_cons.1 hds
    rw [List.map_cons, List.cons_append, digitsAhead, if_pos hc, ih hds, List.cons_append]

theorem stable_chars {s : Text} (hs : '$' ∉ s) (l : List Symbol) :
    Stable k (s.map .char ++ l) ↔ Stable k l := by
  induction s with
  | nil => rfl
  | cons c s ih =>
    rw [List.mem_cons, not_or] at hs
    rw [List.map_cons, List.cons_append, Stable, ih hs.2]
    exact and_iff_right fun hc => absurd hc.symm hs.1

theorem symbols_run (r : Run) : (Cell.run r).symbols =
    (if r.number = none then .char '$' else .hole) :: r.tail.map .char := rfl

/-- Digits contain no `$`. -/
theorem dollar_not_mem {ds : Text} (hds : ∀ c ∈ ds, c.isDigit = true) : '$' ∉ ds := by
  intro hmem
  have hdigit := hds _ hmem
  cases hdigit

/-- A run that ends here is stable as a run. -/
theorem stable_run {r : Run} (h : r.Sound) {l : List Symbol} (hl : digitsAhead l = []) :
    Stable k ((Cell.run r).symbols ++ l) ↔ r.Stable k ∧ Stable k l := by
  have hahead : digitsAhead (r.tail.map .char ++ l) = r.tail := by
    rw [digitsAhead_chars h.tail, hl, List.append_nil]
  have hrest : Stable k (r.tail.map .char ++ l) ↔ Stable k l :=
    stable_chars (dollar_not_mem h.tail) l
  rw [symbols_run]
  unfold Run.Stable
  by_cases hnumber : r.number = none
  · rw [if_pos hnumber, if_pos hnumber, List.cons_append, Stable, hahead, hrest]
    simp
  · rw [if_neg hnumber, if_neg hnumber, List.cons_append, Stable, hahead, hrest]

theorem actualText_push (r : Run) (c : Char) (cells : List Cell) :
    actualText (pending (some (r.push c)) cells) =
      actualText (pending (some r) (.char c :: cells)) := by
  simp [actualText, pending, Cell.actual, Run.push]

theorem symbolsOf_push (r : Run) (c : Char) (cells : List Cell) :
    symbolsOf (pending (some (r.push c)) cells) =
      symbolsOf (pending (some r) (.char c :: cells)) := by
  simp [symbolsOf, pending, Cell.symbols, Run.push]

/-- What a cell list that follows a finished run starts with. -/
theorem digitsEnd_actualText (h : digitsAhead (symbolsOf cells) = []) :
    DigitsEnd (actualText cells) := by
  cases cells with
  | nil => simp [DigitsEnd, actualText]
  | cons cell cells =>
    cases cell with
    | char c =>
      intro d hd
      have hcd : c = d := by simpa [actualText, Cell.actual] using hd
      by_contra hdigit
      rw [← hcd, Bool.not_eq_false] at hdigit
      simp [symbolsOf, Cell.symbols, digitsAhead, hdigit] at h
    | run r =>
      intro d hd
      have hd : '$' = d := by simpa [actualText, Cell.actual] using hd
      rw [← hd]
      rfl

/-- What renumbering does to a cell list. -/
structure Shifted (k : ℕ) (before after : List Cell) : Prop where
  actual : actualText after = renumber k (actualText before)
  symbols : symbolsOf after = symbolsOf before
  numbers : numbersOf after = (numbersOf before).map (· + k)
  sound : AllSound after
  right : AllRight after ↔ AllRight before ∧ Stable k (symbolsOf before)

theorem Shifted.nil : Shifted k [] [] := by
  refine ⟨rfl, rfl, rfl, ?_, ?_⟩ <;> simp [AllSound, AllRight, symbolsOf, Stable]

theorem Shifted.char {before after : List Cell} (h : Shifted k before after) {c : Char}
    (hc : c ≠ '$') : Shifted k (.char c :: before) (.char c :: after) := by
  refine ⟨?_, ?_, ?_, ?_, ?_⟩
  · show c :: actualText after = renumberFrom k none (c :: actualText before)
    rw [h.actual, renumberFrom_none_cons, if_neg hc]
    rfl
  · show Symbol.char c :: symbolsOf after = Symbol.char c :: symbolsOf before
    rw [h.symbols]
  · exact h.numbers
  · exact List.forall_mem_cons.2 ⟨hc, h.sound⟩
  · show (∀ cell ∈ Cell.char c :: after, cell.Right) ↔
      (∀ cell ∈ Cell.char c :: before, cell.Right) ∧ Stable k (.char c :: symbolsOf before)
    have hright := h.right
    simp only [AllRight] at hright
    simp only [List.forall_mem_cons, Cell.Right, true_and, Stable]
    have hdollar : (c = '$' → digitsAhead (symbolsOf before) = [] ∨
        (k = 0 ∧ Canonical (digitsAhead (symbolsOf before)))) := fun hdollar => absurd hdollar hc
    tauto

/-- A run ends where no digit follows. -/
theorem Shifted.run {before after : List Cell} (h : Shifted k before after) {r : Run}
    (hr : r.Sound) (hend : digitsAhead (symbolsOf before) = []) :
    Shifted k (.run r :: before) (.run (r.close k) :: after) := by
  refine ⟨?_, ?_, ?_, ?_, ?_⟩
  · show ('$' :: (r.close k).actual) ++ actualText after =
      renumberFrom k none ('$' :: (r.actual ++ actualText before))
    rw [renumberFrom_none_cons, if_pos rfl, renumberFrom_digits k hr.actual, List.nil_append,
      renumberFrom_close k _ (digitsEnd_actualText hend), ← renumber, ← h.actual]
    by_cases hempty : r.actual = []
    · rw [(hr.close_empty hempty).1, hempty]
      rfl
    · simp [Run.close, hempty, renumberFrom.close, placeholder]
  · show (Cell.run (r.close k)).symbols ++ symbolsOf after =
      (Cell.run r).symbols ++ symbolsOf before
    have hcell : (Cell.run (r.close k)).symbols = (Cell.run r).symbols := by
      unfold Run.close
      split
      · rfl
      · cases hnumber : r.number <;> simp [Cell.symbols, hnumber]
    rw [h.symbols, hcell]
  · have hnumber : (r.close k).number = r.number.map (· + k) := by
      by_cases hempty : r.actual = []
      · rw [(hr.close_empty hempty).1]
        cases hn : r.number with
        | none => rfl
        | some n => exact absurd hempty (hr.ne_nil (by simp [hn]))
      · simp [Run.close, hempty]
    have hnumbers := h.numbers
    simp only [numbersOf] at hnumbers
    cases hn : r.number with
    | none => simp [numbersOf, Cell.number, hnumber, hn, hnumbers]
    | some n => simp [numbersOf, Cell.number, hnumber, hn, hnumbers]
  · exact List.forall_mem_cons.2 ⟨hr.close k, h.sound⟩
  · have hright := h.right
    have hrun := stable_run (k := k) hr hend
    have hclose := hr.right_close_iff (k := k)
    show (∀ cell ∈ Cell.run (r.close k) :: after, cell.Right) ↔
      (∀ cell ∈ Cell.run r :: before, cell.Right) ∧
        Stable k ((Cell.run r).symbols ++ symbolsOf before)
    simp only [AllRight] at hright
    simp only [List.forall_mem_cons, Cell.Right, hrun, hclose]
    tauto

/-- **Renumbering, cell by cell.** -/
theorem shiftFrom_spec (k : ℕ) : ∀ (state : Option Run) (cells : List Cell),
    AllSound (pending state cells) → Shifted k (pending state cells) (shiftFrom k state cells)
  | none, [], _ => .nil
  | none, .char c :: cells, h => by
    obtain ⟨hc, hcells⟩ := List.forall_mem_cons.1 h
    exact (shiftFrom_spec k none cells hcells).char hc
  | none, .run r :: cells, h => shiftFrom_spec k (some r) cells h
  | some r, [], h => Shifted.nil.run (List.forall_mem_cons.1 h).1 rfl
  | some r, .char c :: cells, h => by
    obtain ⟨hr, hrest⟩ := List.forall_mem_cons.1 h
    obtain ⟨hc, hcells⟩ := List.forall_mem_cons.1 hrest
    rw [shiftFrom]
    by_cases hdigit : c.isDigit = true
    · -- the digit goes into the run
      rw [if_pos hdigit]
      have hpush : AllSound (pending (some (r.push c)) cells) :=
        List.forall_mem_cons.2 ⟨Run.Sound.push hr hdigit, hcells⟩
      have ih := shiftFrom_spec k (some (r.push c)) cells hpush
      refine ⟨?_, ?_, ?_, ih.sound, ?_⟩
      · rw [ih.actual, actualText_push]
      · rw [ih.symbols, symbolsOf_push]
      · rw [ih.numbers]
        rfl
      · rw [ih.right, symbolsOf_push]
        have hright : AllRight (pending (some (r.push c)) cells) ↔
            AllRight (pending (some r) (.char c :: cells)) := by
          simp [AllRight, pending, Cell.Right, Run.right_push_iff]
        rw [hright]
    · rw [if_neg hdigit]
      have hend : digitsAhead (symbolsOf (.char c :: cells)) = [] := by
        simp [symbolsOf, Cell.symbols, digitsAhead, hdigit]
      exact ((shiftFrom_spec k none cells hcells).char hc).run hr hend
  | some r, .run r' :: cells, h => by
    obtain ⟨hr, hrest⟩ := List.forall_mem_cons.1 h
    have ih := shiftFrom_spec k (some r') cells hrest
    refine Shifted.run ih hr ?_
    show digitsAhead ((Cell.run r').symbols ++ symbolsOf cells) = []
    rw [symbols_run]
    split <;> rfl

/-! ## The two texts -/

theorem intended_chars (k : ℕ) (s : Text) (l : List Symbol) :
    intended k (s.map .char ++ l) = s ++ intended k l := by
  induction s with
  | nil => rfl
  | cons c s ih => rw [List.map_cons, List.cons_append, intended, ih, List.cons_append]

/-- The intended text of the cells is that of their symbols. -/
theorem expectedText_eq (k : ℕ) (cells : List Cell)
    (h : numbersOf cells = List.range' (k + 1) (holeCount (symbolsOf cells))) :
    expectedText cells = intended k (symbolsOf cells) := by
  induction cells generalizing k with
  | nil => rfl
  | cons cell cells ih =>
    cases cell with
    | char c =>
      have hrest : expectedText cells = intended k (symbolsOf cells) := by
        apply ih
        have hcount : holeCount (symbolsOf (.char c :: cells)) = holeCount (symbolsOf cells) := by
          simp [holeCount, symbolsOf, Cell.symbols]
        rwa [hcount] at h
      show c :: expectedText cells = c :: intended k (symbolsOf cells)
      rw [hrest]
    | run r =>
      show '$' :: (r.expected ++ expectedText cells) =
        intended k ((Cell.run r).symbols ++ symbolsOf cells)
      have hsplit : symbolsOf (.run r :: cells) = (Cell.run r).symbols ++ symbolsOf cells := rfl
      rw [hsplit, holeCount_append] at h
      rw [symbols_run] at h ⊢
      cases hnumber : r.number with
      | none =>
        have hrest : expectedText cells = intended k (symbolsOf cells) := by
          apply ih
          have htail := holeCount_chars r.tail
          simp only [holeCount] at htail
          simpa [numbersOf, Cell.number, hnumber, holeCount, htail] using h
        rw [if_pos rfl, List.cons_append, intended, intended_chars, hrest]
        simp [Run.expected, hnumber]
      | some n =>
        have htail := holeCount_chars r.tail
        simp only [holeCount] at htail
        have hnumbers : n :: numbersOf cells =
            (k + 1) :: List.range' (k + 1 + 1) (holeCount (symbolsOf cells)) := by
          rw [← List.range'_succ]
          simpa [numbersOf, Cell.number, hnumber, holeCount, htail, Nat.add_comm] using h
        obtain ⟨rfl, hrest⟩ := List.cons.inj hnumbers
        rw [if_neg (by simp), List.cons_append, intended, intended_chars, ih _ hrest]
        simp [Run.expected, hnumber, placeholder]

/-- Before a run the two texts of its cells have the same digits. -/
theorem takeWhile_digits_eq (cells : List Cell) :
    (actualText cells).takeWhile Char.isDigit = (expectedText cells).takeWhile Char.isDigit := by
  induction cells with
  | nil => rfl
  | cons cell cells ih =>
    cases cell with
    | char c =>
      show (c :: actualText cells).takeWhile _ = (c :: expectedText cells).takeWhile _
      rw [List.takeWhile_cons, List.takeWhile_cons, ih]
    | run r => rfl

/-- **The texts agree if every run is right.** -/
theorem actualText_eq_iff (h : AllSound cells) :
    actualText cells = expectedText cells ↔ AllRight cells := by
  induction cells with
  | nil => simp [AllRight, actualText, expectedText]
  | cons cell cells ih =>
    obtain ⟨hcell, hcells⟩ := List.forall_mem_cons.1 h
    have hsplit : AllRight (cell :: cells) ↔ cell.Right ∧ AllRight cells := List.forall_mem_cons
    rw [hsplit, ← ih hcells]
    cases cell with
    | char c =>
      show c :: actualText cells = c :: expectedText cells ↔ True ∧ _
      rw [true_and, List.cons.injEq]
      exact and_iff_right rfl
    | run r =>
      have hr : r.Sound := hcell
      show '$' :: (r.actual ++ actualText cells) = '$' :: (r.expected ++ expectedText cells) ↔
        r.expected = r.actual ∧ _
      constructor
      · intro heq
        have htexts := (List.cons.inj heq).2
        -- the digits behind the `$` end at the same place
        have hdigits := congrArg (List.takeWhile Char.isDigit) htexts
        rw [List.takeWhile_append_of_pos hr.actual, List.takeWhile_append_of_pos hr.expected_digits,
          takeWhile_digits_eq] at hdigits
        have hright := List.append_cancel_right hdigits
        rw [hright] at htexts
        exact ⟨hright.symm, List.append_cancel_left htexts⟩
      · rintro ⟨hright, hrest⟩
        rw [hright, hrest]

end Cells

end Intellibiz.Db
