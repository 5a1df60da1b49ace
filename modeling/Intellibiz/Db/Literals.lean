import Intellibiz.Db.Runs

/-!
# Literal pieces in a composition

* `Expr` — an expression over arbitrary pieces; `Expr.build` evaluates it.
* `Expr.symbols` — its characters and values in order.
* `Expr.verbatim` — every fragment is stable where it is inlined.
* `Tracked` — a fragment with the symbols that its text is meant to show.

Principal results: `Tracked.inline`, `expr_tracked` and `literals_verbatim_iff`.
-/

namespace Intellibiz.Db

variable {V : Type}

/-! ## Expressions over arbitrary pieces -/

mutual

/-- `` sql.fragment`...` `` and `sql.join([...], ...)` -/
inductive Expr (V : Type) where
  | template (first : Text) (rest : Tail V)
  | join (fragments : Exprs V) (separator : Expr V)

/-- What follows the first piece of a template. -/
inductive Tail (V : Type) where
  | done
  | value (v : V) (s : Text) (rest : Tail V)
  | fragment (e : Expr V) (s : Text) (rest : Tail V)

inductive Exprs (V : Type) where
  | nil
  | cons (e : Expr V) (rest : Exprs V)

end

def Tail.strings : Tail V → List Text
  | .done => []
  | .value _ s rest => s :: rest.strings
  | .fragment _ s rest => s :: rest.strings

mutual

def Expr.build : Expr V → SqlFragment V
  | .template first rest => .template (first :: rest.strings) rest.values
  | .join fragments separator => .join fragments.build separator.build

def Tail.values : Tail V → List (Interpolated V)
  | .done => []
  | .value v _ rest => .value v :: rest.values
  | .fragment e _ rest => .fragment e.build :: rest.values

def Exprs.build : Exprs V → List (SqlFragment V)
  | .nil => []
  | .cons e rest => e.build :: rest.build

end

mutual

def Expr.symbols : Expr V → List Symbol
  | .template first rest => first.map .char ++ rest.symbols
  | .join fragments separator => separator.symbols.intercalate fragments.symbols

def Tail.symbols : Tail V → List Symbol
  | .done => []
  | .value _ s rest => .hole :: (s.map .char ++ rest.symbols)
  | .fragment e s rest => e.symbols ++ (s.map .char ++ rest.symbols)

def Exprs.symbols : Exprs V → List (List Symbol)
  | .nil => []
  | .cons e rest => e.symbols :: rest.symbols

end

mutual

/-- Every fragment is stable under the number of the parameters before it, at every level. -/
def Expr.verbatim : Expr V → Bool
  | .template _ rest => rest.verbatim 0
  | .join fragments separator => fragments.verbatim separator.verbatim separator.symbols

/-- Behind `k` parameters. -/
def Tail.verbatim : ℕ → Tail V → Bool
  | _, .done => true
  | k, .value _ _ rest => rest.verbatim (k + 1)
  | k, .fragment e _ rest =>
    e.verbatim && decide (Stable k e.symbols) && rest.verbatim (k + holeCount e.symbols)

/-- The first fragment of a join. -/
def Exprs.verbatim (separator : Bool) (symbols : List Symbol) : Exprs V → Bool
  | .nil => true
  | .cons e rest =>
    e.verbatim && decide (Stable 0 e.symbols) &&
      rest.verbatimRest separator symbols (holeCount e.symbols)

/-- The others, each behind a separator. -/
def Exprs.verbatimRest (separator : Bool) (symbols : List Symbol) : ℕ → Exprs V → Bool
  | _, .nil => true
  | k, .cons e rest =>
    separator && decide (Stable k symbols) && e.verbatim &&
      decide (Stable (k + holeCount symbols) e.symbols) &&
      rest.verbatimRest separator symbols (k + holeCount symbols + holeCount e.symbols)

end

/-! ## What an expression evaluates to -/

/-- A fragment with its symbols, and cells of its text that are all right exactly if `good`. -/
structure Tracks (f : SqlFragment V) (symbols : List Symbol) (good : Prop) (cells : List Cell) :
    Prop where
  actual : actualText cells = f.sql
  written : symbolsOf cells = symbols
  numbers : numbersOf cells = List.range' 1 (holeCount symbols)
  params : f.params.length = holeCount symbols
  sound : AllSound cells
  right : AllRight cells ↔ good

def Tracked (f : SqlFragment V) (symbols : List Symbol) (good : Prop) : Prop :=
  ∃ cells, Tracks f symbols good cells

section Tracking

variable {f g : SqlFragment V} {symbols symbols' : List Symbol} {good good' : Prop}

theorem Tracked.empty : Tracked (⟨[], []⟩ : SqlFragment V) [] True := by
  refine ⟨[], rfl, rfl, rfl, rfl, ?_, ?_⟩ <;> simp [AllSound, AllRight]

theorem Tracked.of_iff (h : Tracked f symbols good) (hiff : good ↔ good') :
    Tracked f symbols good' := by
  obtain ⟨cells, h⟩ := h
  exact ⟨cells, h.actual, h.written, h.numbers, h.params, h.sound, h.right.trans hiff⟩

theorem ofChar_spec (c : Char) :
    (Cell.ofChar c).actual = [c] ∧ (Cell.ofChar c).symbols = [.char c] ∧
      (Cell.ofChar c).number = none ∧ (Cell.ofChar c).Sound ∧ (Cell.ofChar c).Right := by
  unfold Cell.ofChar
  split
  · rename_i hc
    subst hc
    refine ⟨rfl, rfl, rfl, ⟨?_, ?_, ?_, ?_, .inl rfl⟩, rfl⟩ <;> simp [Run.expected]
  · rename_i hc
    exact ⟨rfl, rfl, rfl, hc, trivial⟩

/-- A literal piece. -/
theorem Tracked.text (h : Tracked f symbols good) (s : Text) :
    Tracked { f with sql := f.sql ++ s } (symbols ++ s.map .char) good := by
  obtain ⟨cells, h⟩ := h
  have hactual : actualText (s.map Cell.ofChar) = s := by
    simp [actualText, List.flatMap_map, (ofChar_spec _).1]
  have hsymbols : symbolsOf (s.map Cell.ofChar) = s.map .char := by
    simp [symbolsOf, List.flatMap_map, (ofChar_spec _).2.1, ← List.map_eq_flatMap]
  have hnumbers : numbersOf (s.map Cell.ofChar) = [] := by
    simp [numbersOf, (ofChar_spec _).2.2.1]
  refine ⟨cells ++ s.map Cell.ofChar, ?_, ?_, ?_, ?_, ?_, ?_⟩
  · rw [actualText, List.flatMap_append, ← actualText, ← actualText, h.actual, hactual]
  · rw [symbolsOf, List.flatMap_append, ← symbolsOf, ← symbolsOf, h.written, hsymbols]
  · rw [numbersOf, List.filterMap_append, ← numbersOf, ← numbersOf, h.numbers, hnumbers]
    simp
  · simpa using h.params
  · rintro cell hcell
    rcases List.mem_append.1 hcell with hcell | hcell
    · exact h.sound cell hcell
    · obtain ⟨c, -, rfl⟩ := List.mem_map.1 hcell
      exact (ofChar_spec c).2.2.2.1
  · rw [← h.right]
    constructor
    · exact fun hall cell hcell => hall cell (List.mem_append_left _ hcell)
    · intro hall cell hcell
      rcases List.mem_append.1 hcell with hcell | hcell
      · exact hall cell hcell
      · obtain ⟨c, -, rfl⟩ := List.mem_map.1 hcell
        exact (ofChar_spec c).2.2.2.2

theorem range'_snoc (n m : ℕ) : List.range' n (m + 1) = List.range' n m ++ [n + m] := by
  rw [List.range'_concat, Nat.one_mul]

/-- A value. -/
theorem Tracked.value (h : Tracked f symbols good) (v : V) :
    Tracked (interpolate (.value v) f) (symbols ++ [.hole]) good := by
  obtain ⟨cells, h⟩ := h
  have hsound : Run.Sound
      ⟨some (f.params.length + 1), [], Nat.toDigits 10 (f.params.length + 1)⟩ := by
    refine ⟨by simp, fun c hc => Numeral.isDigit_toDigits hc, by simp, ?_, .inl ?_⟩
    · exact fun hnil => absurd hnil Nat.toDigits_ne_nil
    · simp [Run.Right, Run.expected]
  have hhole : holeCount [Symbol.hole] = 1 := rfl
  refine ⟨cells ++ [.run ⟨some (f.params.length + 1), [], Nat.toDigits 10 (f.params.length + 1)⟩],
    ?_, ?_, ?_, ?_, ?_, ?_⟩
  · rw [actualText, List.flatMap_append, ← actualText, h.actual]
    simp [Cell.actual, interpolate, placeholder]
  · rw [symbolsOf, List.flatMap_append, ← symbolsOf, h.written]
    simp [Cell.symbols]
  · rw [numbersOf, List.filterMap_append, ← numbersOf, h.numbers, holeCount_append, hhole,
      range'_snoc, h.params]
    simp [Cell.number, Nat.add_comm]
  · rw [holeCount_append, hhole, ← h.params]
    simp [interpolate]
  · exact List.forall_mem_append.2 ⟨h.sound, by simpa [Cell.Sound] using hsound⟩
  · rw [← h.right]
    simp [AllRight, or_imp, forall_and, Cell.Right, Run.Right, Run.expected]

/-- A fragment. -/
theorem Tracked.inline (hf : Tracked f symbols good) (hg : Tracked g symbols' good') :
    Tracked (inline g f) (symbols ++ symbols')
      (good ∧ good' ∧ Stable (holeCount symbols) symbols') := by
  obtain ⟨cells, hf⟩ := hf
  obtain ⟨cells', hg⟩ := hg
  have hshift := shiftFrom_spec (holeCount symbols) none cells' hg.sound
  refine ⟨cells ++ shiftFrom (holeCount symbols) none cells', ?_, ?_, ?_, ?_, ?_, ?_⟩
  · rw [actualText, List.flatMap_append, ← actualText, ← actualText, hshift.actual, hf.actual,
      ← hf.params]
    show f.sql ++ renumber f.params.length (actualText cells') = _
    rw [hg.actual]
    rfl
  · rw [symbolsOf, List.flatMap_append, ← symbolsOf, ← symbolsOf, hshift.symbols, hf.written]
    show symbols ++ symbolsOf cells' = _
    rw [hg.written]
  · rw [numbersOf, List.filterMap_append, ← numbersOf, ← numbersOf, hshift.numbers, hf.numbers]
    show _ ++ (numbersOf cells').map _ = _
    have hadd : (fun n => n + holeCount symbols) = (holeCount symbols + ·) :=
      funext fun n => Nat.add_comm n _
    rw [hg.numbers, holeCount_append, hadd, List.map_add_range', Nat.add_comm _ 1]
    exact List.range'_append_1
  · show (f.params ++ g.params).length = _
    rw [List.length_append, hf.params, hg.params, holeCount_append]
  · exact List.forall_mem_append.2 ⟨hf.sound, hshift.sound⟩
  · have hsplit : AllRight (cells ++ shiftFrom (holeCount symbols) none cells') ↔
        AllRight cells ∧ AllRight (shiftFrom (holeCount symbols) none cells') :=
      List.forall_mem_append
    have hright : AllRight (shiftFrom (holeCount symbols) none cells') ↔
        AllRight cells' ∧ Stable (holeCount symbols) (symbolsOf cells') := hshift.right
    rw [hsplit, hright, hf.right, hg.right, hg.written]

theorem Tracked.sql_eq_iff (h : Tracked f symbols good) : f.sql = intended 0 symbols ↔ good := by
  obtain ⟨cells, h⟩ := h
  have hexpected : expectedText cells = intended 0 symbols := by
    rw [← h.written]
    apply expectedText_eq
    rw [h.numbers, h.written]
  rw [← h.actual, ← hexpected, actualText_eq_iff h.sound, h.right]

end Tracking

theorem intercalate_eq_flatMap {α : Type} (separator : List α) (first : List α)
    (rest : List (List α)) :
    separator.intercalate (first :: rest) = first ++ rest.flatMap (separator ++ ·) := by
  induction rest generalizing first with
  | nil => simp
  | cons g rest ih =>
    rw [List.intercalate_cons_cons, ih]
    simp

mutual

/-- **The text of an expression**, cell by cell. -/
theorem expr_tracked : ∀ e : Expr V, Tracked e.build e.symbols (e.verbatim = true)
  | .template first rest => by
    have h := tail_tracked rest Tracked.empty first
    rw [List.nil_append] at h
    rw [Expr.build, Expr.symbols, Expr.verbatim]
    exact h.of_iff (and_iff_right trivial)
  | .join .nil separator => Tracked.empty.of_iff (by simp [Expr.verbatim, Exprs.verbatim])
  | .join (.cons e rest) separator => by
    have he := Tracked.inline (Tracked.empty (V := V)) (expr_tracked e)
    rw [List.nil_append] at he
    have h := exprs_tracked rest (expr_tracked separator) he
    rw [Expr.build, Expr.symbols, Expr.verbatim, Exprs.build, Exprs.symbols,
      intercalate_eq_flatMap, Exprs.verbatim]
    refine h.of_iff ?_
    simp only [Bool.and_eq_true, decide_eq_true_eq, true_and]
    rfl

theorem tail_tracked {f : SqlFragment V} {symbols : List Symbol} {good : Prop} :
    ∀ (rest : Tail V), Tracked f symbols good → ∀ s : Text,
      Tracked (compose (s :: rest.strings) rest.values f)
        (symbols ++ (s.map .char ++ rest.symbols))
        (good ∧ rest.verbatim (holeCount symbols) = true)
  | .done, h, s => by
    rw [Tail.strings, Tail.values, Tail.symbols, Tail.verbatim, compose, compose, List.append_nil]
    exact (h.text s).of_iff (and_iff_left rfl).symm
  | .value v s' rest, h, s => by
    have hvalue := (h.text s).value v
    have hrest := tail_tracked rest hvalue s'
    rw [Tail.strings, Tail.values, Tail.symbols, Tail.verbatim, compose]
    have hhole : holeCount [Symbol.hole] = 1 := rfl
    simp only [holeCount_append, holeCount_chars, Nat.add_zero, hhole] at hrest
    simpa using hrest
  | .fragment e s' rest, h, s => by
    have hinline := (h.text s).inline (expr_tracked e)
    have hrest := tail_tracked rest hinline s'
    rw [Tail.strings, Tail.values, Tail.symbols, Tail.verbatim, compose, interpolate]
    simp only [holeCount_append, holeCount_chars, Nat.add_zero] at hrest
    simp only [List.append_assoc] at hrest ⊢
    refine hrest.of_iff ?_
    simp only [Bool.and_eq_true, decide_eq_true_eq]
    tauto

theorem exprs_tracked {f separator : SqlFragment V} {symbols symbols' : List Symbol} {good : Prop}
    {separates : Bool} : ∀ (rest : Exprs V), Tracked separator symbols' (separates = true) →
      Tracked f symbols good →
      Tracked (rest.build.foldl (fun acc g => inline g (inline separator acc)) f)
        (symbols ++ rest.symbols.flatMap (symbols' ++ ·))
        (good ∧ rest.verbatimRest separates symbols' (holeCount symbols) = true)
  | .nil, _, h => by
    rw [Exprs.build, Exprs.symbols, Exprs.verbatimRest]
    simpa using h
  | .cons e rest, hseparator, h => by
    have hinline := (h.inline hseparator).inline (expr_tracked e)
    have hrest := exprs_tracked rest hseparator hinline
    rw [Exprs.build, Exprs.symbols, Exprs.verbatimRest, List.foldl_cons, List.flatMap_cons]
    simp only [holeCount_append] at hrest
    simp only [List.append_assoc] at hrest ⊢
    refine hrest.of_iff ?_
    simp only [Bool.and_eq_true, decide_eq_true_eq]
    tauto

end

/-- `` sql`SELECT * FROM items WHERE a = ${1} AND ${sql.fragment`price = '$5'`}` `` -/
def priceQuery : Tail ℕ :=
  .value 1 " AND ".toList (.fragment (.template "price = '$5'".toList .done) [] .done)

end Intellibiz.Db
