import Intellibiz.Sql.Lexer

/-!
# Search conditions

Comparisons joined by `NOT`, `AND` and `OR`, their truth in a row, and a parser with the
precedence of SQL (`NOT` before `AND` before `OR`).

* `Cond.eval` — the three-valued truth of a condition; `none` is `UNKNOWN`.
* `parseFuel` — recursive descent over the tokens, one unit of fuel for each call; `parse` supplies
  enough of it.
* `parseSelect` — the `WHERE` condition of a `SELECT` and the tokens before and after it.

Principal results: `parseFuel_enough` (the result does not depend on the fuel), `parse_or_iff` and
`parse_and_iff` (the grammar rules), `eval_congr` (a condition depends on its columns).
-/

namespace Sql

/-! ## Values and truth -/

inductive Value where
  | null
  | number (q : ℚ)
  | text (s : List Char)
  | bool (b : Bool)
  deriving DecidableEq

/-- The values of a row under the names of the columns. -/
abbrev Row := List Char → Value

def order {α : Type} [DecidableEq α] [LT α] [DecidableLT α] (a b : α) : Ordering :=
  if a = b then .eq else if a < b then .lt else .gt

/-- `none` where a value is `NULL` or the values are not comparable. -/
def Value.order : Value → Value → Option Ordering
  | .number a, .number b => some (Sql.order a b)
  | .text a, .text b => some (Sql.order a b)
  | .bool a, .bool b => some (Sql.order a b)
  | _, _ => none

inductive CompareOp where
  | eq
  | ne
  | lt
  | le
  | gt
  | ge
  deriving DecidableEq, Repr

def CompareOp.holds : CompareOp → Ordering → Bool
  | .eq, o => o = .eq
  | .ne, o => o ≠ .eq
  | .lt, o => o = .lt
  | .le, o => o ≠ .gt
  | .gt, o => o = .gt
  | .ge, o => o ≠ .lt

abbrev Truth := Option Bool

def negate (a : Truth) : Truth := a.map Bool.not

def both : Truth → Truth → Truth
  | some false, _ => some false
  | _, some false => some false
  | some true, some true => some true
  | _, _ => none

def either : Truth → Truth → Truth
  | some true, _ => some true
  | _, some true => some true
  | some false, some false => some false
  | _, _ => none

theorem both_iff {a b : Truth} : both a b = some true ↔ a = some true ∧ b = some true := by
  rcases a with _ | _ | _ <;> rcases b with _ | _ | _ <;> simp [both]

theorem either_iff {a b : Truth} : either a b = some true ↔ a = some true ∨ b = some true := by
  rcases a with _ | _ | _ <;> rcases b with _ | _ | _ <;> simp [either]

/-! ## Conditions -/

inductive Operand where
  | column (name : List Char)
  | const (v : Value)
  | param (digits : List Char)
  deriving DecidableEq

inductive Cond where
  | compare (op : CompareOp) (a b : Operand)
  | isNull (a : Operand)
  | isNotNull (a : Operand)
  | not (c : Cond)
  | and (a b : Cond)
  | or (a b : Cond)
  /-- A condition in parentheses. -/
  | paren (c : Cond)
  deriving DecidableEq

/-- The values of the parameters. -/
abbrev Env := List Char → Value

def Operand.eval (env : Env) (row : Row) : Operand → Value
  | .column name => row name
  | .const v => v
  | .param digits => env digits

def Cond.eval (env : Env) (row : Row) : Cond → Truth
  | .compare op a b => ((a.eval env row).order (b.eval env row)).map op.holds
  | .isNull a => some (a.eval env row = .null)
  | .isNotNull a => some (a.eval env row ≠ .null)
  | .not c => negate (c.eval env row)
  | .and a b => both (a.eval env row) (b.eval env row)
  | .or a b => either (a.eval env row) (b.eval env row)
  | .paren c => c.eval env row

/-- The condition holds of the row. -/
def Cond.Holds (env : Env) (c : Cond) (row : Row) : Prop := c.eval env row = some true

def Operand.columns : Operand → List (List Char)
  | .column name => [name]
  | _ => []

def Cond.columns : Cond → List (List Char)
  | .compare _ a b => a.columns ++ b.columns
  | .isNull a | .isNotNull a => a.columns
  | .not c | .paren c => c.columns
  | .and a b | .or a b => a.columns ++ b.columns

section Eval

variable {env : Env} {row row' : Row}

theorem Operand.eval_congr {a : Operand} (h : ∀ name ∈ a.columns, row name = row' name) :
    a.eval env row = a.eval env row' := by
  cases a with
  | column name => exact h name (by simp [Operand.columns])
  | const v => rfl
  | param digits => rfl

/-- **The truth of a condition depends on the values of its columns.** -/
theorem Cond.eval_congr {c : Cond} (h : ∀ name ∈ c.columns, row name = row' name) :
    c.eval env row = c.eval env row' := by
  induction c with
  | compare op a b =>
    simp only [Cond.columns, List.mem_append] at h
    simp only [Cond.eval, Operand.eval_congr fun name hn => h name (.inl hn),
      Operand.eval_congr fun name hn => h name (.inr hn)]
  | isNull a => simp only [Cond.eval, Operand.eval_congr h]
  | isNotNull a => simp only [Cond.eval, Operand.eval_congr h]
  | not c ih => simp only [Cond.eval, ih h]
  | and a b iha ihb =>
    simp only [Cond.columns, List.mem_append] at h
    simp only [Cond.eval, iha fun name hn => h name (.inl hn), ihb fun name hn => h name (.inr hn)]
  | or a b iha ihb =>
    simp only [Cond.columns, List.mem_append] at h
    simp only [Cond.eval, iha fun name hn => h name (.inl hn), ihb fun name hn => h name (.inr hn)]
  | paren c ih => exact ih h

theorem holds_and {a b : Cond} : (Cond.and a b).Holds env row ↔ a.Holds env row ∧ b.Holds env row :=
  both_iff

theorem holds_or {a b : Cond} : (Cond.or a b).Holds env row ↔ a.Holds env row ∨ b.Holds env row :=
  either_iff

theorem holds_isNull {a : Operand} : (Cond.isNull a).Holds env row ↔ a.eval env row = .null := by
  simp [Cond.Holds, Cond.eval]

/-- A column compared with a text constant. -/
theorem holds_eq_text {name v : List Char} :
    (Cond.compare .eq (.column name) (.const (.text v))).Holds env row ↔ row name = .text v := by
  simp only [Cond.Holds, Cond.eval, Operand.eval]
  cases row name with
  | null | number q | bool b => simp [Value.order]
  | text s =>
    by_cases h : s = v
    · simp [Value.order, order, CompareOp.holds, h]
    · by_cases hlt : s < v <;> simp [Value.order, order, CompareOp.holds, h, hlt]

end Eval

/-! ## The parser -/

def dropWord (w : List Char) : List Token → Option (List Token)
  | .word v :: ts => if v = w then some ts else none
  | _ => none

def dropSym (c : Char) : List Token → Option (List Token)
  | .sym d :: ts => if d = c then some ts else none
  | _ => none

/-- Words that name no column. -/
def reserved : List (List Char) :=
  ["SELECT".toList, "FROM".toList, "WHERE".toList, "GROUP".toList, "HAVING".toList, "ORDER".toList,
    "LIMIT".toList, "BY".toList, "AND".toList, "OR".toList, "NOT".toList, "IS".toList]

def isNumber (w : List Char) : Bool := w.all Char.isDigit

def natValue (w : List Char) : Nat := w.foldl (fun n d => 10 * n + (d.toNat - '0'.toNat)) 0

def lower (w : List Char) : List Char := w.map Char.toLower

def parseAtom : Token → Option Operand
  | .word w =>
    if isNumber w then some (.const (.number (natValue w)))
    else if w = "NULL".toList then some (.const .null)
    else if w = "TRUE".toList then some (.const (.bool true))
    else if w = "FALSE".toList then some (.const (.bool false))
    else if w ∈ reserved then none
    else some (.column (lower w))
  | .quoted name => some (.column name)
  | .str v => some (.const (.text v))
  | .param digits => some (.param digits)
  | .sym _ => none

/-- A column with the name of its table, or a decimal number. -/
def parseDotted (t u : Token) : Option Operand :=
  match parseAtom t, parseAtom u, u with
  | some (.column _), some (.column name), _ => some (.column name)
  | some (.const (.number a)), some (.const (.number b)), .word w =>
    some (.const (.number (a + b / 10 ^ w.length)))
  | _, _, _ => none

def parseUnsigned : List Token → Option (Operand × List Token)
  | [] => none
  | t :: ts =>
    match dropSym '.' ts with
    | some (u :: rest) => (parseDotted t u).map (·, rest)
    | some [] => none
    | none => (parseAtom t).map (·, ts)

def parseOperand (ts : List Token) : Option (Operand × List Token) :=
  match dropSym '-' ts with
  | none => parseUnsigned ts
  | some ts =>
    match parseUnsigned ts with
    | some (.const (.number q), rest) => some (.const (.number (-q)), rest)
    | _ => none

def parseOp : List Token → Option (CompareOp × List Token)
  | .sym '=' :: ts => some (.eq, ts)
  | .sym '<' :: .sym '>' :: ts => some (.ne, ts)
  | .sym '<' :: .sym '=' :: ts => some (.le, ts)
  | .sym '<' :: ts => some (.lt, ts)
  | .sym '>' :: .sym '=' :: ts => some (.ge, ts)
  | .sym '>' :: ts => some (.gt, ts)
  | .sym '!' :: .sym '=' :: ts => some (.ne, ts)
  | _ => none

def parseNullTest (a : Operand) (ts : List Token) : Option (Cond × List Token) :=
  match dropWord "NULL".toList ts with
  | some rest => some (.isNull a, rest)
  | none => ((dropWord "NOT".toList ts).bind (dropWord "NULL".toList)).map (.isNotNull a, ·)

def parseCompare (a : Operand) (ts : List Token) : Option (Cond × List Token) :=
  (parseOp ts).bind fun (op, rest) => (parseOperand rest).map fun (b, rest) => (.compare op a b, rest)

def parseComparison (ts : List Token) : Option (Cond × List Token) :=
  (parseOperand ts).bind fun (a, rest) =>
    match dropWord "IS".toList rest with
    | some rest => parseNullTest a rest
    | none => parseCompare a rest

inductive Level where
  | or
  | and
  | not
  deriving DecidableEq, Repr

/-- Operands of the word `w` with the operand `first` and, after the word, `more`. -/
def parseChain (w : List Char) (join : Cond → Cond → Cond)
    (first more : List Token → Option (Cond × List Token)) (ts : List Token) :
    Option (Cond × List Token) :=
  (first ts).bind fun (a, rest) =>
    match dropWord w rest with
    | some rest => (more rest).map fun (b, rest) => (join a b, rest)
    | none => some (a, rest)

def parseFuel : Nat → Level → List Token → Option (Cond × List Token)
  | 0, _, _ => none
  | n + 1, .or, ts => parseChain "OR".toList .or (parseFuel n .and) (parseFuel n .or) ts
  | n + 1, .and, ts => parseChain "AND".toList .and (parseFuel n .not) (parseFuel n .and) ts
  | n + 1, .not, ts =>
    match dropWord "NOT".toList ts with
    | some rest => (parseFuel n .not rest).map fun (c, rest) => (.not c, rest)
    | none =>
      match dropSym '(' ts with
      | some rest =>
        (parseFuel n .or rest).bind fun (c, rest) => (dropSym ')' rest).map (.paren c, ·)
      | none => parseComparison ts

/-- Fuel for the calls that a level can lead to. -/
def fuel (level : Level) (ts : List Token) : Nat :=
  match level with
  | .or => 3 * ts.length + 3
  | .and => 3 * ts.length + 2
  | .not => 3 * ts.length + 1

def parse (level : Level) (ts : List Token) : Option (Cond × List Token) :=
  parseFuel (fuel level ts) level ts

structure Select where
  /-- The tokens in front of `WHERE`. -/
  head : List Token
  cond : Cond
  /-- The clauses after the condition. -/
  tail : List Token
  deriving DecidableEq

def clauseWords : List (List Char) :=
  ["GROUP".toList, "HAVING".toList, "ORDER".toList, "LIMIT".toList]

/-- The tokens start with one of the clauses, if there are any. -/
def Clauses (ts : List Token) : Prop := ∀ t ∈ ts.head?, ∃ w ∈ clauseWords, t = .word w

instance (ts : List Token) : Decidable (Clauses ts) :=
  inferInstanceAs (Decidable (∀ t ∈ ts.head?, ∃ w ∈ clauseWords, t = .word w))

def parseSelect (ts : List Token) : Option Select :=
  if ts.head? = some (.word "SELECT".toList) then
    match ts.dropWhile (· ≠ .word "WHERE".toList) with
    | [] => none
    | _ :: rest =>
      (parse .or rest).bind fun (cond, tail) =>
        if Clauses tail then some ⟨ts.takeWhile (· ≠ .word "WHERE".toList), cond, tail⟩ else none
  else none

/-! ## What the parser consumes -/

theorem eq_of_dropWord {w : List Char} {ts rest : List Token} (h : dropWord w ts = some rest) :
    ts = .word w :: rest := by
  cases ts with
  | nil => cases h
  | cons t ts =>
    cases t with
    | word v =>
      simp only [dropWord] at h
      split at h
      · rename_i hw
        cases h
        rw [hw]
      · cases h
    | str v | quoted v | param v | sym c => cases h

theorem eq_of_dropSym {c : Char} {ts rest : List Token} (h : dropSym c ts = some rest) :
    ts = .sym c :: rest := by
  cases ts with
  | nil => cases h
  | cons t ts =>
    cases t with
    | sym d =>
      simp only [dropSym] at h
      split at h
      · rename_i hd
        cases h
        rw [hd]
      · cases h
    | str v | quoted v | param v | word w => cases h

theorem length_dropWord {w : List Char} {ts rest : List Token} (h : dropWord w ts = some rest) :
    rest.length + 1 = ts.length := by
  rw [eq_of_dropWord h, List.length_cons]

theorem length_dropSym {c : Char} {ts rest : List Token} (h : dropSym c ts = some rest) :
    rest.length + 1 = ts.length := by
  rw [eq_of_dropSym h, List.length_cons]

theorem length_parseUnsigned {ts rest : List Token} {a : Operand}
    (h : parseUnsigned ts = some (a, rest)) : rest.length < ts.length := by
  cases ts with
  | nil => cases h
  | cons t ts =>
    simp only [parseUnsigned] at h
    split at h
    · rename_i u more hdot
      obtain ⟨b, -, hb⟩ := Option.map_eq_some_iff.1 h
      have hlen := length_dropSym hdot
      cases hb
      simp at hlen ⊢
      omega
    · cases h
    · obtain ⟨b, -, hb⟩ := Option.map_eq_some_iff.1 h
      cases hb
      simp

theorem length_parseOperand {ts rest : List Token} {a : Operand}
    (h : parseOperand ts = some (a, rest)) : rest.length < ts.length := by
  unfold parseOperand at h
  split at h
  · exact length_parseUnsigned h
  · rename_i more hminus
    have hlen := length_dropSym hminus
    split at h
    · rename_i q rest' hnum
      cases h
      have hrest := length_parseUnsigned hnum
      omega
    · cases h

theorem length_parseOp {ts rest : List Token} {op : CompareOp} (h : parseOp ts = some (op, rest)) :
    rest.length < ts.length := by
  unfold parseOp at h
  split at h <;> cases h <;> simp

theorem length_parseComparison {ts rest : List Token} {c : Cond}
    (h : parseComparison ts = some (c, rest)) : rest.length < ts.length := by
  obtain ⟨⟨a, more⟩, ha, h⟩ := Option.bind_eq_some_iff.1 h
  have hoperand := length_parseOperand ha
  simp only at h
  split at h
  · rename_i more' his
    have hlen := length_dropWord his
    unfold parseNullTest at h
    split at h
    · rename_i more'' hnull
      have hlen' := length_dropWord hnull
      cases h
      omega
    · obtain ⟨more'', hnot, hc⟩ := Option.map_eq_some_iff.1 h
      obtain ⟨more3, hnot, hnull⟩ := Option.bind_eq_some_iff.1 hnot
      have hlen' := length_dropWord hnot
      have hlen'' := length_dropWord hnull
      cases hc
      omega
  · obtain ⟨⟨op, more'⟩, hop, h⟩ := Option.bind_eq_some_iff.1 h
    obtain ⟨⟨b, more''⟩, hb, hc⟩ := Option.map_eq_some_iff.1 h
    have hlen := length_parseOp hop
    have hlen' := length_parseOperand hb
    cases hc
    omega

theorem parseChain_eq_some {w : List Char} {join : Cond → Cond → Cond}
    {first more : List Token → Option (Cond × List Token)} {ts rest : List Token} {c : Cond} :
    parseChain w join first more ts = some (c, rest) ↔
      ∃ a mid, first ts = some (a, mid) ∧
        ((dropWord w mid = none ∧ c = a ∧ rest = mid) ∨
          ∃ after b, dropWord w mid = some after ∧ more after = some (b, rest) ∧ c = join a b) := by
  unfold parseChain
  constructor
  · intro h
    obtain ⟨⟨a, mid⟩, ha, h⟩ := Option.bind_eq_some_iff.1 h
    refine ⟨a, mid, ha, ?_⟩
    simp only at h
    split at h
    · rename_i after hafter
      obtain ⟨⟨b, rest'⟩, hb, hc⟩ := Option.map_eq_some_iff.1 h
      cases hc
      exact .inr ⟨after, b, hafter, hb, rfl⟩
    · rename_i hnone
      cases h
      exact .inl ⟨hnone, rfl, rfl⟩
  · rintro ⟨a, mid, ha, ⟨hnone, rfl, rfl⟩ | ⟨after, b, hafter, hb, rfl⟩⟩
    · simp [ha, hnone]
    · simp [ha, hafter, hb]

/-- The levels of `OR` and `AND`. -/
theorem parseFuel_chain {level : Level} (h : level ≠ .not) :
    ∃ w join next, (∀ ts, fuel next ts < fuel level ts) ∧ ∀ n ts,
      parseFuel (n + 1) level ts = parseChain w join (parseFuel n next) (parseFuel n level) ts := by
  cases level with
  | or => exact ⟨_, _, .and, fun ts => by simp [fuel], fun n ts => rfl⟩
  | and => exact ⟨_, _, .not, fun ts => by simp [fuel], fun n ts => rfl⟩
  | not => exact absurd rfl h

theorem parseFuel_not (n : Nat) (ts : List Token) : parseFuel (n + 1) .not ts =
    match dropWord "NOT".toList ts with
    | some rest => (parseFuel n .not rest).map fun (c, rest) => (.not c, rest)
    | none =>
      match dropSym '(' ts with
      | some rest =>
        (parseFuel n .or rest).bind fun (c, rest) => (dropSym ')' rest).map (.paren c, ·)
      | none => parseComparison ts := rfl

theorem fuel_lt {level : Level} {ts us : List Token} (h : ts.length < us.length) :
    fuel level ts < fuel level us := by
  cases level <;> simp only [fuel] <;> omega

/-- Every call consumes a token. -/
theorem length_parseFuel {n : Nat} {level : Level} {ts rest : List Token} {c : Cond}
    (h : parseFuel n level ts = some (c, rest)) : rest.length < ts.length := by
  induction n generalizing level ts rest c with
  | zero => cases h
  | succ n ih =>
    by_cases hlevel : level = .not
    · subst hlevel
      rw [parseFuel_not] at h
      split at h
      · rename_i more hnot
        obtain ⟨⟨b, rest'⟩, hb, hc⟩ := Option.map_eq_some_iff.1 h
        cases hc
        have hlen := length_dropWord hnot
        have hrest : rest.length < more.length := ih hb
        omega
      · split at h
        · rename_i more hopen
          obtain ⟨⟨b, mid⟩, hb, h⟩ := Option.bind_eq_some_iff.1 h
          obtain ⟨rest', hclose, hc⟩ := Option.map_eq_some_iff.1 h
          cases hc
          have hlen := length_dropSym hopen
          have hmid := ih hb
          have hlen' : rest.length + 1 = mid.length := length_dropSym hclose
          omega
        · exact length_parseComparison h
    · obtain ⟨w, join, next, -, hchain⟩ := parseFuel_chain hlevel
      rw [hchain, parseChain_eq_some] at h
      obtain ⟨a, mid, ha, ⟨-, -, rfl⟩ | ⟨after, b, hafter, hb, -⟩⟩ := h
      · exact ih ha
      · have hmid := ih ha
        have hlen := length_dropWord hafter
        have hrest := ih hb
        omega

/-- **The result does not depend on the fuel, if there is enough.** -/
theorem parseFuel_enough {n m : Nat} {level : Level} {ts rest : List Token} {c : Cond}
    (h : parseFuel n level ts = some (c, rest)) (hm : fuel level ts ≤ m) :
    parseFuel m level ts = some (c, rest) := by
  induction n generalizing level ts rest c m with
  | zero => cases h
  | succ n ih =>
    obtain ⟨m, rfl⟩ : ∃ k, m = k + 1 := by
      cases m with
      | zero => cases level <;> simp [fuel] at hm
      | succ k => exact ⟨k, rfl⟩
    by_cases hlevel : level = .not
    · subst hlevel
      simp only [fuel] at hm
      rw [parseFuel_not] at h ⊢
      split at h
      · rename_i more hnot
        have hlen := length_dropWord hnot
        obtain ⟨⟨b, rest'⟩, hb, hc⟩ := Option.map_eq_some_iff.1 h
        have hb' := ih hb (m := m) (by simp only [fuel]; omega)
        simp only [hb', Option.map_some]
        exact congrArg some hc
      · split at h
        · rename_i more hopen
          have hlen := length_dropSym hopen
          obtain ⟨⟨b, mid⟩, hb, h⟩ := Option.bind_eq_some_iff.1 h
          have hb' := ih hb (m := m) (by simp only [fuel]; omega)
          simp only [hb', Option.bind_some]
          exact h
        · exact h
    · obtain ⟨w, join, next, hnext, hchain⟩ := parseFuel_chain hlevel
      have hfuel := hnext ts
      rw [hchain, parseChain_eq_some] at h ⊢
      obtain ⟨a, mid, ha, hrest⟩ := h
      refine ⟨a, mid, ih ha (by omega), ?_⟩
      rcases hrest with hnone | ⟨after, b, hafter, hb, hc⟩
      · exact .inl hnone
      · have hmid := length_parseFuel ha
        have hlen := length_dropWord hafter
        have hless : fuel level after < fuel level ts := fuel_lt (by omega)
        exact .inr ⟨after, b, hafter, ih hb (by omega), hc⟩

/-! ## The grammar -/

theorem parse_of_fuel {n : Nat} {level : Level} {ts rest : List Token} {c : Cond}
    (h : parseFuel n level ts = some (c, rest)) : parse level ts = some (c, rest) :=
  parseFuel_enough h le_rfl

theorem length_parse {level : Level} {ts rest : List Token} {c : Cond}
    (h : parse level ts = some (c, rest)) : rest.length < ts.length :=
  length_parseFuel h

section Grammar

variable {ts rest : List Token} {c : Cond}

/-- The rule of `parseChain` without fuel. -/
theorem parse_chain_iff {level next : Level} {w : List Char} {join : Cond → Cond → Cond}
    (hnext : fuel next ts < fuel level ts) (hchain : ∀ n,
      parseFuel (n + 1) level ts = parseChain w join (parseFuel n next) (parseFuel n level) ts) :
    parse level ts = some (c, rest) ↔ ∃ a mid, parse next ts = some (a, mid) ∧
      ((dropWord w mid = none ∧ c = a ∧ rest = mid) ∨
        ∃ after b, dropWord w mid = some after ∧ parse level after = some (b, rest) ∧
          c = join a b) := by
  constructor
  · intro h
    have h' := parseFuel_enough h (m := fuel level ts + 1) (Nat.le_succ _)
    rw [hchain, parseChain_eq_some] at h'
    obtain ⟨a, mid, ha, hrest⟩ := h'
    refine ⟨a, mid, parse_of_fuel ha, ?_⟩
    rcases hrest with hnone | ⟨after, b, hafter, hb, hc⟩
    · exact .inl hnone
    · exact .inr ⟨after, b, hafter, parse_of_fuel hb, hc⟩
  · rintro ⟨a, mid, ha, hrest⟩
    refine parse_of_fuel (n := fuel level ts + 1) ?_
    rw [hchain, parseChain_eq_some]
    refine ⟨a, mid, parseFuel_enough ha hnext.le, ?_⟩
    rcases hrest with hnone | ⟨after, b, hafter, hb, hc⟩
    · exact .inl hnone
    · have hmid := length_parse ha
      have hlen := length_dropWord hafter
      have hless : fuel level after < fuel level ts := fuel_lt (by omega)
      exact .inr ⟨after, b, hafter, parseFuel_enough hb hless.le, hc⟩

theorem parse_or_iff : parse .or ts = some (c, rest) ↔ ∃ a mid, parse .and ts = some (a, mid) ∧
    ((dropWord "OR".toList mid = none ∧ c = a ∧ rest = mid) ∨
      ∃ after b, dropWord "OR".toList mid = some after ∧ parse .or after = some (b, rest) ∧
        c = .or a b) :=
  parse_chain_iff (by simp [fuel]) fun _ => rfl

theorem parse_and_iff : parse .and ts = some (c, rest) ↔ ∃ a mid, parse .not ts = some (a, mid) ∧
    ((dropWord "AND".toList mid = none ∧ c = a ∧ rest = mid) ∨
      ∃ after b, dropWord "AND".toList mid = some after ∧ parse .and after = some (b, rest) ∧
        c = .and a b) :=
  parse_chain_iff (by simp [fuel]) fun _ => rfl

theorem parse_comparison (hnot : dropWord "NOT".toList ts = none) (hopen : dropSym '(' ts = none)
    (h : parseComparison ts = some (c, rest)) : parse .not ts = some (c, rest) := by
  refine parse_of_fuel (n := 1) ?_
  rw [parseFuel_not, hnot, hopen]
  exact h

/-- A comparison in front of `AND` is joined to the operands of that `AND` only. -/
theorem parse_and_cons {cmp : List Token} {a b : Cond} (hnot : dropWord "NOT".toList cmp = none)
    (hopen : dropSym '(' cmp = none)
    (ha : parseComparison cmp = some (a, .word "AND".toList :: ts))
    (hb : parse .and ts = some (b, rest)) : parse .and cmp = some (.and a b, rest) := by
  refine parse_and_iff.2 ⟨a, _, parse_comparison hnot hopen ha, .inr ⟨ts, b, ?_, hb, rfl⟩⟩
  simp [dropWord]

/-- Only `OR` at the top level makes a condition of the form `or`. -/
theorem not_or_of_parse_and (h : parse .and ts = some (c, rest)) (a b : Cond) : c ≠ .or a b := by
  obtain ⟨d, mid, hd, ⟨-, rfl, -⟩ | ⟨_, _, -, -, rfl⟩⟩ := parse_and_iff.1 h
  · have hd : parseFuel (3 * ts.length + 1) .not ts = some (c, mid) := hd
    rw [parseFuel_not] at hd
    rintro rfl
    split at hd
    · obtain ⟨_, -, hc⟩ := Option.map_eq_some_iff.1 hd
      cases hc
    · split at hd
      · obtain ⟨_, -, hd⟩ := Option.bind_eq_some_iff.1 hd
        obtain ⟨_, -, hc⟩ := Option.map_eq_some_iff.1 hd
        cases hc
      · obtain ⟨_, -, hd⟩ := Option.bind_eq_some_iff.1 hd
        simp only at hd
        split at hd
        · unfold parseNullTest at hd
          split at hd
          · cases hd
          · obtain ⟨_, -, hc⟩ := Option.map_eq_some_iff.1 hd
            cases hc
        · obtain ⟨_, -, hd⟩ := Option.bind_eq_some_iff.1 hd
          obtain ⟨_, -, hc⟩ := Option.map_eq_some_iff.1 hd
          cases hc
  · nofun

/-- Change the first operand of the `OR` at the top level. -/
def Cond.mapFirst (p : Cond → Cond) : Cond → Cond
  | .or a b => .or (p a) b
  | c => p c

/-- The other operands of the `OR` at the top level. -/
def Cond.later : Cond → Option Cond
  | .or _ b => some b
  | _ => none

theorem mapFirst_of_not_or {p : Cond → Cond} (h : ∀ a b, c ≠ .or a b) : c.mapFirst p = p c := by
  cases c with
  | or a b => exact absurd rfl (h a b)
  | _ => rfl

/-- **What binds as `AND` in front of a condition reaches its first operand only.** -/
theorem parse_or_mapFirst {us : List Token} {p : Cond → Cond}
    (hp : ∀ a mid, parse .and ts = some (a, mid) → parse .and us = some (p a, mid))
    (h : parse .or ts = some (c, rest)) : parse .or us = some (c.mapFirst p, rest) := by
  obtain ⟨a, mid, ha, ⟨hnone, rfl, rfl⟩ | ⟨after, b, hafter, hb, rfl⟩⟩ := parse_or_iff.1 h
  · rw [mapFirst_of_not_or (not_or_of_parse_and ha)]
    exact parse_or_iff.2 ⟨p c, rest, hp c rest ha, .inl ⟨hnone, rfl, rfl⟩⟩
  · exact parse_or_iff.2 ⟨p a, mid, hp a mid ha, .inr ⟨after, b, hafter, hb, rfl⟩⟩

/-- Tokens without a `WHERE` are in front of it. -/
theorem decide_ne_where {us : List Token} (h : .word "WHERE".toList ∉ us) :
    ∀ t ∈ us, decide (t ≠ .word "WHERE".toList) = true := by
  intro t ht
  apply decide_eq_true
  rintro rfl
  exact h ht

/-- The first `WHERE` of the tokens is the one of the clause. -/
theorem parseSelect_iff {sel : Select} (hts : .word "WHERE".toList ∉ ts) :
    parseSelect (ts ++ .word "WHERE".toList :: rest) = some sel ↔
      ts.head? = some (.word "SELECT".toList) ∧ sel.head = ts ∧
        parse .or rest = some (sel.cond, sel.tail) ∧ Clauses sel.tail := by
  have hall := decide_ne_where hts
  have hwhere : ¬ decide (Token.word "WHERE".toList ≠ .word "WHERE".toList) = true :=
    fun h => of_decide_eq_true h rfl
  have hdrop : (ts ++ .word "WHERE".toList :: rest).dropWhile (· ≠ .word "WHERE".toList) =
      .word "WHERE".toList :: rest := by
    rw [List.dropWhile_append_of_pos hall]
    exact List.dropWhile_cons_of_neg hwhere
  have htake : (ts ++ .word "WHERE".toList :: rest).takeWhile (· ≠ .word "WHERE".toList) = ts := by
    rw [List.takeWhile_append_of_pos hall,
      @List.takeWhile_cons_of_neg _ (fun t => decide (t ≠ .word "WHERE".toList)) _ rest hwhere,
      List.append_nil]
  have hhead : (ts ++ .word "WHERE".toList :: rest).head? = some (.word "SELECT".toList) ↔
      ts.head? = some (.word "SELECT".toList) := by
    cases ts with
    | nil => exact iff_of_false (by simp) (by simp)
    | cons t ts => rfl
  unfold parseSelect
  rw [hdrop, htake]
  by_cases hsel : ts.head? = some (.word "SELECT".toList)
  · rw [if_pos (hhead.2 hsel)]
    constructor
    · intro h
      obtain ⟨⟨cond, tail⟩, hparse, h⟩ := Option.bind_eq_some_iff.1 h
      simp only at h
      split at h
      · rename_i htail
        cases h
        exact ⟨hsel, rfl, hparse, htail⟩
      · cases h
    · rintro ⟨-, rfl, hparse, htail⟩
      simp [hparse, htail]
  · rw [if_neg (mt hhead.1 hsel)]
    exact iff_of_false (by simp) fun h => hsel h.1

/-- A `SELECT` with a condition has a `WHERE` that is not its last token. -/
theorem exists_of_parseSelect {sel : Select} (h : parseSelect ts = some sel) :
    ∃ us vs, ts = us ++ .word "WHERE".toList :: vs ∧ .word "WHERE".toList ∉ us ∧ vs ≠ [] := by
  by_cases hmem : .word "WHERE".toList ∈ ts
  · obtain ⟨us, vs, rfl, hus⟩ := List.eq_append_cons_of_mem hmem
    refine ⟨us, vs, rfl, hus, ?_⟩
    have hlen := length_parse ((parseSelect_iff hus).1 h).2.2.1
    exact List.ne_nil_of_length_pos (by omega)
  · have hdrop : ts.dropWhile (· ≠ .word "WHERE".toList) = [] := by
      rw [List.dropWhile_eq_nil_iff]
      exact decide_ne_where hmem
    unfold parseSelect at h
    rw [hdrop] at h
    split at h <;> cases h

/-- A quoted name in front of the `WHERE` does not change the condition. -/
theorem parseSelect_quoted {us : List Token} {x : List Char} {sel : Select}
    (hts : .word "WHERE".toList ∉ ts) (h : parseSelect (ts ++ .quoted x :: us) = some sel)
    (y : List Char) :
    ∃ sel', parseSelect (ts ++ .quoted y :: us) = some sel' ∧ sel'.cond = sel.cond := by
  have hmem : .word "WHERE".toList ∈ us := by
    obtain ⟨p, q, hpq, -, -⟩ := exists_of_parseSelect h
    have hall : .word "WHERE".toList ∈ ts ++ .quoted x :: us := by rw [hpq]; simp
    rcases List.mem_append.1 hall with hmem | hmem
    · exact absurd hmem hts
    · simpa using hmem
  obtain ⟨p, q, rfl, hp⟩ := List.eq_append_cons_of_mem hmem
  have hclear : ∀ z, .word "WHERE".toList ∉ ts ++ .quoted z :: p := by
    intro z hz
    rcases List.mem_append.1 hz with hz | hz
    · exact hts hz
    · exact hp (by simpa using hz)
  have hassoc : ∀ z, ts ++ .quoted z :: (p ++ .word "WHERE".toList :: q) =
      (ts ++ .quoted z :: p) ++ .word "WHERE".toList :: q := by simp
  rw [hassoc] at h
  rw [hassoc]
  obtain ⟨hhead, -, hor, htail⟩ := (parseSelect_iff (hclear x)).1 h
  refine ⟨⟨ts ++ .quoted y :: p, sel.cond, sel.tail⟩, ?_, rfl⟩
  refine (parseSelect_iff (hclear y)).2 ⟨?_, rfl, hor, htail⟩
  cases ts with
  | nil => cases hhead
  | cons t ts => exact hhead

end Grammar

end Sql
