import Intellibiz.Sql.Condition

/-!
# Conditions that restrict a column

* `Token.Names` — a token that can be read as a column.
* `Cond.fixes` — every way for the condition to hold goes through `column = value`.

Principal results: `parseSelect_names` (a column of a parsed condition is named by a token) and
`column_of_fixes` (where such a condition holds, the column has the value).
-/

namespace Sql

/-! ## The tokens of the columns -/

/-- The token can be read as the column of this name. -/
def Token.Names (name : List Char) : Token → Prop
  | .word w => lower w = name
  | .quoted q => q = name
  | _ => False

/-- The columns are named by tokens of `ts`, of which `rest` is the end. -/
structure NamedBy (ts rest : List Token) (columns : List (List Char)) : Prop where
  rest_suffix : rest <:+ ts
  named : ∀ name ∈ columns, ∃ t ∈ ts, t.Names name

namespace NamedBy

variable {ts us mid rest : List Token} {columns columns' : List (List Char)}

theorem widen (h : NamedBy us rest columns) (hts : us <:+ ts) : NamedBy ts rest columns := by
  refine ⟨h.rest_suffix.trans hts, fun name hname => ?_⟩
  obtain ⟨t, ht, hnames⟩ := h.named name hname
  exact ⟨t, hts.subset ht, hnames⟩

theorem append (h : NamedBy ts mid columns) (h' : NamedBy mid rest columns') :
    NamedBy ts rest (columns ++ columns') := by
  refine ⟨h'.rest_suffix.trans h.rest_suffix, fun name hname => ?_⟩
  rcases List.mem_append.1 hname with hname | hname
  · exact h.named name hname
  · exact (h'.widen h.rest_suffix).named name hname

theorem shorten (h : NamedBy ts mid columns) (hrest : rest <:+ mid) : NamedBy ts rest columns :=
  ⟨hrest.trans h.rest_suffix, h.named⟩

end NamedBy

theorem suffix_of_dropWord {w : List Char} {ts rest : List Token} (h : dropWord w ts = some rest) :
    rest <:+ ts := by
  rw [eq_of_dropWord h]
  apply List.suffix_cons

theorem suffix_of_dropSym {c : Char} {ts rest : List Token} (h : dropSym c ts = some rest) :
    rest <:+ ts := by
  rw [eq_of_dropSym h]
  apply List.suffix_cons

theorem names_of_parseAtom {t : Token} {a : Operand} (h : parseAtom t = some a) :
    ∀ name ∈ a.columns, t.Names name := by
  intro name hname
  cases t with
  | word w =>
    simp only [parseAtom] at h
    split_ifs at h <;> cases h
    · cases hname
    · cases hname
    · cases hname
    · cases hname
    · obtain rfl := List.mem_singleton.1 hname
      rfl
  | quoted q =>
    cases h
    obtain rfl := List.mem_singleton.1 hname
    rfl
  | str v | param v =>
    cases h
    cases hname
  | sym c => cases h

theorem names_of_parseDotted {t u : Token} {a : Operand} (h : parseDotted t u = some a) :
    ∀ name ∈ a.columns, u.Names name := by
  unfold parseDotted at h
  split at h
  · rename_i hu
    cases h
    exact names_of_parseAtom hu
  · cases h
    intro name hname
    cases hname
  · cases h

theorem namedBy_parseUnsigned {ts rest : List Token} {a : Operand}
    (h : parseUnsigned ts = some (a, rest)) : NamedBy ts rest a.columns := by
  cases ts with
  | nil => cases h
  | cons t ts =>
    simp only [parseUnsigned] at h
    split at h
    · rename_i u more hdot
      obtain ⟨b, hb, heq⟩ := Option.map_eq_some_iff.1 h
      cases heq
      have hsuffix := suffix_of_dropSym hdot
      have hu : u ∈ t :: ts := List.mem_cons_of_mem _ (hsuffix.subset List.mem_cons_self)
      refine ⟨?_, fun name hname => ⟨u, hu, names_of_parseDotted hb name hname⟩⟩
      exact ((List.suffix_cons u _).trans hsuffix).trans (List.suffix_cons t ts)
    · cases h
    · obtain ⟨b, hb, heq⟩ := Option.map_eq_some_iff.1 h
      cases heq
      refine ⟨List.suffix_cons t _, fun name hname => ?_⟩
      exact ⟨t, List.mem_cons_self, names_of_parseAtom hb name hname⟩

theorem namedBy_parseOperand {ts rest : List Token} {a : Operand}
    (h : parseOperand ts = some (a, rest)) : NamedBy ts rest a.columns := by
  unfold parseOperand at h
  split at h
  · exact namedBy_parseUnsigned h
  · rename_i more hminus
    split at h
    · rename_i q rest' hnum
      cases h
      exact (namedBy_parseUnsigned hnum).widen (suffix_of_dropSym hminus)
    · cases h

theorem suffix_of_parseOp {ts rest : List Token} {op : CompareOp} (h : parseOp ts = some (op, rest)) :
    rest <:+ ts := by
  unfold parseOp at h
  split at h <;> cases h
  all_goals
    first
      | apply List.suffix_cons
      | exact (List.suffix_cons _ _).trans (List.suffix_cons _ _)

theorem namedBy_parseComparison {ts rest : List Token} {c : Cond}
    (h : parseComparison ts = some (c, rest)) : NamedBy ts rest c.columns := by
  obtain ⟨⟨a, more⟩, ha, h⟩ := Option.bind_eq_some_iff.1 h
  have hoperand := namedBy_parseOperand ha
  simp only at h
  split at h
  · rename_i more' his
    have hsuffix := suffix_of_dropWord his
    unfold parseNullTest at h
    split at h
    · rename_i more'' hnull
      cases h
      exact hoperand.shorten ((suffix_of_dropWord hnull).trans hsuffix)
    · obtain ⟨more'', hnot, hc⟩ := Option.map_eq_some_iff.1 h
      obtain ⟨more3, hword, hnull⟩ := Option.bind_eq_some_iff.1 hnot
      cases hc
      exact hoperand.shorten
        (((suffix_of_dropWord hnull).trans (suffix_of_dropWord hword)).trans hsuffix)
  · obtain ⟨⟨op, more'⟩, hop, h⟩ := Option.bind_eq_some_iff.1 h
    obtain ⟨⟨b, more''⟩, hb, hc⟩ := Option.map_eq_some_iff.1 h
    cases hc
    exact hoperand.append ((namedBy_parseOperand hb).widen (suffix_of_parseOp hop))

theorem namedBy_parseFuel {n : Nat} {level : Level} {ts rest : List Token} {c : Cond}
    (h : parseFuel n level ts = some (c, rest)) : NamedBy ts rest c.columns := by
  induction n generalizing level ts rest c with
  | zero => cases h
  | succ n ih =>
    have hchain : ∀ {w : List Char} {join : Cond → Cond → Cond} {next : Level},
        (∀ a b, (join a b).columns = a.columns ++ b.columns) →
        parseChain w join (parseFuel n next) (parseFuel n level) ts = some (c, rest) →
        NamedBy ts rest c.columns := by
      intro w join next hjoin hparse
      obtain ⟨a, mid, ha, ⟨-, rfl, rfl⟩ | ⟨after, b, hafter, hb, rfl⟩⟩ := parseChain_eq_some.1 hparse
      · exact ih ha
      · rw [hjoin]
        exact (ih ha).append ((ih hb).widen (suffix_of_dropWord hafter))
    cases level with
    | or => exact hchain (fun _ _ => rfl) h
    | and => exact hchain (fun _ _ => rfl) h
    | not =>
      rw [parseFuel_not] at h
      split at h
      · rename_i more hnot
        obtain ⟨⟨b, rest'⟩, hb, hc⟩ := Option.map_eq_some_iff.1 h
        cases hc
        have hnamed : NamedBy more rest b.columns := ih hb
        exact hnamed.widen (suffix_of_dropWord hnot)
      · split at h
        · rename_i more hopen
          obtain ⟨⟨b, mid⟩, hb, h⟩ := Option.bind_eq_some_iff.1 h
          obtain ⟨rest', hclose, hc⟩ := Option.map_eq_some_iff.1 h
          cases hc
          have hnamed : NamedBy more mid b.columns := ih hb
          exact (hnamed.shorten (suffix_of_dropSym hclose)).widen (suffix_of_dropSym hopen)
        · exact namedBy_parseComparison h

/-- **A column of the condition of a `SELECT` is named by one of its tokens.** -/
theorem parseSelect_names {ts : List Token} {sel : Select} (h : parseSelect ts = some sel) :
    ∀ name ∈ sel.cond.columns, ∃ t ∈ ts, t.Names name := by
  obtain ⟨us, vs, rfl, hus, -⟩ := exists_of_parseSelect h
  have hparse := ((parseSelect_iff hus).1 h).2.2.1
  have hnamed : NamedBy vs sel.tail sel.cond.columns := namedBy_parseFuel hparse
  exact (hnamed.widen ((List.suffix_cons _ vs).trans (List.suffix_append us _))).named

/-! ## A column with one value -/

theorem order_eq {α : Type} [DecidableEq α] [LT α] [DecidableLT α] {a b : α}
    (h : order a b = .eq) : a = b := by
  unfold order at h
  split_ifs at h with heq
  exact heq

theorem Value.order_eq {a b : Value} (h : a.order b = some .eq) : a = b := by
  cases a <;> cases b <;> simp only [Value.order, Option.some.injEq, reduceCtorEq] at h
  · rw [Sql.order_eq h]
  · rw [Sql.order_eq h]
  · rw [Sql.order_eq h]

/-- The value of an operand that is not a column. -/
def Operand.fixed (env : Env) : Operand → Option Value
  | .column _ => none
  | .const v => some v
  | .param digits => some (env digits)

theorem Operand.eval_of_fixed {env : Env} {a : Operand} {v : Value} (h : a.fixed env = some v)
    (row : Row) : a.eval env row = v := by
  cases a with
  | column name => cases h
  | const w => exact Option.some.inj h
  | param digits => exact Option.some.inj h

/-- The condition can be true (false, for `positive = false`) only with this value in the
column. -/
def Cond.fixes (env : Env) (column : List Char) (value : Value) : Bool → Cond → Bool
  | positive, .compare op a b =>
    decide (op = if positive then .eq else .ne) &&
      (decide (a = .column column ∧ b.fixed env = some value) ||
        decide (b = .column column ∧ a.fixed env = some value))
  | _, .isNull _ | _, .isNotNull _ => false
  | positive, .not c => c.fixes env column value (!positive)
  | positive, .and a b =>
    if positive then a.fixes env column value positive || b.fixes env column value positive
    else a.fixes env column value positive && b.fixes env column value positive
  | positive, .or a b =>
    if positive then a.fixes env column value positive && b.fixes env column value positive
    else a.fixes env column value positive || b.fixes env column value positive
  | positive, .paren c => c.fixes env column value positive

theorem both_false_iff {a b : Truth} :
    both a b = some false ↔ a = some false ∨ b = some false := by
  rcases a with _ | _ | _ <;> rcases b with _ | _ | _ <;> simp [both]

theorem either_false_iff {a b : Truth} :
    either a b = some false ↔ a = some false ∧ b = some false := by
  rcases a with _ | _ | _ <;> rcases b with _ | _ | _ <;> simp [either]

theorem negate_eq_some {a : Truth} {p : Bool} (h : negate a = some p) : a = some (!p) := by
  rcases a with _ | _ | _ <;> cases p <;> simp_all [negate]

/-- **Where a condition that fixes the column has the truth value, the column has the value.** -/
theorem column_of_eval {env : Env} {column : List Char} {value : Value} {row : Row} {c : Cond}
    {positive : Bool} (hfix : c.fixes env column value positive = true)
    (h : c.eval env row = some positive) : row column = value := by
  induction c generalizing positive with
  | compare op a b =>
    simp only [Cond.fixes, Bool.and_eq_true, Bool.or_eq_true, decide_eq_true_eq] at hfix
    obtain ⟨rfl, hsides⟩ := hfix
    obtain ⟨o, ho, hholds⟩ := Option.map_eq_some_iff.1 h
    have heq : o = .eq := by
      cases positive <;> simpa [CompareOp.holds] using hholds
    subst heq
    have hvalues := Value.order_eq ho
    rcases hsides with ⟨rfl, hb⟩ | ⟨rfl, ha⟩
    · rw [Operand.eval_of_fixed hb] at hvalues
      exact hvalues
    · rw [Operand.eval_of_fixed ha] at hvalues
      exact hvalues.symm
  | isNull a | isNotNull a => cases hfix
  | not c ih => exact ih hfix (negate_eq_some h)
  | and a b iha ihb =>
    cases positive with
    | true =>
      have hfix : a.fixes env column value true = true ∨ b.fixes env column value true = true := by
        simpa [Cond.fixes] using hfix
      obtain ⟨ha, hb⟩ := both_iff.1 h
      rcases hfix with hfix | hfix
      · exact iha hfix ha
      · exact ihb hfix hb
    | false =>
      have hfix : a.fixes env column value false = true ∧ b.fixes env column value false = true := by
        simpa [Cond.fixes] using hfix
      rcases both_false_iff.1 h with ha | hb
      · exact iha hfix.1 ha
      · exact ihb hfix.2 hb
  | or a b iha ihb =>
    cases positive with
    | true =>
      have hfix : a.fixes env column value true = true ∧ b.fixes env column value true = true := by
        simpa [Cond.fixes] using hfix
      rcases either_iff.1 h with ha | hb
      · exact iha hfix.1 ha
      · exact ihb hfix.2 hb
    | false =>
      have hfix : a.fixes env column value false = true ∨ b.fixes env column value false = true := by
        simpa [Cond.fixes] using hfix
      obtain ⟨ha, hb⟩ := either_false_iff.1 h
      rcases hfix with hfix | hfix
      · exact iha hfix ha
      · exact ihb hfix hb
  | paren c ih => exact ih hfix h

end Sql
