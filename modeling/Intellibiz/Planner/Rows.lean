import Intellibiz.Planner.Plan
import Intellibiz.Db.Strengthen

/-!
# The rows of a plan

`to_where_clause` (`crates/query-planner/src/lib.rs`) writes the filters of a plan as a text.  Here
the text is read as a database reads it, as a condition on rows.

* `ColumnName` — a name that is read as that of a column.
* `Keeps` — the rows that a clause lets through.

Principal results: `parse_tenant` and `parse_tenant_softDelete` (the condition that a clause is),
`planned_rows` (the rows of every plan) and `native_visible` (they are those that the `sql` tag
leaves to the tenant).
-/

namespace Intellibiz.Planner

open Sql QueryPlanner

/-- A name in lower case that is neither a number nor a word of the language. -/
structure ColumnName (column : Text) : Prop where
  identifier : Identifier column
  named : parseAtom (.word (upper column)) = some (.column column)

/-- There is no clause, or it is one condition and holds of the row. -/
def Keeps (env : Env) (clause : Text) (row : Row) : Prop :=
  clause = [] ∨ ∃ c, (tokens clause).bind (parse .or) = some (c, []) ∧ c.Holds env row

/-! ## The condition of a clause -/

theorem parse_or_of_and {ts : List Token} {c : Cond} (h : parse .and ts = some (c, [])) :
    parse .or ts = some (c, []) :=
  parse_or_iff.2 ⟨c, [], h, .inl ⟨rfl, rfl, rfl⟩⟩

theorem parse_and_of_not {ts : List Token} {c : Cond} (h : parse .not ts = some (c, [])) :
    parse .and ts = some (c, []) :=
  parse_and_iff.2 ⟨c, [], h, .inl ⟨rfl, rfl, rfl⟩⟩

/-- `column = 'tid'` -/
def tenantCond (column tid : Text) : Cond := .compare .eq (.column column) (.const (.text tid))

/-- `deleted_at IS NULL` -/
def softDeleteCond : Cond := .isNull (.column Db.deletedAtColumn)

section Tenant

variable {column tid : Text}

/-- The equation, up to what follows it. -/
theorem parseComparison_tenant (h : ColumnName column) {rest : List Token}
    (hrest : dropSym '.' rest = none) :
    parseComparison ([.word (upper column), .sym '=', .str tid] ++ rest) =
      some (tenantCond column tid, rest) := by
  have hcolumn : parseOperand (.word (upper column) :: .sym '=' :: .str tid :: rest) =
      some (.column column, .sym '=' :: .str tid :: rest) := by
    simp [parseOperand, parseUnsigned, dropSym, h.named]
  have hvalue : parseOperand (.str tid :: rest) = some (.const (.text tid), rest) := by
    have hminus : dropSym '-' (.str tid :: rest) = none := rfl
    rw [parseOperand, hminus]
    simp [parseUnsigned, hrest, parseAtom]
  show parseComparison (.word (upper column) :: .sym '=' :: .str tid :: rest) = _
  rw [parseComparison, hcolumn]
  show parseCompare (.column column) (.sym '=' :: .str tid :: rest) = _
  rw [parseCompare]
  show (parseOperand (.str tid :: rest)).map _ = _
  rw [hvalue]
  rfl

/-- The column is not called `NOT`. -/
theorem dropWord_not_tenant (h : ColumnName column) (ts : List Token) :
    dropWord "NOT".toList (.word (upper column) :: ts) = none := by
  refine if_neg fun hnot => ?_
  have hnamed := h.named
  have hnone : parseAtom (.word "NOT".toList) = none := by decide
  rw [hnot, hnone] at hnamed
  cases hnamed

theorem parse_tenant (h : ColumnName column) :
    parse .or [.word (upper column), .sym '=', .str tid] = some (tenantCond column tid, []) := by
  have hequation : parseComparison ([.word (upper column), .sym '=', .str tid] ++ []) =
      some (tenantCond column tid, []) := parseComparison_tenant h rfl
  exact parse_or_of_and
    (parse_and_of_not (parse_comparison (dropWord_not_tenant h _) rfl hequation))

theorem parse_softDelete : parse .and
    [.word "DELETED_AT".toList, .word "IS".toList, .word "NULL".toList] =
      some (softDeleteCond, []) := by
  decide

theorem parse_tenant_softDelete (h : ColumnName column) :
    parse .or ([.word (upper column), .sym '=', .str tid] ++ softDeleteTokens) =
      some (.and (tenantCond column tid) softDeleteCond, []) :=
  parse_or_of_and (parse_and_cons (dropWord_not_tenant h _) rfl (parseComparison_tenant h rfl)
    parse_softDelete)

end Tenant

/-! ## The rows -/

section Rows

variable {env : Env} {row : Row} {clause : Text}

theorem keeps_nil : Keeps env [] row := .inl rfl

theorem keeps_iff {ts : List Token} {c : Cond} (hne : clause ≠ []) (hts : tokens clause = some ts)
    (hc : parse .or ts = some (c, [])) : Keeps env clause row ↔ c.Holds env row := by
  have hread : (tokens clause).bind (parse .or) = some (c, []) := by
    rw [hts]
    exact hc
  constructor
  · rintro (h | ⟨d, hd, hholds⟩)
    · exact absurd h hne
    · rw [hread] at hd
      cases hd
      exact hholds
  · exact fun h => .inr ⟨c, hread, h⟩

/-- The clause of a tenant. -/
theorem keeps_tenant {column tid : Text} (h : ColumnName column) (operation : QueryOperation)
    {plan : QueryPlan}
    (hplan : plan.injectedFilters = [⟨column, .eq, .string tid⟩] ++ softDeleteFilters operation) :
    Keeps env (toWhereClause plan) row ↔
      row column = .text tid ∧ (operation = .select → row Db.deletedAtColumn = .null) := by
  have hne : toWhereClause plan ≠ [] := by
    rw [toWhereClause_eq hplan]
    exact fun hnil => h.identifier.1 (List.append_eq_nil_iff.1 hnil).1
  have htext := toWhereClause_eq hplan
  by_cases hselect : operation = .select
  · rw [if_pos hselect] at htext
    rw [keeps_iff hne (by rw [htext]; exact tokens_tenant_softDelete h.identifier tid)
      (parse_tenant_softDelete h), holds_and]
    simp only [hselect, true_implies]
    exact and_congr holds_eq_text holds_isNull
  · rw [if_neg hselect] at htext
    rw [keeps_iff hne (by rw [htext]; exact tokens_tenant h.identifier tid) (parse_tenant h)]
    simp only [hselect, false_implies, and_true]
    exact holds_eq_text

/-- The clause without a tenant. -/
theorem keeps_anyone (operation : QueryOperation) {plan : QueryPlan}
    (hplan : plan.injectedFilters = softDeleteFilters operation) :
    Keeps env (toWhereClause plan) row ↔
      (operation = .select → row Db.deletedAtColumn = .null) := by
  by_cases hselect : operation = .select
  · have htext : toWhereClause plan = "deleted_at IS NULL".toList := by
      unfold toWhereClause
      rw [hplan, softDeleteFilters, if_pos hselect]
      rfl
    rw [htext, keeps_iff (by simp) (by decide) (parse_or_of_and parse_softDelete)]
    simp only [hselect, true_implies]
    exact holds_isNull
  · have htext : toWhereClause plan = [] := by
      unfold toWhereClause
      rw [hplan, softDeleteFilters, if_neg hselect, if_pos rfl]
    rw [htext]
    exact iff_of_true keeps_nil fun h => absurd h hselect

end Rows

/-- **The rows of every plan**: of the tenant it was made for, whatever the text of its id, and of
all where the mode is not strict and there is none; those that a `SELECT` reads are not deleted. -/
theorem planned_rows (isAlphanumeric : Char → Bool) (p : QueryPlanner)
    (hcolumn : ColumnName p.config.tenancyColumn) {table : Text} {operation : QueryOperation}
    {tenantId : Option Text} {limit offset : Option UInt32} {plan : QueryPlan}
    (hplan : p.plan isAlphanumeric table operation tenantId limit offset = .ok plan) :
    (p.config.strict = true → tenantId.isSome) ∧
      ∀ (env : Env) (row : Row), Keeps env (toWhereClause plan) row ↔
        (∀ tid ∈ tenantId, row p.config.tenancyColumn = .text tid) ∧
          (operation = .select → row Db.deletedAtColumn = .null) := by
  obtain ⟨-, filters, hfilters, rfl⟩ := plan_eq_ok_iff.1 hplan
  constructor
  · intro hstrict
    obtain ⟨tid, rfl, -⟩ := (tenantFilters_strict hstrict).1 hfilters
    rfl
  · intro env row
    cases tenantId with
    | some tid =>
      cases hfilters
      rw [keeps_tenant hcolumn operation rfl]
      simp
    | none =>
      have hnone : filters = [] := by
        by_cases hstrict : p.config.strict = true
        · simp [tenantFilters, hstrict] at hfilters
        · simpa [tenantFilters, hstrict, eq_comm] using hfilters
      subst hnone
      rw [keeps_anyone operation rfl]
      simp

theorem columnName_org_id : ColumnName "org_id".toList :=
  ⟨⟨List.cons_ne_nil _ _, List.all_eq_true.1 rfl⟩, by decide⟩

/-- A tenant whose id is written to widen the clause gets the rows under this id. -/
theorem planned_rows_injection :
    ∃ plan, QueryPlanner.withDefaults.plan Char.isAlphanum "orders".toList .select
        (some "' OR '1'='1".toList) none none = .ok plan ∧
      ∀ (env : Env) (row : Row), row "org_id".toList = .text "org_1".toList →
        ¬ Keeps env (toWhereClause plan) row := by
  have hplan : QueryPlanner.withDefaults.plan Char.isAlphanum "orders".toList .select
      (some "' OR '1'='1".toList) none none = .ok _ := plan_eq_ok_iff.2 ⟨rfl, _, rfl, rfl⟩
  refine ⟨_, hplan, fun env row horg hkeeps => ?_⟩
  have hrow := (((planned_rows Char.isAlphanum withDefaults columnName_org_id hplan).2 env row).1
    hkeeps).1 _ rfl
  exact absurd (horg.symm.trans hrow) (by decide)

/-- **The planner and the `sql` tag leave the same rows to a tenant.** -/
theorem native_visible {isAlphanumeric : Char → Bool} {table tenantId clause : Text}
    (h : Native.queryPlanWhere isAlphanumeric table tenantId = .ok clause) (env : Env) (row : Row) :
    Keeps env clause row ↔ Db.Visible tenantId row := by
  cases hvalid : validTable isAlphanumeric table with
  | false =>
    rw [native_of_invalid hvalid] at h
    cases h
  | true =>
    have hplan : withDefaults.plan isAlphanumeric table .select (some tenantId) none none =
        .ok _ := plan_eq_ok_iff.2 ⟨hvalid, _, rfl, rfl⟩
    unfold Native.queryPlanWhere at h
    rw [hplan] at h
    cases h
    rw [keeps_tenant columnName_org_id .select rfl]
    simp only [true_implies]
    rfl

/-- A quote in the id is doubled. -/
example : Native.queryPlanWhere Char.isAlphanum "orders".toList "O'Neil".toList =
    .ok "org_id = 'O''Neil' AND deleted_at IS NULL".toList := by decide +kernel

end Intellibiz.Planner
