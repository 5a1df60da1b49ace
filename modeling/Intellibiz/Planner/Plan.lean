import Intellibiz.Sql.Lexer

/-!
# The query planner

Model of `crates/query-planner/src/lib.rs`, of its part of `crates/bindings/src/lib.rs` and of the
fallback in `packages/core/src/native/bridge.ts`.  The alphanumeric characters of Unicode are a
parameter.

* `QueryPlanner.plan`, `planSudo`, `toWhereClause` — the functions of the crate.
* `Native`, `Fallback` — what the bridge calls.

Principal results: `plan_eq_ok_iff` (when there is a plan, and which), `plan_where_tokens` (the
tokens of its clause) and `queryPlanWhere_agree_iff` (where the fallback answers as the planner).
-/

namespace Intellibiz.Planner

open Sql

abbrev Text := List Char

inductive QueryPlannerError where
  | strictTenancyViolation (table : Text)
  | permissionDenied (role permission table : Text)
  | invalidTableName (table : Text)
  deriving DecidableEq, Repr

def QueryPlannerError.message : QueryPlannerError → Text
  | .strictTenancyViolation table =>
    "strict tenancy violation: no tenant context is active for table '".toList ++
      (table ++ "'".toList)
  | .permissionDenied role permission table =>
    "permission denied: role '".toList ++ (role ++ ("' does not have '".toList ++
      (permission ++ ("' on '".toList ++ (table ++ "'".toList)))))
  | .invalidTableName table =>
    "table name contains invalid characters: '".toList ++ (table ++ "'".toList)

inductive QueryOperation where
  | select
  | insert
  | update
  | delete
  deriving DecidableEq, Repr

inductive FilterOperator where
  | eq
  | isNull
  | isNotNull
  deriving DecidableEq, Repr

inductive FilterValue where
  | string (v : Text)
  | null
  deriving DecidableEq, Repr

structure InjectedFilter where
  column : Text
  operator : FilterOperator
  value : FilterValue
  deriving DecidableEq, Repr

inductive GovernanceFlag where
  | sudoBypass
  | rawQuery
  | limitGuardrailApplied
  deriving DecidableEq, Repr

structure QueryPlan where
  table : Text
  operation : QueryOperation
  tenantId : Option Text
  tenancyColumn : Text
  includeDeleted : Bool
  limit : Option UInt32
  offset : Option UInt32
  injectedFilters : List InjectedFilter
  governanceFlags : List GovernanceFlag
  deriving DecidableEq, Repr

structure PlannerConfig where
  tenancyColumn : Text
  strict : Bool
  defaultLimit : UInt32
  deriving DecidableEq, Repr

def PlannerConfig.default : PlannerConfig where
  tenancyColumn := "org_id".toList
  strict := true
  defaultLimit := 100

structure QueryPlanner where
  config : PlannerConfig

def QueryPlanner.withDefaults : QueryPlanner := ⟨.default⟩

/-! ## The planner -/

namespace QueryPlanner

section Functions

variable (isAlphanumeric : Char → Bool)

def validTable (table : Text) : Bool :=
  table.all (fun c => isAlphanumeric c || c = '_') && !table.isEmpty

def validateTable (table : Text) : Except QueryPlannerError Unit :=
  if validTable isAlphanumeric table then .ok () else .error (.invalidTableName table)

/-- Step 2, the tenant filter. -/
def tenantFilters (config : PlannerConfig) (table : Text) :
    Option Text → Except QueryPlannerError (List InjectedFilter)
  | some tid => .ok [⟨config.tenancyColumn, .eq, .string tid⟩]
  | none => if config.strict then .error (.strictTenancyViolation table) else .ok []

/-- Step 3, the soft-delete filter. -/
def softDeleteFilters (operation : QueryOperation) : List InjectedFilter :=
  if operation = .select then [⟨"deleted_at".toList, .isNull, .null⟩] else []

/-- Step 4, the limit guardrail. -/
def effectiveLimit (config : PlannerConfig) :
    QueryOperation → Option UInt32 → Option UInt32 × List GovernanceFlag
  | .select, none => (some config.defaultLimit, [.limitGuardrailApplied])
  | .select, some l => (some l, [])
  | _, _ => (none, [])

def plan (p : QueryPlanner) (table : Text) (operation : QueryOperation) (tenantId : Option Text)
    (limit offset : Option UInt32) : Except QueryPlannerError QueryPlan := do
  validateTable isAlphanumeric table
  let injectedFilters ← tenantFilters p.config table tenantId
  let (limit, governanceFlags) := effectiveLimit p.config operation limit
  return { table, operation, tenantId, tenancyColumn := p.config.tenancyColumn,
           includeDeleted := false, limit, offset,
           injectedFilters := injectedFilters ++ softDeleteFilters operation, governanceFlags }

def planSudo (p : QueryPlanner) (table : Text) (operation : QueryOperation)
    (limit offset : Option UInt32) : Except QueryPlannerError QueryPlan := do
  validateTable isAlphanumeric table
  return { table, operation, tenantId := none, tenancyColumn := p.config.tenancyColumn,
           includeDeleted := true, limit, offset, injectedFilters := [],
           governanceFlags := [.sudoBypass] }

end Functions

/-- The clause of one filter; `v.replace('\'', "''")` is `escape`. -/
def clause (f : InjectedFilter) : Text :=
  match f.operator, f.value with
  | .eq, .string v => f.column ++ (" = '".toList ++ (escape v ++ "'".toList))
  | .isNull, _ => f.column ++ " IS NULL".toList
  | .isNotNull, _ => f.column ++ " IS NOT NULL".toList
  | .eq, .null => []

def toWhereClause (plan : QueryPlan) : Text :=
  if plan.injectedFilters = [] then []
  else " AND ".toList.intercalate ((plan.injectedFilters.map clause).filter (· ≠ []))

/-! ## What a plan is -/

variable {isAlphanumeric : Char → Bool}

theorem validTable_iff {table : Text} : validTable isAlphanumeric table = true ↔
    table ≠ [] ∧ ∀ c ∈ table, isAlphanumeric c = true ∨ c = '_' := by
  simp [validTable, and_comm]

/-- **When there is a plan, and which**: the table is valid, a tenant is given or need not be. -/
theorem plan_eq_ok_iff {p : QueryPlanner} {table : Text} {operation : QueryOperation}
    {tenantId : Option Text} {limit offset : Option UInt32} {plan : QueryPlan} :
    p.plan isAlphanumeric table operation tenantId limit offset = .ok plan ↔
      validTable isAlphanumeric table = true ∧
        ∃ filters, tenantFilters p.config table tenantId = .ok filters ∧
          plan = { table, operation, tenantId, tenancyColumn := p.config.tenancyColumn,
                   includeDeleted := false, limit := (effectiveLimit p.config operation limit).1,
                   offset, injectedFilters := filters ++ softDeleteFilters operation,
                   governanceFlags := (effectiveLimit p.config operation limit).2 } := by
  unfold QueryPlanner.plan validateTable
  by_cases hvalid : validTable isAlphanumeric table = true
  · cases hfilters : tenantFilters p.config table tenantId with
    | error e => simp [hvalid, bind, Except.bind]
    | ok filters => simp [hvalid, bind, Except.bind, pure, Except.pure, eq_comm]
  · simp [hvalid, bind, Except.bind]

theorem planSudo_eq_ok {p : QueryPlanner} {table : Text} {operation : QueryOperation}
    {limit offset : Option UInt32} {plan : QueryPlan}
    (h : p.planSudo isAlphanumeric table operation limit offset = .ok plan) :
    plan.injectedFilters = [] ∧ plan.governanceFlags = [.sudoBypass] := by
  unfold planSudo validateTable at h
  split at h
  · cases h
    exact ⟨rfl, rfl⟩
  · cases h

/-- In strict mode the tenant filter is there. -/
theorem tenantFilters_strict {config : PlannerConfig} (hstrict : config.strict = true)
    {table : Text} {tenantId : Option Text} {filters : List InjectedFilter} :
    tenantFilters config table tenantId = .ok filters ↔
      ∃ tid, tenantId = some tid ∧ filters = [⟨config.tenancyColumn, .eq, .string tid⟩] := by
  cases tenantId with
  | none => simp [tenantFilters, hstrict]
  | some tid => simp [tenantFilters, eq_comm]

/-! ## The tokens of the clause -/

/-- A column name: letters, digits and underscores. -/
def Identifier (column : Text) : Prop := column ≠ [] ∧ ∀ c ∈ column, isIdent c = true

instance (column : Text) : Decidable (Identifier column) := inferInstanceAs (Decidable (_ ∧ _))

/-- The text up to the opening quote. -/
theorem lex_column {column : Text} (h : Identifier column) (l : Text) :
    lex .gap (column ++ (" = '".toList ++ l)) =
      emit [.word (upper column), .sym '='] (lex (.str []) l) := by
  have hgap : lex .gap (" = '".toList ++ l) = emit [.sym '='] (lex (.str []) l) := by
    show lex .gap (' ' :: '=' :: ' ' :: '\'' :: l) = _
    simp only [lex]
    simp [step, start, isSpace, isIdent]
  rw [lex_ident h.1 h.2, lex_word]
  show emit [.word (upper (column ++ []))] (lex .gap (" = '".toList ++ l)) = _
  rw [List.append_nil, hgap, emit_emit]
  rfl

/-- `AND deleted_at IS NULL` -/
def softDeleteTokens : List Token :=
  [.word "AND".toList, .word "DELETED_AT".toList, .word "IS".toList, .word "NULL".toList]

/-- The clause of a tenant filter is one equation, whatever the tenant. -/
theorem tokens_tenant {column : Text} (h : Identifier column) (tid : Text) :
    tokens (column ++ (" = '".toList ++ (escape tid ++ "'".toList))) =
      some [.word (upper column), .sym '=', .str tid] := by
  have hliteral : lex (.str []) (escape tid ++ "'".toList) = some [.str tid] :=
    lex_escape_end [] tid
  rw [tokens, lex_column h, hliteral]
  rfl

theorem tokens_tenant_softDelete {column : Text} (h : Identifier column) (tid : Text) :
    tokens (column ++ (" = '".toList ++ (escape tid ++
      "' AND deleted_at IS NULL".toList))) =
      some ([.word (upper column), .sym '=', .str tid] ++ softDeleteTokens) := by
  have hliteral : lex (.str []) (escape tid ++ "' AND deleted_at IS NULL".toList) =
      emit [.str tid] (lex .gap " AND deleted_at IS NULL".toList) :=
    lex_escape [] tid (by decide) _
  have hrest : lex .gap " AND deleted_at IS NULL".toList = some softDeleteTokens := by decide
  rw [tokens, lex_column h, hliteral, hrest]
  rfl

/-- The text of the clause. -/
theorem toWhereClause_eq {plan : QueryPlan} {column tid : Text} {operation : QueryOperation}
    (h : plan.injectedFilters = [⟨column, .eq, .string tid⟩] ++ softDeleteFilters operation) :
    toWhereClause plan = column ++ (" = '".toList ++ (escape tid ++
      if operation = .select then "' AND deleted_at IS NULL".toList else "'".toList)) := by
  have hclause : clause ⟨column, .eq, .string tid⟩ ≠ [] := by simp [clause]
  unfold toWhereClause
  rw [h, if_neg (by simp)]
  by_cases hselect : operation = .select
  · simp [softDeleteFilters, hselect, clause, List.intercalate]
  · simp [softDeleteFilters, hselect, clause, List.intercalate]

theorem toWhereClause_planSudo {p : QueryPlanner} {table : Text} {operation : QueryOperation}
    {limit offset : Option UInt32} {plan : QueryPlan}
    (h : p.planSudo isAlphanumeric table operation limit offset = .ok plan) :
    toWhereClause plan = [] := by
  unfold toWhereClause
  rw [(planSudo_eq_ok h).1, if_pos rfl]

/-- **No tenant string escapes from the clause.**  In strict mode there is a plan exactly for a
valid table and a given tenant; its clause is the equation of the tenancy column with one literal
of that value, and behind it, for a `SELECT`, the soft-delete filter. -/
theorem plan_where_tokens (isAlphanumeric : Char → Bool) (p : QueryPlanner)
    (hstrict : p.config.strict = true) (hcolumn : Identifier p.config.tenancyColumn) (table : Text)
    (operation : QueryOperation) (tenantId : Option Text) (limit offset : Option UInt32) :
    ((∃ plan, p.plan isAlphanumeric table operation tenantId limit offset = .ok plan) ↔
        (table ≠ [] ∧ ∀ c ∈ table, isAlphanumeric c = true ∨ c = '_') ∧
          ∃ tid, tenantId = some tid) ∧
      ∀ plan tid, tenantId = some tid →
        p.plan isAlphanumeric table operation tenantId limit offset = .ok plan →
        tokens (toWhereClause plan) =
          some ([.word (upper p.config.tenancyColumn), .sym '=', .str tid] ++
            if operation = .select then softDeleteTokens else []) := by
  constructor
  · simp only [plan_eq_ok_iff, validTable_iff, tenantFilters_strict hstrict]
    constructor
    · rintro ⟨plan, hvalid, filters, ⟨tid, htid, -⟩, -⟩
      exact ⟨hvalid, tid, htid⟩
    · rintro ⟨hvalid, tid, htid⟩
      exact ⟨_, hvalid, _, ⟨tid, htid, rfl⟩, rfl⟩
  · rintro plan tid rfl hplan
    obtain ⟨-, filters, hfilters, rfl⟩ := plan_eq_ok_iff.1 hplan
    cases hfilters
    rw [toWhereClause_eq rfl]
    split
    · exact tokens_tenant_softDelete hcolumn tid
    · rw [List.append_nil]
      exact tokens_tenant hcolumn tid

/-- An injection attempt. -/
theorem plan_where_tokens_injection :
    ∃ plan, QueryPlanner.withDefaults.plan Char.isAlphanum "orders".toList .delete
        (some "' OR '1'='1".toList) none none = .ok plan ∧
      tokens (toWhereClause plan) =
        some [.word "ORG_ID".toList, .sym '=', .str "' OR '1'='1".toList] := by
  have hcolumn : Identifier QueryPlanner.withDefaults.config.tenancyColumn :=
    ⟨List.cons_ne_nil _ _, List.all_eq_true.1 rfl⟩
  have h := plan_where_tokens Char.isAlphanum QueryPlanner.withDefaults rfl hcolumn
    "orders".toList .delete (some "' OR '1'='1".toList) none none
  have hplan : QueryPlanner.withDefaults.plan Char.isAlphanum "orders".toList .delete
      (some "' OR '1'='1".toList) none none = .ok _ := plan_eq_ok_iff.2 ⟨rfl, _, rfl, rfl⟩
  exact ⟨_, hplan, h.2 _ _ rfl hplan⟩

end QueryPlanner

/-! ## The bridge -/

namespace Native

/-- `query_plan_where`; a rejection carries the message. -/
def queryPlanWhere (isAlphanumeric : Char → Bool) (table tenantId : Text) : Except Text Text :=
  match QueryPlanner.withDefaults.plan isAlphanumeric table .select (some tenantId) none none with
  | .ok plan => .ok (QueryPlanner.toWhereClause plan)
  | .error e => .error e.message

def queryPlanSudo (isAlphanumeric : Char → Bool) (table : Text) : Except Text Text :=
  match QueryPlanner.withDefaults.planSudo isAlphanumeric table .select none none with
  | .ok plan => .ok (QueryPlanner.toWhereClause plan)
  | .error e => .error e.message

end Native

namespace Fallback

/-- `` `org_id = '${tenantId}' AND deleted_at IS NULL` `` -/
def queryPlanWhere (_table tenantId : Text) : Except Text Text :=
  .ok ("org_id = '".toList ++ (tenantId ++ "' AND deleted_at IS NULL".toList))

def queryPlanSudo (_table : Text) : Except Text Text := .ok []

end Fallback

section Bridge

variable {isAlphanumeric : Char → Bool} {table : Text}

open QueryPlanner

theorem native_of_valid (h : validTable isAlphanumeric table = true) (tenantId : Text) :
    Native.queryPlanWhere isAlphanumeric table tenantId =
      .ok ("org_id = '".toList ++ (escape tenantId ++ "' AND deleted_at IS NULL".toList)) := by
  have hplan : withDefaults.plan isAlphanumeric table .select (some tenantId) none none = .ok _ :=
    plan_eq_ok_iff.2 ⟨h, _, rfl, rfl⟩
  unfold Native.queryPlanWhere
  rw [hplan]
  exact congrArg Except.ok (@toWhereClause_eq _ "org_id".toList tenantId .select rfl)

theorem native_of_invalid (h : validTable isAlphanumeric table = false) (tenantId : Text) :
    Native.queryPlanWhere isAlphanumeric table tenantId =
      .error (QueryPlannerError.invalidTableName table).message := by
  have hplan : withDefaults.plan isAlphanumeric table .select (some tenantId) none none =
      .error (.invalidTableName table) := by
    simp [QueryPlanner.plan, validateTable, h, bind, Except.bind]
  unfold Native.queryPlanWhere
  rw [hplan]

/-- **The fallback answers as the planner does** exactly for a valid table and a tenant without
quotes. -/
theorem queryPlanWhere_agree_iff (isAlphanumeric : Char → Bool) (table tenantId : Text) :
    (∀ clause, Fallback.queryPlanWhere table tenantId = .ok clause ↔
        Native.queryPlanWhere isAlphanumeric table tenantId = .ok clause) ↔
      (table ≠ [] ∧ ∀ c ∈ table, isAlphanumeric c = true ∨ c = '_') ∧ '\'' ∉ tenantId := by
  rw [← validTable_iff, ← escape_eq_self_iff]
  cases hvalid : validTable isAlphanumeric table with
  | false =>
    -- the fallback returns a clause, the planner none
    rw [native_of_invalid hvalid]
    simp [Fallback.queryPlanWhere]
  | true =>
    rw [native_of_valid hvalid]
    simp only [Fallback.queryPlanWhere, Except.ok.injEq, true_and]
    constructor
    · intro h
      have heq := (h _).1 rfl
      exact List.append_cancel_right (List.append_cancel_left heq)
    · intro h clause
      rw [h]

/-- Any tenant whose name has an apostrophe, and any table at all. -/
theorem queryPlanWhere_disagree :
    Native.queryPlanWhere Char.isAlphanum "orders".toList "o'neil".toList =
        .ok "org_id = 'o''neil' AND deleted_at IS NULL".toList ∧
      Fallback.queryPlanWhere "orders".toList "o'neil".toList =
        .ok "org_id = 'o'neil' AND deleted_at IS NULL".toList ∧
      Native.queryPlanWhere Char.isAlphanum "a b".toList "org_1".toList =
        .error (QueryPlannerError.invalidTableName "a b".toList).message ∧
      Fallback.queryPlanWhere "a b".toList "org_1".toList =
        .ok "org_id = 'org_1' AND deleted_at IS NULL".toList :=
  ⟨native_of_valid rfl _, rfl, native_of_invalid rfl _, rfl⟩

/-- A sudo clause is empty on both sides; the fallback has one for every table. -/
theorem queryPlanSudo_agree_iff :
    Fallback.queryPlanSudo table = Native.queryPlanSudo isAlphanumeric table ↔
      validTable isAlphanumeric table = true := by
  unfold Native.queryPlanSudo planSudo validateTable
  cases hvalid : validTable isAlphanumeric table with
  | true => simp [Fallback.queryPlanSudo, toWhereClause, bind, Except.bind, pure, Except.pure]
  | false => simp [Fallback.queryPlanSudo, bind, Except.bind]

end Bridge

end Intellibiz.Planner
