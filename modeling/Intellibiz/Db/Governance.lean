import Intellibiz.Machine
import Intellibiz.Db.Template

/-!
# The audit log of privileged queries

Model of `packages/db/src/tenancy/index.ts` and `governance/sudo.ts`.  A builder is recorded where it
is made, in the context of that call; its queries, made then or later and in any context, are not.
A raw query is recorded where it is made.

* `recordGovernance`, `dbSudo`, `SudoBuilder.sql`, `dbRaw` — the functions of the source.
* `Governance` — the log, the builders and the privileged queries of a run, with the position of
  the record of each.
* `Audited` — what the log says about the queries.

Principal results: `Audited.built` and `Audited.rawQuery` (a new record), and `run_audited`.
-/

namespace Intellibiz.Db

/-! ## The functions of the source -/

/-- What the log reads of an `IntellibizStore`. -/
structure Store where
  traceId : String
  tenantId : String
  userId : Option String
  deriving DecidableEq

inductive ContextMissingError where
  | contextMissing

def getContext : Option Store → Except ContextMissingError Store
  | some ctx => .ok ctx
  | none => .error .contextMissing

inductive GovernanceType where
  | sudoAccess
  | rawQuery
  deriving DecidableEq

def GovernanceType.code : GovernanceType → String
  | .sudoAccess => "GOVERNANCE_SUDO_ACCESS"
  | .rawQuery => "GOVERNANCE_RAW_QUERY"

structure GovernanceRecord where
  type : GovernanceType
  userId : Option String
  tenantId : String
  traceId : String
  timestamp : Nat
  sql : Option Text
  deriving DecidableEq

def recordGovernance (current : Option Store) (now : Nat) (type : GovernanceType)
    (sql : Option Text) (log : List GovernanceRecord) :
    Except ContextMissingError (List GovernanceRecord) := do
  let ctx ← getContext current
  return log ++ [{ type, userId := ctx.userId, tenantId := ctx.tenantId, traceId := ctx.traceId,
                   timestamp := now, sql }]

/-- `db.sudo()` -/
def dbSudo (current : Option Store) (now : Nat) (log : List GovernanceRecord) :
    Except ContextMissingError (List GovernanceRecord) :=
  recordGovernance current now .sudoAccess none log

def createSudoBuilder (current : Option Store) (now : Nat) (log : List GovernanceRecord) :
    Except ContextMissingError (List GovernanceRecord) :=
  dbSudo current now log

variable {V : Type}

/-- The `sql` of a builder; every value becomes a parameter. -/
def SudoBuilder.sql (strings : List Text) (values : List V) : SqlQuery V :=
  let composed := compose strings (values.map .value) ⟨[], []⟩
  { text := trim composed.sql, params := composed.params, tenantId := "__sudo__".toList }

/-- `db.raw(sqlString)` -/
def dbRaw (current : Option Store) (now : Nat) (sqlString : Text) (log : List GovernanceRecord) :
    Except ContextMissingError (SqlQuery V × List GovernanceRecord) := do
  let log ← recordGovernance current now .rawQuery (some sqlString) log
  return ({ text := sqlString, params := [], tenantId := "__raw__".toList }, log)

def createRawQuery (current : Option Store) (now : Nat) (sqlString : Text)
    (log : List GovernanceRecord) :
    Except ContextMissingError (SqlQuery V × List GovernanceRecord) :=
  dbRaw current now sqlString log

/-! ## Runs -/

/-- A builder, with the context it was made in and the position of its record. -/
structure SudoBuilder where
  context : Option Store
  record : Nat

inductive Origin where
  | builder (i : Nat)
  | raw
  deriving DecidableEq

/-- A query with the context it was made in, the position of its record and the length of the log
when it was returned. -/
structure PrivilegedQuery (V : Type) where
  query : SqlQuery V
  origin : Origin
  context : Option Store
  record : Nat
  logged : Nat

structure Governance (V : Type) where
  log : List GovernanceRecord
  builders : List SudoBuilder
  queries : List (PrivilegedQuery V)

inductive GovernanceEvent (V : Type) where
  | dbSudo (current : Option Store) (now : Nat)
  | createSudoBuilder (current : Option Store) (now : Nat)
  | sql (i : Nat) (current : Option Store) (strings : List Text) (values : List V)
  | dbRaw (current : Option Store) (now : Nat) (sqlString : Text)
  | createRawQuery (current : Option Store) (now : Nat) (sqlString : Text)

/-- The outcome of making a builder; a call outside a context throws. -/
def Governance.built (s : Governance V) (current : Option Store) :
    Except ContextMissingError (List GovernanceRecord) → Governance V
  | .ok log => { s with log, builders := s.builders ++ [⟨current, s.log.length⟩] }
  | .error _ => s

def Governance.rawQuery (s : Governance V) (current : Option Store) :
    Except ContextMissingError (SqlQuery V × List GovernanceRecord) → Governance V
  | .ok (query, log) =>
    { s with log, queries := s.queries ++ [⟨query, .raw, current, s.log.length, log.length⟩] }
  | .error _ => s

def Governance.step (s : Governance V) : GovernanceEvent V → Option (Governance V)
  | .dbSudo current now => some (s.built current (dbSudo current now s.log))
  | .createSudoBuilder current now => some (s.built current (createSudoBuilder current now s.log))
  | .sql i current strings values =>
    s.builders[i]?.map fun builder =>
      let query := SudoBuilder.sql strings values
      { s with
        queries := s.queries ++ [⟨query, .builder i, current, builder.record, s.log.length⟩] }
  | .dbRaw current now sqlString => some (s.rawQuery current (dbRaw current now sqlString s.log))
  | .createRawQuery current now sqlString =>
    some (s.rawQuery current (createRawQuery current now sqlString s.log))

def governance (V : Type) : Machine (Governance V) (GovernanceEvent V) where
  init := ⟨[], [], []⟩
  step := Governance.step

/-! ## What the log says -/

/-- The record carries the user, tenant and trace of a context. -/
def GovernanceRecord.Of (r : GovernanceRecord) (current : Option Store) : Prop :=
  ∃ ctx, current = some ctx ∧ r.userId = ctx.userId ∧ r.tenantId = ctx.tenantId ∧
    r.traceId = ctx.traceId

def Governance.rawQueries (s : Governance V) : List (PrivilegedQuery V) :=
  s.queries.filter fun q => q.origin = .raw

/-- The positions of the records of all builders and raw queries. -/
def Governance.records (s : Governance V) : List Nat :=
  s.builders.map SudoBuilder.record ++ s.rawQueries.map PrivilegedQuery.record

/-- Builders and raw queries have a record each, and there are no others; that of a raw query is
about the query and carries its context, a query of a builder goes by the record of the builder,
which carries the context that the builder was made in. -/
structure Audited (s : Governance V) : Prop where
  count : s.log.length = s.builders.length + s.rawQueries.length
  own : s.records.Nodup
  builder : ∀ b ∈ s.builders, ∃ r, s.log[b.record]? = some r ∧ r.type = .sudoAccess ∧ r.Of b.context
  viaBuilder : ∀ q ∈ s.queries, ∀ i, q.origin = .builder i →
    ∃ b, s.builders[i]? = some b ∧ q.record = b.record
  raw : ∀ q ∈ s.queries, q.origin = .raw →
    ∃ r, s.log[q.record]? = some r ∧ r.type = .rawQuery ∧ r.Of q.context ∧
      r.sql = some q.query.text
  preceded : ∀ q ∈ s.queries, q.record < q.logged

theorem recordGovernance_ok {current : Option Store} {now : Nat} {type : GovernanceType}
    {sql : Option Text} {log log' : List GovernanceRecord}
    (h : recordGovernance current now type sql log = .ok log') :
    ∃ r, log' = log ++ [r] ∧ r.type = type ∧ r.Of current ∧ r.sql = sql := by
  cases current with
  | none => cases h
  | some ctx =>
    cases h
    exact ⟨_, rfl, rfl, ⟨ctx, rfl, rfl, rfl, rfl⟩, rfl⟩

theorem getElem?_snoc {α : Type} {l : List α} {i : Nat} {a b : α} (h : l[i]? = some a) :
    (l ++ [b])[i]? = some a := by
  rw [List.getElem?_append_left (List.getElem?_eq_some_iff.1 h).1]
  exact h

section Steps

variable {s : Governance V}

/-- Every record that is in use lies in the log. -/
theorem Audited.records_lt (hs : Audited s) : ∀ i ∈ s.records, i < s.log.length := by
  intro i hi
  rcases List.mem_append.1 hi with hi | hi
  · obtain ⟨b, hb, rfl⟩ := List.mem_map.1 hi
    obtain ⟨r, hr, -⟩ := hs.builder b hb
    exact (List.getElem?_eq_some_iff.1 hr).1
  · obtain ⟨q, hq, rfl⟩ := List.mem_map.1 hi
    obtain ⟨hq, horigin⟩ := List.mem_filter.1 hq
    obtain ⟨r, hr, -⟩ := hs.raw q hq (of_decide_eq_true horigin)
    exact (List.getElem?_eq_some_iff.1 hr).1

/-- The next record is not in use. -/
theorem Audited.fresh (hs : Audited s) : s.log.length ∉ s.records := by
  intro hmem
  exact absurd (hs.records_lt _ hmem) (lt_irrefl _)

/-- **A builder adds its record.** -/
theorem Audited.built (hs : Audited s) (current : Option Store) (now : Nat) :
    Audited (s.built current (dbSudo current now s.log)) := by
  cases h : dbSudo current now s.log with
  | error e => exact hs
  | ok log =>
    obtain ⟨r, rfl, htype, hof, -⟩ := recordGovernance_ok h
    refine ⟨?_, ?_, ?_, ?_, ?_, hs.preceded⟩
    · have hcount := hs.count
      show (s.log ++ [r]).length = (s.builders ++ [_]).length + s.rawQueries.length
      rw [List.length_append, List.length_append, List.length_singleton, List.length_singleton]
      omega
    · show ((s.builders ++ [_]).map SudoBuilder.record ++ _).Nodup
      rw [List.map_append, List.append_assoc]
      have hperm := @List.perm_middle _ s.log.length (s.builders.map SudoBuilder.record)
        (s.rawQueries.map PrivilegedQuery.record)
      exact hperm.nodup_iff.2 (List.nodup_cons.2 ⟨hs.fresh, hs.own⟩)
    · intro b hb
      rcases List.mem_append.1 hb with hb | hb
      · obtain ⟨r', hr', hrest⟩ := hs.builder b hb
        exact ⟨r', getElem?_snoc hr', hrest⟩
      · rw [List.mem_singleton.1 hb]
        exact ⟨r, List.getElem?_concat_length, htype, hof⟩
    · intro q hq i hi
      obtain ⟨b, hb, hrecord⟩ := hs.viaBuilder q hq i hi
      exact ⟨b, getElem?_snoc hb, hrecord⟩
    · intro q hq hraw
      obtain ⟨r', hr', hrest⟩ := hs.raw q hq hraw
      exact ⟨r', getElem?_snoc hr', hrest⟩

/-- **A raw query adds its record.** -/
theorem Audited.rawQuery (hs : Audited s) (current : Option Store) (now : Nat)
    (sqlString : Text) : Audited (s.rawQuery current (dbRaw current now sqlString s.log)) := by
  cases hrecord : recordGovernance current now .rawQuery (some sqlString) s.log with
  | error e =>
    have hraw : (dbRaw current now sqlString s.log : Except _ (SqlQuery V × _)) = .error e := by
      simp [dbRaw, hrecord, bind, Except.bind]
    rw [hraw]
    exact hs
  | ok log =>
    have hraw : (dbRaw current now sqlString s.log : Except _ (SqlQuery V × _)) =
        .ok ({ text := sqlString, params := [], tenantId := "__raw__".toList }, log) := by
      simp [dbRaw, hrecord, bind, Except.bind, pure, Except.pure]
    rw [hraw]
    obtain ⟨r, rfl, htype, hof, hsql⟩ := recordGovernance_ok hrecord
    have hqueries : (s.rawQuery current (.ok
        ({ text := sqlString, params := [], tenantId := "__raw__".toList }, s.log ++ [r]))).rawQueries
          = s.rawQueries ++ [⟨{ text := sqlString, params := [], tenantId := "__raw__".toList },
            .raw, current, s.log.length, (s.log ++ [r]).length⟩] := by
      simp [Governance.rawQueries, Governance.rawQuery]
    refine ⟨?_, ?_, ?_, ?_, ?_, ?_⟩
    · have hcount := hs.count
      rw [hqueries]
      show (s.log ++ [r]).length = s.builders.length + _
      rw [List.length_append, List.length_append, List.length_singleton, List.length_singleton]
      omega
    · show (s.builders.map SudoBuilder.record ++ _).Nodup
      rw [hqueries, List.map_append, ← List.append_assoc]
      have hperm := List.perm_append_singleton s.log.length s.records
      exact hperm.nodup_iff.2 (List.nodup_cons.2 ⟨hs.fresh, hs.own⟩)
    · intro b hb
      obtain ⟨r', hr', hrest⟩ := hs.builder b hb
      exact ⟨r', getElem?_snoc hr', hrest⟩
    · intro q hq i hi
      rcases List.mem_append.1 hq with hq | hq
      · exact hs.viaBuilder q hq i hi
      · rw [List.mem_singleton.1 hq] at hi
        cases hi
    · intro q hq horigin
      rcases List.mem_append.1 hq with hq | hq
      · obtain ⟨r', hr', hrest⟩ := hs.raw q hq horigin
        exact ⟨r', getElem?_snoc hr', hrest⟩
      · rw [List.mem_singleton.1 hq]
        exact ⟨r, List.getElem?_concat_length, htype, hof, hsql⟩
    · intro q hq
      rcases List.mem_append.1 hq with hq | hq
      · exact hs.preceded q hq
      · rw [List.mem_singleton.1 hq]
        simp

theorem Audited.step (hs : Audited s) {e : GovernanceEvent V} {s' : Governance V}
    (h : s.step e = some s') : Audited s' := by
  cases e with
  | dbSudo current now =>
    cases h
    exact hs.built current now
  | createSudoBuilder current now =>
    cases h
    exact hs.built current now
  | sql i current strings values =>
    obtain ⟨b, hb, rfl⟩ := Option.map_eq_some_iff.1 h
    have hqueries : (s.queries ++ [(⟨SudoBuilder.sql strings values, .builder i, current, b.record,
        s.log.length⟩ : PrivilegedQuery V)]).filter (fun q => q.origin = .raw) = s.rawQueries := by
      simp [Governance.rawQueries]
    refine ⟨?_, ?_, hs.builder, ?_, ?_, ?_⟩
    · show s.log.length = s.builders.length + (List.filter _ (s.queries ++ [_])).length
      rw [hqueries]
      exact hs.count
    · show (s.builders.map SudoBuilder.record ++ (List.filter _ (s.queries ++ [_])).map _).Nodup
      rw [hqueries]
      exact hs.own
    · intro q hq j hj
      rcases List.mem_append.1 hq with hq | hq
      · exact hs.viaBuilder q hq j hj
      · rw [List.mem_singleton.1 hq] at hj ⊢
        cases hj
        exact ⟨b, hb, rfl⟩
    · intro q hq horigin
      rcases List.mem_append.1 hq with hq | hq
      · exact hs.raw q hq horigin
      · rw [List.mem_singleton.1 hq] at horigin
        cases horigin
    · intro q hq
      rcases List.mem_append.1 hq with hq | hq
      · exact hs.preceded q hq
      · rw [List.mem_singleton.1 hq]
        obtain ⟨r, hr, -⟩ := hs.builder b (List.mem_of_getElem? hb)
        exact (List.getElem?_eq_some_iff.1 hr).1
  | dbRaw current now sqlString =>
    cases h
    exact hs.rawQuery current now sqlString
  | createRawQuery current now sqlString =>
    cases h
    exact hs.rawQuery current now sqlString

end Steps

/-- **The log of every run.** -/
theorem run_audited {es : List (GovernanceEvent V)} {s : Governance V}
    (hrun : (governance V).run es = some s) : Audited s := by
  refine Machine.run_induction (M := governance V) (P := fun _ s => Audited s) ?_ ?_ hrun
  · refine ⟨rfl, List.nodup_nil, ?_, ?_, ?_, ?_⟩ <;> simp [governance]
  · intro _ s e s' _ hs h
    exact hs.step h

/-! ### Concrete runs -/

def support : Store := ⟨"ibiz_trc_1", "org_a", some "user_1"⟩

def report : Store := ⟨"ibiz_trc_2", "org_b", some "user_2"⟩

/-- A builder and a raw query. -/
def auditedRun : List (GovernanceEvent String) :=
  [.dbSudo (some support) 1, .sql 0 (some support) ["SELECT 1".toList] [],
    .dbRaw (some report) 2 "SELECT 2".toList]

theorem run_audited_auditedRun :
    ∃ s, (governance String).run auditedRun = some s ∧ s.log.length = 2 ∧ Audited s := by
  have hrun : (governance String).run auditedRun = some _ := rfl
  exact ⟨_, hrun, rfl, run_audited hrun⟩

/-- A builder is kept and used again in the context of another user and tenant. -/
def reusedRun : List (GovernanceEvent String) :=
  [.dbSudo (some support) 1, .sql 0 (some support) ["SELECT 1".toList] [],
    .sql 0 (some report) ["SELECT 2".toList] []]

theorem reusedRun_not_recorded :
    ∃ s, (governance String).run reusedRun = some s ∧ ¬ s.queries.length ≤ s.log.length ∧
      ¬ ∃ r ∈ s.log, r.Of (some report) := by
  have hrun : (governance String).run reusedRun = some _ := rfl
  refine ⟨_, hrun, by decide, ?_⟩
  rintro ⟨r, hr, ctx, hctx, -, htenant, -⟩
  rw [List.mem_singleton.1 hr] at htenant
  cases hctx
  exact absurd htenant (by decide)

end Intellibiz.Db
