import Intellibiz.Db.Strengthen
import Intellibiz.Sql.Restriction

/-!
# Statements that the injector leaves to their own condition

A `SELECT` whose condition uses the column `org_id` mentions it, so the injector returns the text as
it is, whichever tenant the context has.

* `Restricts` — the condition of a text holds of rows with one value of `org_id` only.

Principal results: `mentionsOrgId_of_column` and `skipped_restricts`.
-/

namespace Intellibiz.Db

open Sql Occurrence

/-- The rows of which the condition of the text holds all have this value in the column of the
tenant. -/
def Restricts (env : Env) (value : Value) (text : Text) : Prop :=
  ∃ sel, (tokens text).bind parseSelect = some sel ∧
    ∀ row, sel.cond.Holds env row → row orgIdColumn = value

theorem restricts_iff {env : Env} {value : Value} {text : Text} {sel : Select}
    (hsel : (tokens text).bind parseSelect = some sel) :
    Restricts env value text ↔ ∀ row, sel.cond.Holds env row → row orgIdColumn = value := by
  unfold Restricts
  rw [hsel]
  simp

/-- A token that names the column is an occurrence of its name. -/
theorem occ_of_names {t : Token} (h : t.Names orgIdColumn) :
    1 ≤ occ Char.toLower "org_id".toList t.text := by
  have hword : ∀ w : List Char, w.map Char.toLower = "org_id".toList →
      1 ≤ occ Char.toLower "org_id".toList w := by
    intro w hw
    cases w with
    | nil => cases hw
    | cons c w =>
      rw [occ_cons, if_pos (by rw [hw])]
      omega
  cases t with
  | word w => exact hword w h
  | quoted q =>
    obtain rfl : q = orgIdColumn := h
    exact hword _ (by decide)
  | str v | param v | sym c => exact h.elim

theorem weight_ge_of_mem {pat : Text} {t : Token} {ts : List Token} (h : t ∈ ts) :
    occ Char.toLower pat t.text ≤ weight pat ts := by
  obtain ⟨us, vs, rfl⟩ := List.append_of_mem h
  rw [weight_append, weight_cons]
  omega

/-- **A condition that uses the column mentions it in the text.** -/
theorem mentionsOrgId_of_column {s : Text} {sel : Select}
    (hsel : (tokens s).bind parseSelect = some sel) (hcol : orgIdColumn ∈ sel.cond.columns) :
    mentionsOrgId s = true := by
  obtain ⟨ts, hts, hparse⟩ := Option.bind_eq_some_iff.1 hsel
  obtain ⟨t, ht, hnames⟩ := parseSelect_names hparse orgIdColumn hcol
  by_contra hno
  have hfree : occ Char.toLower "org_id".toList s = 0 := not_mentionsOrgId (by simpa using hno)
  have hbound : weight "org_id".toList ts ≤ occ Char.toLower "org_id".toList s :=
    lex_bound org_id_ne_nil (by decide) (by decide) hts
  have hone := occ_of_names hnames
  have hmem := @weight_ge_of_mem "org_id".toList t ts ht
  omega

/-- **A `SELECT` whose own condition uses `org_id` is left to that condition.**  The text is not
changed, whichever tenant the context has. A condition that fixes the column to a value restricts it
to that value, and to any other one only if no row satisfies it. -/
theorem skipped_restricts {V : Type} (env : Env) (tenantId : Text) (strings : List Text)
    (values : List (Interpolated V)) {sel : Select}
    (hsel : (tokens (statement strings values)).bind parseSelect = some sel)
    (hcol : orgIdColumn ∈ sel.cond.columns) :
    (sql tenantId strings values).text = statement strings values ∧
      ∀ value, sel.cond.fixes env orgIdColumn value true = true →
        Restricts env value (sql tenantId strings values).text ∧
        ∀ other ≠ value, (Restricts env other (sql tenantId strings values).text ↔
          ∀ row, ¬ sel.cond.Holds env row) := by
  have hsame : (sql tenantId strings values).text = statement strings values := by
    show injectFilters (statement strings values) tenantId = _
    apply injectFilters_of_mention
    exact mentionsOrgId_of_column hsel hcol
  refine ⟨hsame, fun value hfix => ?_⟩
  have hvalue : ∀ row, sel.cond.Holds env row → row orgIdColumn = value := fun row hrow =>
    column_of_eval hfix hrow
  rw [hsame, restricts_iff hsel]
  refine ⟨hvalue, fun other hne => ?_⟩
  rw [restricts_iff hsel]
  constructor
  · intro h row hrow
    apply hne
    rw [← h row hrow, hvalue row hrow]
  · intro h row hrow
    exact absurd hrow (h row)

/-- `SELECT id FROM orders WHERE org_id = 'custom' AND status = ${1}` -/
def customStrings : List Text :=
  ["SELECT id FROM orders WHERE org_id = 'custom' AND status = ".toList, []]

def customSelect : Select where
  head := [.word "SELECT".toList, .word "ID".toList, .word "FROM".toList, .word "ORDERS".toList]
  cond := .and (.compare .eq (.column orgIdColumn) (.const (.text "custom".toList)))
    (.compare .eq (.column "status".toList) (.param "1".toList))
  tail := []

theorem parse_customStrings :
    (tokens (statement customStrings [Interpolated.value 1])).bind parseSelect =
      some customSelect := by
  decide +kernel

/-- The parameter that stands for a status. -/
def openEnv : Env := fun _ => .text "open".toList

theorem skipped_restricts_custom :
    (sql "org_test".toList customStrings [.value 1]).text = statement customStrings [.value 1] ∧
      Restricts openEnv (.text "custom".toList)
        (sql "org_test".toList customStrings [.value 1]).text := by
  have h := skipped_restricts openEnv "org_test".toList customStrings [.value 1] parse_customStrings
    (by decide)
  exact ⟨h.1, (h.2 _ (by decide)).1⟩

/-- A row of `custom` with this status. -/
def customRow : Row := fun name =>
  if name = orgIdColumn then .text "custom".toList else .text "open".toList

/-- **A statement about another tenant.**  In the context of the tenant `org_test` the text is left
as it is, and selects the rows of the tenant `custom`. -/
theorem custom_not_restricted :
    ¬ ∀ (env : Env) (tenantId : Text) (strings : List Text) (values : List (Interpolated Nat)),
      (∃ sel, (tokens (statement strings values)).bind parseSelect = some sel) →
      isSelect (statement strings values) = true → mentionsOrgId (statement strings values) = true →
      Restricts env (.text tenantId) (sql tenantId strings values).text := by
  intro h
  have hmention := mentionsOrgId_of_column parse_customStrings (by decide)
  have hsame : (sql "org_test".toList customStrings [.value 1]).text =
      statement customStrings [.value 1] := injectFilters_of_mention hmention "org_test".toList
  have hall := h openEnv "org_test".toList customStrings [.value 1] ⟨_, parse_customStrings⟩
    (by decide) hmention
  rw [hsame, restricts_iff parse_customStrings] at hall
  have hholds : customSelect.cond.eval openEnv customRow = some true := by decide
  have hrow := hall customRow hholds
  revert hrow
  decide

end Intellibiz.Db
