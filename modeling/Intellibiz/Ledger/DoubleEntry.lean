import Intellibiz.Ledger.Entry
import Intellibiz.Rules.Engine

/-!
# Double-entry validation

Model of `validate_double_entry` of `crates/ledger/src/lib.rs`.  A result of none is a panic.  The
addition of the totals is a parameter: `R.add` drops decimals that do not fit, an `ExactAdd` has no
result then.

* `validateDoubleEntry` — the loop over a batch and the comparison of its totals.
* `Accepted` — the amounts of which `LedgerEntry::new` makes an entry.

Principal results: `validateDoubleEntry_eq` (the two totals are one) and `validate_returns_iff`.
-/

namespace Intellibiz.Ledger

open FixedPoint Rounding Numeral
open Rules (RustDecimal decimals zero value_zero)

/-! ## The validator -/

section Validator

variable (R : RustDecimal) (add : R.Decimal → R.Decimal → Option R.Decimal)

/-- The loop over the entries, with the totals of debit and credit. -/
def sumEntries : List LedgerEntry → R.Decimal → R.Decimal →
    Option (Except LedgerError (R.Decimal × R.Decimal))
  | [], totalDebit, totalCredit => some (.ok (totalDebit, totalCredit))
  | entry :: entries, totalDebit, totalCredit =>
    match R.fromStr entry.amount with
    | none => some (.error (.invalidAmount entry.amount))
    | some amount =>
      match add totalDebit amount, add totalCredit amount with
      | some totalDebit, some totalCredit => sumEntries entries totalDebit totalCredit
      | _, _ => none

def validateDoubleEntry (entries : List LedgerEntry) : Option (Except LedgerError Unit) :=
  match sumEntries R add entries (zero R) (zero R) with
  | none => none
  | some (.error e) => some (.error e)
  | some (.ok (totalDebit, totalCredit)) =>
    if R.value totalDebit ≠ R.value totalCredit then
      some (.error (.doubleEntryViolation (R.toText totalDebit) (R.toText totalCredit)))
    else some (.ok ())

/-- `LedgerEntry::new` makes an entry of the amount, whatever the digest. -/
def Accepted (amount : String) : Prop :=
  ∃ sha256Hex id traceId tenantId debit credit currency state previousHash now entry,
    LedgerEntry.new ⟨sha256Hex, fun s => (R.fromStr s).isSome⟩ id traceId tenantId debit credit
      amount currency state previousHash now = .ok entry

/-- The value of the amount of an entry. -/
def amountValue (entry : LedgerEntry) : ℚ := ((R.fromStr entry.amount).map R.value).getD 0

end Validator

/-- An addition that has the exact sum, where it fits, and panics otherwise. -/
structure ExactAdd {R : RustDecimal} (add : R.Decimal → R.Decimal → Option R.Decimal) : Prop where
  exact : ∀ a b c, add a b = some c → R.value c = R.value a + R.value b
  panics : ∀ a b, add a b = none ↔ ¬ Fits (2 ^ 96) 28 (R.value a + R.value b)

section Totals

variable {R : RustDecimal} {add : R.Decimal → R.Decimal → Option R.Decimal}
  {entries : List LedgerEntry}

theorem accepted_iff {amount : String} :
    Accepted R amount ↔ ∃ d, R.fromStr amount = some d := by
  rw [← Option.isSome_iff_exists]
  constructor
  · rintro ⟨sha, id, traceId, tenantId, debit, credit, currency, state, prev, now, entry, hentry⟩
    unfold LedgerEntry.new at hentry
    split at hentry
    · assumption
    · cases hentry
  · intro h
    exact ⟨id, "", "", "", "", "", "", .pending, "", 0, _, if_pos h⟩

/-- The amounts of a batch are decimals. -/
theorem exists_amounts (h : ∀ entry ∈ entries, Accepted R entry.amount) :
    ∃ ds : List R.Decimal, entries.map (fun entry => R.fromStr entry.amount) = ds.map some ∧
      entries.map (amountValue R) = ds.map R.value := by
  induction entries with
  | nil => exact ⟨[], rfl, rfl⟩
  | cons entry entries ih =>
    obtain ⟨d, hd⟩ := accepted_iff.1 (h entry List.mem_cons_self)
    obtain ⟨ds, hparsed, hvalues⟩ := ih fun e he => h e (List.mem_cons_of_mem _ he)
    refine ⟨d :: ds, ?_, ?_⟩
    · rw [List.map_cons, hd, hparsed, List.map_cons]
    · have hvalue : amountValue R entry = R.value d := by simp [amountValue, hd]
      rw [List.map_cons, hvalue, hvalues, List.map_cons]

/-- The same amounts are added to both totals. -/
theorem sumEntries_eq {ds : List R.Decimal}
    (h : entries.map (fun entry => R.fromStr entry.amount) = ds.map some) (total : R.Decimal) :
    sumEntries R add entries total total =
      (ds.foldlM add total).map fun total => .ok (total, total) := by
  induction entries generalizing ds total with
  | nil =>
    obtain rfl : ds = [] := by simpa using h.symm
    rfl
  | cons entry entries ih =>
    cases ds with
    | nil => simp at h
    | cons d ds =>
      obtain ⟨hparsed, hrest⟩ := List.cons.inj h
      have hd : R.fromStr entry.amount = some d := hparsed
      rw [sumEntries, List.foldlM_cons]
      simp only [hd]
      cases hadd : add total d with
      | none => simp
      | some next =>
        simp only [Option.bind_eq_bind, Option.bind_some]
        exact ih hrest next

/-- **The totals never differ**: a batch passes, or panics. -/
theorem validateDoubleEntry_eq {ds : List R.Decimal}
    (h : entries.map (fun entry => R.fromStr entry.amount) = ds.map some) :
    validateDoubleEntry R add entries = (ds.foldlM add (zero R)).map fun _ => .ok () := by
  unfold validateDoubleEntry
  rw [sumEntries_eq h]
  cases ds.foldlM add (zero R) with
  | none => rfl
  | some total => simp

theorem validate_eq_ok_iff {ds : List R.Decimal}
    (h : entries.map (fun entry => R.fromStr entry.amount) = ds.map some) :
    validateDoubleEntry R add entries = some (.ok ()) ↔ (ds.foldlM add (zero R)).isSome := by
  rw [validateDoubleEntry_eq h]
  cases ds.foldlM add (zero R) <;> simp

/-- **When validation returns**: no total of the amounts, rounded to the decimals that fit, has an
integral part of more than 96 bits; where addition is exact, every total fits. -/
theorem validate_returns_iff (R : RustDecimal) (entries : List LedgerEntry)
    (haccepted : ∀ entry ∈ entries, Accepted R entry.amount) :
    (validateDoubleEntry R R.add entries = some (.ok ()) ↔
        TotalsHeld (2 ^ 96) 28 0 (entries.map (amountValue R))) ∧
      ∀ add, ExactAdd add → (validateDoubleEntry R add entries = some (.ok ()) ↔
        TotalsFit (2 ^ 96) 28 0 (entries.map (amountValue R))) := by
  obtain ⟨ds, hparsed, hvalues⟩ := exists_amounts haccepted
  rw [hvalues, ← value_zero (R := R)]
  constructor
  · rw [validate_eq_ok_iff hparsed, Arithmetic.foldlM_add_isSome_iff]
  · intro add hadd
    rw [validate_eq_ok_iff hparsed, Arithmetic.foldlM_exact_isSome_iff hadd.exact hadd.panics]

/-- An entry of a payment. -/
def payment (amount : String) : LedgerEntry where
  id := "e-1"
  traceId := "trace-1"
  tenantId := "t-1"
  accountDebit := "cash"
  accountCredit := "revenue"
  amount := amount
  currency := "EUR"
  state := .pending
  timestamp := 0
  previousHash := ""
  hash := ""

theorem payment_validated :
    validateDoubleEntry decimals decimals.add [payment "100.00"] = some (.ok ()) ∧
      ∀ add, ExactAdd (R := decimals) add →
        validateDoubleEntry decimals add [payment "100.00"] = some (.ok ()) := by
  have hvalue : value? "100.00" = some 100 := by decide +kernel
  have hfits : Fits (2 ^ 96) 28 (100 : ℚ) := ⟨100, 0, by omega, by norm_num, by norm_num⟩
  obtain ⟨d, hd, hamount⟩ := decimals.exists_fromStr hvalue hfits
  have haccepted : ∀ entry ∈ [payment "100.00"], Accepted decimals entry.amount := by
    intro entry hentry
    obtain rfl := List.mem_singleton.1 hentry
    exact accepted_iff.2 ⟨d, hd⟩
  have hamounts : [payment "100.00"].map (amountValue decimals) = [100] := by
    have hpayment : decimals.fromStr (payment "100.00").amount = some d := hd
    simp [amountValue, hpayment, hamount]
  have hfit : TotalsFit (2 ^ 96) 28 0 [(100 : ℚ)] := by
    rw [totalsFit_cons ⟨0, 0, by omega, by norm_num, by norm_num⟩]
    intro n
    rw [List.take_nil, List.sum_nil, zero_add, add_zero]
    exact hfits
  have hreturns := validate_returns_iff decimals [payment "100.00"] haccepted
  rw [hamounts] at hreturns
  exact ⟨hreturns.1.2 hfit.held, fun add hadd => (hreturns.2 add hadd).2 hfit⟩

/-- Two of the largest amounts. -/
theorem largest_amounts_panic :
    (∀ entry ∈ [payment "79228162514264337593543950335", payment "79228162514264337593543950335"],
        Accepted decimals entry.amount) ∧
      validateDoubleEntry decimals decimals.add
        [payment "79228162514264337593543950335", payment "79228162514264337593543950335"] =
          none := by
  refine ⟨?_, by decide +kernel⟩
  intro entry hentry
  have hamount : entry.amount = "79228162514264337593543950335" := by
    simp only [List.mem_cons, List.not_mem_nil, or_false, or_self] at hentry
    rw [hentry]
    rfl
  rw [hamount, accepted_iff, ← Option.isSome_iff_exists]
  decide +kernel

/-- Batches whose totals stay below the bound by half a unit for each entry are validated. -/
theorem validate_of_abs_lt (haccepted : ∀ entry ∈ entries, Accepted R entry.amount)
    (h : ∀ n : ℕ, |((entries.map (amountValue R)).take n).sum| + n / 2 < 2 ^ 96) :
    validateDoubleEntry R R.add entries = some (.ok ()) := by
  obtain ⟨ds, hparsed, hvalues⟩ := exists_amounts haccepted
  rw [validate_eq_ok_iff hparsed, Arithmetic.foldlM_add_isSome_iff, ← hvalues, value_zero]
  refine totalsHeld_of_abs_lt fun n => ?_
  have hn := h n
  rw [zero_add]
  exact_mod_cast hn

end Totals

end Intellibiz.Ledger
