import Mathlib
import Intellibiz.Delimited
import Intellibiz.HashChain

/-!
# Ledger entries

Model of `EntryState`, `LedgerEntry`, `LedgerEntry::new`, `LedgerEntry::verify` and
`compute_hash` of `crates/ledger/src/lib.rs`.

The two crates the file calls are parameters (`Crates`): the hex digest of `sha2` and whether
`rust_decimal` parses a string.  The clock reading of `Utc::now()` is an argument.

* `new_eq_ok` — what a successful constructor call returns.
* `new_verify` — such an entry passes `verify`.
* `fields_of_payload_eq` — equal payloads have equal fields, provided corresponding fields
  contain the `:` of the format string equally often (`SameColons`).
-/

namespace Intellibiz.Ledger

/-- What the ledger uses of the crates it depends on. -/
structure Crates where
  /-- `format!("{:x}", Sha256::digest(s.as_bytes()))`. -/
  sha256Hex : String → String
  /-- `Decimal::from_str(s).is_ok()`. -/
  isDecimal : String → Bool

inductive LedgerError where
  | doubleEntryViolation (debit credit : String)
  | bufferFull
  | invalidAmount (amount : String)
  deriving DecidableEq, Repr

/-- The state of a ledger block in the WAL. -/
inductive EntryState where
  | pending
  | committed
  | rolledBack
  | manualReview
  | pendingBankReconciliation
  deriving DecidableEq, Repr

/-- A block of the audit ledger. -/
structure LedgerEntry where
  id : String
  traceId : String
  tenantId : String
  accountDebit : String
  accountCredit : String
  amount : String
  currency : String
  state : EntryState
  timestamp : UInt64
  previousHash : String
  hash : String
  deriving DecidableEq, Repr

/-- The hashed string of `compute_hash`: `{}:{}:{}:{}:{}:{}:{}:{}`. -/
def payload (previousHash id traceId accountDebit accountCredit amount currency : String)
    (timestamp : UInt64) : String :=
  previousHash ++ ":" ++ id ++ ":" ++ traceId ++ ":" ++ accountDebit ++ ":" ++ accountCredit ++
    ":" ++ amount ++ ":" ++ currency ++ ":" ++ toString timestamp.toNat

variable (C : Crates)

def computeHash (previousHash id traceId accountDebit accountCredit amount currency : String)
    (timestamp : UInt64) : String :=
  C.sha256Hex (payload previousHash id traceId accountDebit accountCredit amount currency timestamp)

/-- `LedgerEntry::new`; `now` is `Utc::now().timestamp()`, cast by `as u64`. -/
def LedgerEntry.new (id traceId tenantId accountDebit accountCredit amount currency : String)
    (state : EntryState) (previousHash : String) (now : Int64) : Except LedgerError LedgerEntry :=
  if C.isDecimal amount then
    let timestamp := now.toUInt64
    let hash := computeHash C previousHash id traceId accountDebit accountCredit amount currency
      timestamp
    .ok { id, traceId, tenantId, accountDebit, accountCredit, amount, currency, state, timestamp,
          previousHash, hash }
  else .error (.invalidAmount amount)

/-- The payload that `verify` recomputes. -/
def LedgerEntry.payload (e : LedgerEntry) : String :=
  Ledger.payload e.previousHash e.id e.traceId e.accountDebit e.accountCredit e.amount e.currency
    e.timestamp

/-- `LedgerEntry::verify`. -/
def LedgerEntry.verify (e : LedgerEntry) : Bool :=
  let expected := computeHash C e.previousHash e.id e.traceId e.accountDebit e.accountCredit
    e.amount e.currency e.timestamp
  e.hash == expected

theorem LedgerEntry.verify_iff (e : LedgerEntry) :
    e.verify C = true ↔ e.hash = C.sha256Hex e.payload := by
  simp [verify, computeHash, payload]

variable {C}

/-- What a successful constructor call returns. -/
theorem LedgerEntry.new_eq_ok {id traceId tenantId debit credit amount currency prev : String}
    {state : EntryState} {now : Int64} {e : LedgerEntry}
    (h : new C id traceId tenantId debit credit amount currency state prev now = .ok e) :
    e = ⟨id, traceId, tenantId, debit, credit, amount, currency, state, now.toUInt64, prev,
      computeHash C prev id traceId debit credit amount currency now.toUInt64⟩ := by
  unfold new at h
  split at h
  · cases h; rfl
  · cases h

theorem LedgerEntry.new_previousHash
    {id traceId tenantId debit credit amount currency prev : String}
    {state : EntryState} {now : Int64} {e : LedgerEntry}
    (h : new C id traceId tenantId debit credit amount currency state prev now = .ok e) :
    e.previousHash = prev := by
  rw [new_eq_ok h]

/-- A fresh entry passes its own check. -/
theorem LedgerEntry.new_verify {id traceId tenantId debit credit amount currency prev : String}
    {state : EntryState} {now : Int64} {e : LedgerEntry}
    (h : new C id traceId tenantId debit credit amount currency state prev now = .ok e) :
    e.verify C = true := by
  rw [new_eq_ok h, verify_iff]
  rfl

/-! ## The payload and its fields -/

/-- Number of `:` in a field. -/
def colons (s : String) : Nat := s.toList.count ':'

/-- The fields in the order of the format string. -/
def LedgerEntry.hashedFields (e : LedgerEntry) : List String :=
  [e.previousHash, e.id, e.traceId, e.accountDebit, e.accountCredit, e.amount, e.currency,
    toString e.timestamp.toNat]

/-- Corresponding fields contain the delimiter equally often. -/
structure SameColons (a b : LedgerEntry) : Prop where
  previousHash : colons a.previousHash = colons b.previousHash
  id : colons a.id = colons b.id
  traceId : colons a.traceId = colons b.traceId
  accountDebit : colons a.accountDebit = colons b.accountDebit
  accountCredit : colons a.accountCredit = colons b.accountCredit
  amount : colons a.amount = colons b.amount
  currency : colons a.currency = colons b.currency

/-- The two entries agree on everything that is hashed. -/
structure SameRecord (a b : LedgerEntry) : Prop where
  id : a.id = b.id
  traceId : a.traceId = b.traceId
  accountDebit : a.accountDebit = b.accountDebit
  accountCredit : a.accountCredit = b.accountCredit
  amount : a.amount = b.amount
  currency : a.currency = b.currency
  timestamp : a.timestamp = b.timestamp
  previousHash : a.previousHash = b.previousHash

theorem SameRecord.sameColons {a b : LedgerEntry} (h : SameRecord a b) : SameColons a b :=
  ⟨by rw [h.previousHash], by rw [h.id], by rw [h.traceId], by rw [h.accountDebit],
    by rw [h.accountCredit], by rw [h.amount], by rw [h.currency]⟩

theorem payload_toList (e : LedgerEntry) :
    e.payload.toList = [':'].intercalate (e.hashedFields.map String.toList) := by
  simp [LedgerEntry.payload, Ledger.payload, LedgerEntry.hashedFields, List.intercalate,
    List.intersperse]

/-- A decimal number contains no delimiter. -/
theorem colons_toString (n : Nat) : colons (toString n) = 0 := by
  refine List.count_eq_zero.2 fun h => ?_
  have hd : (':' : Char).isDigit = true := Nat.isDigit_of_mem_toDigits (b := 10) (n := n)
    (by decide) (by decide) (by simpa using h)
  exact absurd hd (by decide)

/-- **Equal payloads have equal fields**, when the delimiters are distributed alike. -/
theorem fields_of_payload_eq {a b : LedgerEntry} (hc : SameColons a b)
    (h : a.payload = b.payload) : SameRecord a b := by
  have hcount : List.Forall₂ (fun x y => x.count ':' = y.count ':')
      (a.hashedFields.map String.toList) (b.hashedFields.map String.toList) := by
    have ht : (toString a.timestamp.toNat).toList.count ':' =
        (toString b.timestamp.toNat).toList.count ':' :=
      (colons_toString _).trans (colons_toString _).symm
    exact .cons hc.previousHash (.cons hc.id (.cons hc.traceId (.cons hc.accountDebit
      (.cons hc.accountCredit (.cons hc.amount (.cons hc.currency (.cons ht .nil)))))))
  have hfields := Delimited.intercalate_inj hcount (by rw [← payload_toList, ← payload_toList, h])
  have := (List.map_injective_iff.2 fun _ _ => String.toList_inj.1) hfields
  simp only [LedgerEntry.hashedFields, List.cons.injEq, and_true] at this
  obtain ⟨hprev, hid, htrace, hdebit, hcredit, hamount, hcurrency, htime⟩ := this
  refine ⟨hid, htrace, hdebit, hcredit, hamount, hcurrency, ?_, hprev⟩
  exact UInt64.toNat_inj.1 (Nat.repr_inj.1 htime)

end Intellibiz.Ledger
