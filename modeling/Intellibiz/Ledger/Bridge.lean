import Intellibiz.Machine
import Intellibiz.Ledger.Tamper

/-!
# The ledger behind the bridge, native and in TypeScript

The ledger calls of `packages/core/src/native/bridge.ts`: the native addon
(`crates/bindings/src/lib.rs`) and the fallback used where the addon is missing, side by side on the
same calls.

* `Serde` — the JSON texts of entries; `serde_json` is outside the repository.
* `native` / `fallback` — the two bridges.
* `Matching` — the answers of a call match, up to timestamps and hashes.
* `Agreeing` — the calls at which the fallback has nothing to remember and nothing to reject.

Principal results: `pending_records` (what the native writer holds), `matching_iff` for one call,
and `answers_match_iff`.
-/

namespace Intellibiz.Ledger

open LedgerWriter HashChain

/-! ## The two bridges -/

/-- What `serde_json` does with lists of entries; `T` are the texts. -/
structure Serde (T : Type) where
  toJson : List LedgerEntry → T
  fromJson : T → Except String (List LedgerEntry)
  /-- The text `[]`. -/
  brackets : T
  fromJson_toJson : ∀ entries, fromJson (toJson entries) = .ok entries
  fromJson_brackets : fromJson brackets = .ok []

/-- The texts of `#[error(..)]`. -/
def LedgerError.message : LedgerError → String
  | .doubleEntryViolation debit credit =>
    s!"double-entry invariant violated: debits ({debit}) != credits ({credit})"
  | .bufferFull => "ring buffer is full — cannot accept new ledger entries"
  | .invalidAmount amount => s!"invalid decimal amount: {amount}"

/-- The ledger calls of `NativeBridge`; an error is the reason of the rejected promise. -/
structure LedgerBridge (σ T : Type) where
  ledgerWrite : σ → WriteArgs → Int64 → Except String String × σ
  ledgerFlush : σ → Except String T × σ
  ledgerVerifyChain : T → Except String Bool

variable {T : Type} (C : Crates) (J : Serde T)

def native : LedgerBridge LedgerWriter T where
  ledgerWrite w a now :=
    let (result, w) := w.write C a now
    (result.mapError LedgerError.message, w)
  ledgerFlush w :=
    let (entries, w) := w.flush
    (.ok (J.toJson entries), w)
  ledgerVerifyChain entriesJson := do
    let entries ← J.fromJson entriesJson
    return verifyChain C entries

def fallback : LedgerBridge Unit T where
  ledgerWrite _ a _ :=
    (.ok (C.sha256Hex (a.id ++ ":" ++ a.traceId ++ ":" ++ a.accountDebit ++ ":" ++
      a.accountCredit ++ ":" ++ a.amount ++ ":" ++ a.currency)), ())
  ledgerFlush _ := (.ok J.brackets, ())
  ledgerVerifyChain _ := .ok true

/-! ## Runs -/

inductive LedgerCall (T : Type) where
  | ledgerWrite (args : WriteArgs) (now : Int64)
  | ledgerFlush
  | ledgerVerifyChain (entriesJson : T)

/-- What a call does to the native writer. -/
def LedgerCall.op : LedgerCall T → Option Op
  | .ledgerWrite args now => some (.write args now)
  | .ledgerFlush => some .flush
  | .ledgerVerifyChain _ => none

/-- The native ledger; the fallback has no state. -/
def ledgerRun : Machine Run (LedgerCall T) where
  init := .init
  step r call := some ((call.op.map (r.step C)).getD r)

/-- The acknowledged writes that no flush has returned yet. -/
def Run.pending (r : Run) : List Ack := r.acked.drop r.drained.length

/-- The same posting, whenever and on top of whatever it was made. -/
structure SamePosting (a b : LedgerEntry) : Prop where
  id : a.id = b.id
  traceId : a.traceId = b.traceId
  tenantId : a.tenantId = b.tenantId
  accountDebit : a.accountDebit = b.accountDebit
  accountCredit : a.accountCredit = b.accountCredit
  amount : a.amount = b.amount
  currency : a.currency = b.currency
  state : a.state = b.state

/-- The two bridges answer a call alike: both acknowledge a write or both reject it, both flushes
are chains of the same postings, and both verdicts are the same. -/
def Matching (r : Run) : LedgerCall T → Prop
  | .ledgerWrite args now =>
    ((native C J).ledgerWrite r.writer args now).1.isOk =
      ((fallback C J).ledgerWrite () args now).1.isOk
  | .ledgerFlush => ∃ text text' entries entries',
      ((native C J).ledgerFlush r.writer).1 = .ok text ∧
      ((fallback C J).ledgerFlush ()).1 = .ok text' ∧
      J.fromJson text = .ok entries ∧ J.fromJson text' = .ok entries' ∧
      List.Forall₂ SamePosting entries entries' ∧ Linked entryLinks entries ∧
      Linked entryLinks entries'
  | .ledgerVerifyChain entriesJson =>
    (native C J).ledgerVerifyChain entriesJson = (fallback C J).ledgerVerifyChain entriesJson

/-- A write the native ledger takes, a flush with nothing to return, a check of a sound batch. -/
def Agreeing (r : Run) : LedgerCall T → Prop
  | .ledgerWrite args _ =>
    C.isDecimal args.amount = true ∧ r.pending.length < RING_BUFFER_CAPACITY
  | .ledgerFlush => r.pending = []
  | .ledgerVerifyChain entriesJson => ∃ entries, J.fromJson entriesJson = .ok entries ∧
      (∀ e ∈ entries, e.verify C = true) ∧ Linked entryLinks entries

variable {C J}

theorem run_inv {calls : List (LedgerCall T)} {r : Run} (hrun : (ledgerRun C).run calls = some r) :
    RunInv C r := by
  refine Machine.run_induction (M := ledgerRun C) (P := fun _ r => RunInv C r) RunInv.init ?_ hrun
  intro _ r call r' _ hr h
  cases h
  cases call with
  | ledgerWrite args now => exact hr.step (.write args now)
  | ledgerFlush => exact hr.step .flush
  | ledgerVerifyChain entriesJson => exact hr

/-- **The native writer holds the entries of the pending writes, in order, as a chain.** -/
theorem pending_records {r : Run} (hr : RunInv C r) :
    List.Forall₂ (Records C) r.pending r.writer.buffer.ring.items ∧
      Linked entryLinks r.writer.buffer.ring.items := by
  constructor
  · have hdrop := List.forall₂_drop r.drained.length hr.records
    unfold Run.history at hdrop
    rw [List.drop_left] at hdrop
    exact hdrop
  · exact (List.isChain_append.1 hr.anchored.linked).2.1

theorem write_isOk {w : LedgerWriter} {args : WriteArgs} {now : Int64} :
    ((native C J).ledgerWrite w args now).1.isOk = true ↔
      C.isDecimal args.amount = true ∧
        w.buffer.ring.items.length < RING_BUFFER_CAPACITY := by
  simp only [native, LedgerWriter.write, newEntry, LedgerEntry.new]
  by_cases hamount : C.isDecimal args.amount = true
  · by_cases hlen : w.buffer.ring.items.length < RING_BUFFER_CAPACITY
    · simp [hamount, hlen, LedgerBuffer.push, ArrayQueue.push, Except.mapError, Except.isOk,
        Except.toBool]
    · simp [hamount, hlen, LedgerBuffer.push, ArrayQueue.push, Except.mapError, Except.isOk,
        Except.toBool]
  · simp [hamount, Except.mapError, Except.isOk, Except.toBool]

/-- **The answers of a call match exactly if it is an agreeing one.** -/
theorem matching_iff {r : Run} (hr : RunInv C r) (call : LedgerCall T) :
    Matching C J r call ↔ Agreeing C J r call := by
  have hrecords := (pending_records hr).1
  cases call with
  | ledgerWrite args now =>
    have hfallback : ((fallback C J).ledgerWrite () args now).1.isOk = true := rfl
    simp only [Matching, Agreeing]
    rw [hfallback, write_isOk, hrecords.length_eq]
  | ledgerFlush =>
    have hflush : ((native C J).ledgerFlush r.writer).1 =
        .ok (J.toJson r.writer.buffer.ring.items) := by simp [native]
    constructor
    · rintro ⟨text, text', entries, entries', htext, htext', hentries, hentries', hsame, -, -⟩
      rw [hflush] at htext
      cases htext
      cases htext'
      rw [J.fromJson_toJson] at hentries
      rw [J.fromJson_brackets] at hentries'
      cases hentries
      cases hentries'
      have hnil := List.forall₂_nil_right_iff.1 hsame
      rw [hnil] at hrecords
      exact List.forall₂_nil_right_iff.1 hrecords
    · intro hpending
      change r.pending = [] at hpending
      rw [hpending] at hrecords
      have hnil := List.forall₂_nil_left_iff.1 hrecords
      rw [hnil] at hflush
      exact ⟨_, _, [], [], hflush, rfl, J.fromJson_toJson [], J.fromJson_brackets, .nil,
        List.isChain_nil, List.isChain_nil⟩
  | ledgerVerifyChain entriesJson =>
    simp only [Matching, Agreeing]
    cases hjson : J.fromJson entriesJson with
    | error reason => simp [native, fallback, hjson, bind, Except.bind]
    | ok entries =>
      have hnative : (native C J).ledgerVerifyChain entriesJson = .ok (verifyChain C entries) := by
        simp [native, hjson, bind, Except.bind, pure, Except.pure]
      rw [hnative]
      constructor
      · intro h
        exact ⟨entries, rfl, verifyChain_iff.1 (Except.ok.inj h)⟩
      · rintro ⟨entries', hentries', hsound⟩
        cases hentries'
        exact congrArg Except.ok (verifyChain_iff.2 hsound)

/-- **The fallback answers a run as the native ledger does exactly if every write is one the native
ledger takes, every flush has nothing to return and every checked batch is sound.** -/
theorem answers_match_iff (C : Crates) (J : Serde T) (calls : List (LedgerCall T)) :
    (ledgerRun C).Along (Matching C J) calls ↔ (ledgerRun C).Along (Agreeing C J) calls := by
  constructor
  · intro h pre call post r hcalls hr
    exact (matching_iff (run_inv hr) call).1 (h pre call post r hcalls hr)
  · intro h pre call post r hcalls hr
    exact (matching_iff (run_inv hr) call).2 (h pre call post r hcalls hr)

/-! ### A concrete run -/

/-- Texts that stand for what is read from them. -/
def sampleSerde : Serde (Except String (List LedgerEntry)) where
  toJson := .ok
  fromJson := id
  brackets := .ok []
  fromJson_toJson _ := rfl
  fromJson_brackets := rfl

def bridgeArgs : WriteArgs :=
  ⟨"led_1", "trc_1", "org_a", "cash:eu", "revenue", "10.00", "USD"⟩

/-- A write and a flush, and a check of the flushed entry with another amount. -/
def writtenRun : List (LedgerCall (Except String (List LedgerEntry))) :=
  [.ledgerWrite bridgeArgs 1700000000, .ledgerFlush,
    .ledgerVerifyChain (.ok [{ sampleEntry with amount := "99.00" }])]

/-- The fallback has forgotten the entry and accepts the edit. -/
theorem writtenRun_differs :
    ¬ (ledgerRun sampleCrates).Along (Matching sampleCrates sampleSerde) writtenRun ∧
      (native sampleCrates sampleSerde).ledgerVerifyChain
        (.ok [{ sampleEntry with amount := "99.00" }]) = .ok false ∧
      (fallback sampleCrates sampleSerde).ledgerVerifyChain
        (.ok [{ sampleEntry with amount := "99.00" }]) = .ok true := by
  refine ⟨?_, by decide, rfl⟩
  intro h
  obtain ⟨text, text', entries, entries', htext, htext', hentries, hentries', hsame, -⟩ :=
    h [.ledgerWrite bridgeArgs 1700000000] .ledgerFlush _ _ rfl rfl
  cases htext
  cases htext'
  cases hentries
  cases hentries'
  cases hsame

end Intellibiz.Ledger
