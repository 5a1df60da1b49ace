import Intellibiz.Ledger.Entry

/-!
# The ledger writer

Model of `LedgerBuffer` and `LedgerWriter` of `crates/ledger/src/lib.rs`, one call at a time.

* `ArrayQueue` — the bounded queue of the `crossbeam` crate; the bound is a field.
* `LedgerWriter.write` / `flush` / `verifyChain` — the three operations; a state change is an
  explicit result.
* `Run` / `Op` — a sequential run of writes and flushes, with what the callers saw of it: the
  acknowledged writes and the drained batches.

Principal results: `write_ok`, `write_error` (everything a call can do), `verifyChain_iff`
(`verify_chain` accepts exactly the linked lists of valid entries), `RunInv` and `runOps_inv` (the
writer's `last_hash` is the tip of all accepted entries, drained or still queued), and from it
`run_chained`.
-/

namespace Intellibiz.Ledger

/-! ## The ring buffer -/

/-- `crossbeam::queue::ArrayQueue` with `cap` slots, oldest element first. -/
structure ArrayQueue (α : Type) (cap : Nat) where
  items : List α
  bounded : items.length ≤ cap

namespace ArrayQueue

variable {α : Type} {cap : Nat}

def empty : ArrayQueue α cap := ⟨[], Nat.zero_le _⟩

/-- A full queue hands the element back. -/
def push (q : ArrayQueue α cap) (a : α) : Except α (ArrayQueue α cap) :=
  if h : q.items.length < cap then .ok ⟨q.items ++ [a], by simpa using h⟩ else .error a

def pop (q : ArrayQueue α cap) : Option (α × ArrayQueue α cap) :=
  match q with
  | ⟨[], _⟩ => none
  | ⟨a :: as, h⟩ => some (a, ⟨as, Nat.le_of_succ_le h⟩)

theorem push_ok {q q' : ArrayQueue α cap} {a : α} (h : q.push a = .ok q') :
    q'.items = q.items ++ [a] := by
  unfold push at h
  split at h
  · cases h; rfl
  · cases h

end ArrayQueue

def RING_BUFFER_CAPACITY : Nat := 8192

structure LedgerBuffer where
  ring : ArrayQueue LedgerEntry RING_BUFFER_CAPACITY

namespace LedgerBuffer

def new : LedgerBuffer := ⟨.empty⟩

def push (b : LedgerBuffer) (entry : LedgerEntry) : Except LedgerError LedgerBuffer :=
  match b.ring.push entry with
  | .ok ring => .ok ⟨ring⟩
  | .error _ => .error .bufferFull

/-- The `while let Some(entry) = self.ring.pop()` loop, for at most `fuel` rounds. -/
def drainLoop : Nat → List LedgerEntry → LedgerBuffer → List LedgerEntry × LedgerBuffer
  | 0, batch, b => (batch, b)
  | fuel + 1, batch, b =>
    match b.ring.pop with
    | none => (batch, b)
    | some (entry, ring) => drainLoop fuel (batch ++ [entry]) ⟨ring⟩

/-- `LedgerBuffer::drain`: one round for every queued entry and the one that finds none. -/
def drain (b : LedgerBuffer) : List LedgerEntry × LedgerBuffer :=
  drainLoop (b.ring.items.length + 1) [] b

theorem push_ok {b b' : LedgerBuffer} {e : LedgerEntry} (h : b.push e = .ok b') :
    b'.ring.items = b.ring.items ++ [e] := by
  unfold push at h
  split at h
  · rename_i ring hring
    cases h
    exact ArrayQueue.push_ok hring
  · cases h

theorem drainLoop_eq : ∀ (items batch : List LedgerEntry) (h : items.length ≤ RING_BUFFER_CAPACITY)
    (fuel : Nat), items.length < fuel → drainLoop fuel batch ⟨⟨items, h⟩⟩ = (batch ++ items, new)
  | [], batch, h, fuel + 1, _ => by simp [drainLoop, ArrayQueue.pop, new, ArrayQueue.empty]
  | e :: items, batch, h, fuel + 1, hf => by
    simp only [drainLoop, ArrayQueue.pop]
    rw [drainLoop_eq items (batch ++ [e]) _ fuel (by simpa using hf)]
    simp

/-- Draining returns every queued entry, oldest first, and leaves nothing behind. -/
theorem drain_eq (b : LedgerBuffer) : b.drain = (b.ring.items, new) := by
  obtain ⟨⟨items, h⟩⟩ := b
  exact drainLoop_eq items [] h _ (Nat.lt_succ_self _)

end LedgerBuffer

/-! ## The writer -/

/-- The arguments of a `write` call. -/
structure WriteArgs where
  id : String
  traceId : String
  tenantId : String
  accountDebit : String
  accountCredit : String
  amount : String
  currency : String
  deriving DecidableEq, Repr

structure LedgerWriter where
  buffer : LedgerBuffer
  /-- Hash of the last committed block. -/
  lastHash : String

variable (C : Crates)

namespace LedgerWriter

def new : LedgerWriter := ⟨.new, "GENESIS"⟩

/-- The entry that a `write` call constructs on top of `previousHash`. -/
def newEntry (a : WriteArgs) (previousHash : String) (now : Int64) :
    Except LedgerError LedgerEntry :=
  LedgerEntry.new C a.id a.traceId a.tenantId a.accountDebit a.accountCredit a.amount a.currency
    .pending previousHash now

/-- `LedgerWriter::write`: both `?` return before the chain tip is stored. -/
def write (w : LedgerWriter) (a : WriteArgs) (now : Int64) :
    Except LedgerError String × LedgerWriter :=
  let previousHash := w.lastHash
  match newEntry C a previousHash now with
  | .error err => (.error err, w)
  | .ok entry =>
    let newHash := entry.hash
    match w.buffer.push entry with
    | .error err => (.error err, w)
    | .ok buffer => (.ok newHash, { buffer, lastHash := newHash })

def flush (w : LedgerWriter) : List LedgerEntry × LedgerWriter :=
  let (batch, buffer) := w.buffer.drain
  (batch, { w with buffer })

/-- The `windows(2)` loop of `verify_chain`. -/
def windowsLinked : List LedgerEntry → Bool
  | a :: b :: rest => if b.previousHash != a.hash then false else windowsLinked (b :: rest)
  | _ => true

/-- `LedgerWriter::verify_chain`. -/
def verifyChain (entries : List LedgerEntry) : Bool :=
  if entries.all (·.verify C) then windowsLinked entries else false

variable {C}

/-- Everything a successful write does. -/
theorem write_ok {w w' : LedgerWriter} {a : WriteArgs} {now : Int64} {h : String}
    (hw : w.write C a now = (.ok h, w')) :
    ∃ e, newEntry C a w.lastHash now = .ok e ∧ h = e.hash ∧ w'.lastHash = e.hash ∧
      w'.buffer.ring.items = w.buffer.ring.items ++ [e] := by
  simp only [write] at hw
  split at hw
  · cases hw
  · rename_i e he
    split at hw
    · cases hw
    · rename_i buffer hpush
      cases hw
      exact ⟨e, he, rfl, rfl, LedgerBuffer.push_ok hpush⟩

/-- A failed write leaves the buffer and `last_hash` as they are. -/
theorem write_error {w w' : LedgerWriter} {a : WriteArgs} {now : Int64} {err : LedgerError}
    (hw : w.write C a now = (.error err, w')) : w' = w := by
  simp only [write] at hw
  split at hw
  · cases hw; rfl
  · split at hw
    · cases hw; rfl
    · cases hw

@[simp] theorem flush_eq (w : LedgerWriter) :
    w.flush = (w.buffer.ring.items, { w with buffer := .new }) := by
  simp [flush, LedgerBuffer.drain_eq]

end LedgerWriter

/-! ## Chains of entries -/

/-- A ledger entry as a block of a hash chain. -/
def entryLinks : HashChain.Links LedgerEntry String := ⟨LedgerEntry.previousHash, LedgerEntry.hash⟩

open LedgerWriter HashChain

theorem windowsLinked_iff : ∀ entries : List LedgerEntry,
    windowsLinked entries = true ↔ Linked entryLinks entries
  | [] => by simp [windowsLinked, Linked]
  | [a] => by simp [windowsLinked, Linked]
  | a :: b :: rest => by
    have ih := windowsLinked_iff (b :: rest)
    unfold Linked at ih ⊢
    rw [List.isChain_cons_cons, ← ih]
    by_cases hab : b.previousHash = a.hash <;> simp [windowsLinked, entryLinks, hab]

variable {C} in
/-- **`verify_chain` accepts exactly the linked lists of valid entries.** -/
theorem verifyChain_iff {entries : List LedgerEntry} :
    verifyChain C entries = true ↔
      (∀ e ∈ entries, e.verify C = true) ∧ Linked entryLinks entries := by
  unfold verifyChain
  split
  · rename_i hall
    rw [windowsLinked_iff]
    exact ⟨fun h => ⟨List.all_eq_true.1 hall, h⟩, fun h => h.2⟩
  · rename_i hall
    exact ⟨fun h => by simp at h, fun h => absurd (List.all_eq_true.2 h.1) hall⟩

/-! ## Runs -/

inductive Op where
  | write (a : WriteArgs) (now : Int64)
  | flush

/-- A write that returned `Ok`, with the hash it returned. -/
structure Ack where
  args : WriteArgs
  now : Int64
  hash : String

/-- A run of the writer: its state and what the callers saw of it. -/
structure Run where
  writer : LedgerWriter
  acked : List Ack
  drained : List LedgerEntry

def Run.init : Run := ⟨.new, [], []⟩

def Run.step (r : Run) : Op → Run
  | .write args now =>
    match r.writer.write C args now with
    | (.ok hash, writer) => { r with writer, acked := r.acked ++ [⟨args, now, hash⟩] }
    | (.error _, writer) => { r with writer }
  | .flush =>
    let (batch, writer) := r.writer.flush
    { r with writer, drained := r.drained ++ batch }

def runOps (ops : List Op) : Run := ops.foldl (Run.step C) .init

variable {C}

/-- The entry that records an acknowledged write. -/
def Records (C : Crates) (a : Ack) (e : LedgerEntry) : Prop :=
  newEntry C a.args e.previousHash a.now = .ok e ∧ e.hash = a.hash

/-- All accepted entries: the drained ones, then the queued ones. -/
def Run.history (r : Run) : List LedgerEntry := r.drained ++ r.writer.buffer.ring.items

/-- Invariant of a run. -/
structure RunInv (C : Crates) (r : Run) : Prop where
  records : List.Forall₂ (Records C) r.acked r.history
  anchored : Anchored entryLinks "GENESIS" r.history
  tip : r.writer.lastHash = tip entryLinks "GENESIS" r.history

theorem RunInv.init : RunInv C .init :=
  ⟨.nil, anchored_nil _ _, rfl⟩

theorem RunInv.step {r : Run} (h : RunInv C r) (op : Op) : RunInv C (r.step C op) := by
  cases op with
  | flush =>
    have hhist : (r.step C .flush).history = r.history := by
      simp [Run.step, Run.history, LedgerBuffer.new, ArrayQueue.empty]
    exact ⟨by rw [hhist]; exact h.records, by rw [hhist]; exact h.anchored,
      by rw [hhist]; exact h.tip⟩
  | write a now =>
    rcases hw : r.writer.write C a now with ⟨err | hash, w⟩
    · -- a failed write changes nothing
      have hr : r.step C (.write a now) = r := by simp [Run.step, hw, write_error hw]
      rw [hr]; exact h
    · obtain ⟨e, hnew, rfl, hlast, hitems⟩ := write_ok hw
      have hprev : e.previousHash = r.writer.lastHash := LedgerEntry.new_previousHash hnew
      have hhist : (r.step C (.write a now)).history = r.history ++ [e] := by
        simp [Run.step, Run.history, hw, hitems]
      refine ⟨?_, ?_, ?_⟩
      · rw [hhist]
        simp only [Run.step, hw]
        exact List.rel_append h.records (.cons ⟨by rw [hprev]; exact hnew, rfl⟩ .nil)
      · rw [hhist]
        exact anchored_snoc h.anchored (hprev.trans h.tip)
      · rw [hhist, tip_snoc]
        simp [Run.step, hw, hlast, entryLinks]

theorem runOps_inv (ops : List Op) : RunInv C (runOps C ops) := by
  induction ops using List.reverseRecOn with
  | nil => exact RunInv.init
  | append_singleton ops op ih =>
    unfold runOps at ih ⊢
    rw [List.foldl_append]
    exact ih.step op

theorem Records.verify {a : Ack} {e : LedgerEntry} (h : Records C a e) : e.verify C = true :=
  LedgerEntry.new_verify h.1

theorem RunInv.verify {r : Run} (h : RunInv C r) : ∀ e ∈ r.history, e.verify C = true := by
  intro e he
  obtain ⟨i, hi, rfl⟩ := List.getElem_of_mem he
  have hi' : i < r.acked.length := by rw [h.records.length_eq]; exact hi
  exact (h.records.get hi' hi).verify

/-- **The drained history of every run is the chain of its acknowledged writes.**  The batches
of a run followed by one last flush are exactly the acknowledged writes, once each and in call
order; the list is a chain from `GENESIS`, `verify_chain` accepts it, and a write that failed
left the writer as it was. -/
theorem run_chained (C : Crates) (ops : List Op) :
    let all := (runOps C ops).drained ++ (runOps C ops).writer.flush.1
    List.Forall₂ (Records C) (runOps C ops).acked all ∧
      Anchored entryLinks "GENESIS" all ∧ verifyChain C all = true ∧
      ∀ (args : WriteArgs) (now : Int64) (err : LedgerError) (w : LedgerWriter),
        (runOps C ops).writer.write C args now = (.error err, w) →
        w = (runOps C ops).writer := by
  intro all
  have hinv := runOps_inv (C := C) ops
  have hall : all = (runOps C ops).history := by simp [all, Run.history]
  rw [hall]
  exact ⟨hinv.records, hinv.anchored, verifyChain_iff.2 ⟨hinv.verify, hinv.anchored.linked⟩,
    fun _ _ _ _ hw => write_error hw⟩

end Intellibiz.Ledger
