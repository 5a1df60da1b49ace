import Intellibiz.Machine
import Intellibiz.Ledger.Tamper

/-!
# Concurrent writes

`LedgerWriter::write` as the steps that other threads see of it: the read of `last_hash` under the
read lock, the push on the ring, and the store of `last_hash` under the write lock.

* `Call` — where a call stands.
* `concurrentWriter` — the machine of any number of calls, their steps in any order.
* `UpToDate` — a push on top of the stored tip, while no other push waits for its store.
* `Continuous` — what the calls leave once all have returned.

Principal results: `serial_write` (the three steps in a row are one sequential `write`), `ChainInv`
and `step_chainInv`, from them `upToDate_continuous`; `racingRun_forks` is a run that forks the
chain.
-/

namespace Intellibiz.Ledger

open LedgerWriter HashChain

inductive Call where
  | started (args : WriteArgs)
  | computing (args : WriteArgs) (previousHash : String)
  | pushed (newHash : String)
  | returned (result : Except LedgerError String)

/-- The writer that the calls share, and the calls. -/
structure Shared where
  writer : LedgerWriter
  calls : List Call

namespace Shared

def items (s : Shared) : List LedgerEntry := s.writer.buffer.ring.items

def setCall (s : Shared) (i : Nat) (c : Call) : Shared := { s with calls := s.calls.set i c }

end Shared

/-- A new call, or the next step of the call `i`; `now` is the clock when it builds its entry. -/
inductive Event where
  | call (args : WriteArgs)
  | read (i : Nat)
  | push (i : Nat) (now : Int64)
  | store (i : Nat)

variable (C : Crates)

/-- `LedgerEntry::new(..)?` and `self.buffer.push(entry)?` of the call `i`. -/
def pushEntry (s : Shared) (i : Nat) (args : WriteArgs) (previousHash : String) (now : Int64) :
    Shared :=
  match newEntry C args previousHash now with
  | .error err => s.setCall i (.returned (.error err))
  | .ok entry =>
    match s.writer.buffer.push entry with
    | .error err => s.setCall i (.returned (.error err))
    | .ok buffer =>
      { writer := { s.writer with buffer }, calls := s.calls.set i (.pushed entry.hash) }

def step (s : Shared) : Event → Option Shared
  | .call args => some { s with calls := s.calls ++ [.started args] }
  | .read i =>
    match s.calls[i]? with
    | some (.started args) => some (s.setCall i (.computing args s.writer.lastHash))
    | _ => none
  | .push i now =>
    match s.calls[i]? with
    | some (.computing args previousHash) => some (pushEntry C s i args previousHash now)
    | _ => none
  | .store i =>
    match s.calls[i]? with
    | some (.pushed newHash) =>
      some { writer := { s.writer with lastHash := newHash },
             calls := s.calls.set i (.returned (.ok newHash)) }
    | _ => none

def concurrentWriter : Machine Shared Event where
  init := ⟨.new, []⟩
  step := step C

/-- `verify_chain` accepts the ring, and once all calls have returned `last_hash` is the hash of
its last entry. -/
structure Continuous (s : Shared) : Prop where
  accepted : verifyChain C s.items = true
  tip_stored : (∀ c ∈ s.calls, ∃ result, c = .returned result) →
    ∀ e, s.items.getLast? = some e → s.writer.lastHash = e.hash

/-- The call has pushed and has not stored yet. -/
def Call.waits : Call → Bool
  | .pushed _ => true
  | _ => false

/-- A push that goes through is on top of the stored `last_hash`, and no other call has pushed
without having stored. -/
def UpToDate (s : Shared) : Event → Prop
  | .push i _ =>
    match s.calls[i]? with
    | some (.computing args previousHash) =>
      C.isDecimal args.amount = true → s.items.length < RING_BUFFER_CAPACITY →
        previousHash = s.writer.lastHash ∧ ∀ c ∈ s.calls, c.waits = false
    | _ => True
  | _ => True

instance (s : Shared) (ev : Event) : Decidable (UpToDate C s ev) := by
  unfold UpToDate
  split
  · split <;> infer_instance
  · infer_instance

variable {C}

/-- What the push of a call does. -/
theorem pushEntry_cases (s : Shared) (i : Nat) (args : WriteArgs) (previousHash : String)
    (now : Int64) :
    (∃ err, pushEntry C s i args previousHash now = s.setCall i (.returned (.error err))) ∨
    ∃ e s', pushEntry C s i args previousHash now = s' ∧ C.isDecimal args.amount = true ∧
      s.items.length < RING_BUFFER_CAPACITY ∧ e.previousHash = previousHash ∧
      e.verify C = true ∧ s'.items = s.items ++ [e] ∧ s'.writer.lastHash = s.writer.lastHash ∧
      s'.calls = s.calls.set i (.pushed e.hash) := by
  unfold pushEntry
  split
  · rename_i err _
    exact .inl ⟨err, rfl⟩
  · rename_i e hnew
    split
    · rename_i err _
      exact .inl ⟨err, rfl⟩
    · rename_i buffer hpush
      have hitems := LedgerBuffer.push_ok hpush
      have hamount : C.isDecimal args.amount = true := by
        unfold newEntry LedgerEntry.new at hnew
        split at hnew
        · assumption
        · cases hnew
      have hroom : s.items.length < RING_BUFFER_CAPACITY := by
        have hb := buffer.ring.bounded
        rw [hitems, List.length_append, List.length_singleton] at hb
        exact hb
      exact .inr ⟨e, _, rfl, hamount, hroom, LedgerEntry.new_previousHash hnew,
        LedgerEntry.new_verify hnew, hitems, rfl, rfl⟩

/-- What a step does to the calls and to the ring. -/
theorem step_cases {s s' : Shared} {ev : Event} (h : step C s ev = some s') :
    (∃ c, s' = { s with calls := s.calls ++ [c] } ∧ ∀ newHash, c ≠ .pushed newHash) ∨
    (∃ i c, s' = s.setCall i c ∧ (∀ newHash, s.calls[i]? ≠ some (.pushed newHash)) ∧
      ∀ newHash, c ≠ .pushed newHash) ∨
    (∃ i now args previousHash e, ev = .push i now ∧
      s.calls[i]? = some (.computing args previousHash) ∧ C.isDecimal args.amount = true ∧
      s.items.length < RING_BUFFER_CAPACITY ∧ e.previousHash = previousHash ∧
      e.verify C = true ∧ s'.items = s.items ++ [e] ∧ s'.writer.lastHash = s.writer.lastHash ∧
      s'.calls = s.calls.set i (.pushed e.hash)) ∨
    (∃ i newHash, s.calls[i]? = some (.pushed newHash) ∧
      s' = { writer := { s.writer with lastHash := newHash },
             calls := s.calls.set i (.returned (.ok newHash)) }) := by
  cases ev with
  | call args =>
    cases h
    exact .inl ⟨.started args, rfl, by simp⟩
  | read i =>
    simp only [step] at h
    split at h
    · rename_i args hi
      cases h
      exact .inr (.inl ⟨i, _, rfl, by simp [hi], by simp⟩)
    · cases h
  | push i now =>
    simp only [step] at h
    split at h
    · rename_i args previousHash hi
      cases h
      rcases pushEntry_cases (C := C) s i args previousHash now with ⟨err, herr⟩ |
        ⟨e, s', rfl, hpush⟩
      · exact .inr (.inl ⟨i, _, herr, by simp [hi], by simp⟩)
      · exact .inr (.inr (.inl ⟨i, now, args, previousHash, e, rfl, hi, hpush⟩))
    · cases h
  | store i =>
    simp only [step] at h
    split at h
    · rename_i newHash hi
      cases h
      exact .inr (.inr (.inr ⟨i, newHash, hi, rfl⟩))
    · cases h

/-! ## The calls one after another -/

/-- **The steps of a call in a row are one sequential `write`.** -/
theorem serial_write (s : Shared) (i : Nat) (args : WriteArgs) (now : Int64)
    (hi : s.calls[i]? = some (.started args)) :
    ∃ s₁ s₂, step C s (.read i) = some s₁ ∧ step C s₁ (.push i now) = some s₂ ∧
      ((step C s₂ (.store i)).getD s₂).writer = (s.writer.write C args now).2 ∧
      ((step C s₂ (.store i)).getD s₂).calls[i]? =
        some (.returned (s.writer.write C args now).1) := by
  have hlen : i < s.calls.length := (List.getElem?_eq_some_iff.1 hi).1
  obtain ⟨s₁, hs₁⟩ : ∃ s₁, s₁ = s.setCall i (.computing args s.writer.lastHash) := ⟨_, rfl⟩
  refine ⟨s₁, pushEntry C s₁ i args s.writer.lastHash now, by simp [step, hi, hs₁], ?_, ?_⟩
  · simp [step, Shared.setCall, hlen, hs₁]
  · subst hs₁
    have hbuffer : (s.setCall i (.computing args s.writer.lastHash)).writer = s.writer := rfl
    unfold pushEntry write
    rw [hbuffer]
    cases hnew : newEntry C args s.writer.lastHash now with
    | error err => simp [step, Shared.setCall, hlen, hnew]
    | ok entry =>
      cases hpush : s.writer.buffer.push entry <;>
        simp [step, Shared.setCall, hlen, hnew, hpush]

/-! ## Up-to-date pushes -/

structure ChainInv (C : Crates) (s : Shared) : Prop where
  verified : ∀ e ∈ s.items, e.verify C = true
  anchored : Anchored entryLinks "GENESIS" s.items
  pushed_tip : ∀ newHash, Call.pushed newHash ∈ s.calls → newHash = tip entryLinks "GENESIS" s.items
  stored_tip : (∀ newHash, Call.pushed newHash ∉ s.calls) →
    s.writer.lastHash = tip entryLinks "GENESIS" s.items

theorem pushed_of_set {s : Shared} {i : Nat} {c : Call} (hc : ∀ newHash, c ≠ .pushed newHash)
    {newHash : String} (h : Call.pushed newHash ∈ s.calls.set i c) :
    Call.pushed newHash ∈ s.calls := by
  rcases List.mem_or_eq_of_mem_set h with h | h
  · exact h
  · exact absurd h.symm (hc newHash)

theorem pushed_set {s : Shared} {i : Nat} {c : Call}
    (hi : ∀ newHash, s.calls[i]? ≠ some (.pushed newHash)) {newHash : String}
    (h : Call.pushed newHash ∈ s.calls) : Call.pushed newHash ∈ s.calls.set i c := by
  obtain ⟨j, hj⟩ := List.mem_iff_getElem?.1 h
  have hne : i ≠ j := by
    rintro rfl
    exact hi newHash hj
  exact List.mem_iff_getElem?.2 ⟨j, by rw [List.getElem?_set_ne hne, hj]⟩

theorem step_chainInv {s s' : Shared} {ev : Event} (hs : ChainInv C s) (hev : UpToDate C s ev)
    (h : step C s ev = some s') : ChainInv C s' := by
  rcases step_cases h with ⟨c, rfl, hc⟩ | ⟨i, c, rfl, hi, hc⟩ |
    ⟨i, now, args, previousHash, e, rfl, hi, hamount, hroom, hprev, hverify, hitems, hlast, hcalls⟩ |
    ⟨i, newHash, hi, rfl⟩
  · refine ⟨hs.verified, hs.anchored, fun newHash hmem => ?_, fun hnone => ?_⟩
    · rcases List.mem_append.1 hmem with hmem | hmem
      · exact hs.pushed_tip newHash hmem
      · exact absurd (List.mem_singleton.1 hmem).symm (hc newHash)
    · exact hs.stored_tip fun newHash hmem => hnone newHash (List.mem_append_left _ hmem)
  · refine ⟨hs.verified, hs.anchored, fun newHash hmem => ?_, fun hnone => ?_⟩
    · exact hs.pushed_tip newHash (pushed_of_set hc hmem)
    · exact hs.stored_tip fun newHash hmem => hnone newHash (pushed_set hi hmem)
  · simp only [UpToDate, hi] at hev
    obtain ⟨hstored, hquiet⟩ := hev hamount hroom
    have hnone : ∀ newHash, Call.pushed newHash ∉ s.calls := by
      intro newHash hmem
      cases hquiet _ hmem
    have htip := hs.stored_tip hnone
    refine ⟨?_, ?_, fun newHash hmem => ?_, fun hnone' => ?_⟩
    · intro x hx
      rw [hitems] at hx
      rcases List.mem_append.1 hx with hx | hx
      · exact hs.verified x hx
      · rw [List.mem_singleton.1 hx]
        exact hverify
    · rw [hitems]
      exact anchored_snoc hs.anchored (hprev.trans (hstored.trans htip))
    · rw [hcalls] at hmem
      rw [hitems, tip_snoc]
      rcases List.mem_or_eq_of_mem_set hmem with hmem | heq
      · exact absurd hmem (hnone newHash)
      · cases heq
        rfl
    · refine absurd ?_ (hnone' e.hash)
      rw [hcalls]
      exact List.mem_set (List.getElem?_eq_some_iff.1 hi).1 _
  · have htip := hs.pushed_tip newHash (List.mem_of_getElem? hi)
    refine ⟨hs.verified, hs.anchored, fun newHash' hmem => ?_, fun _ => htip⟩
    exact hs.pushed_tip newHash' (pushed_of_set (by simp) hmem)

/-- **Chain continuity**, in every state of every run whose pushes are up to date. -/
theorem upToDate_continuous {es : List Event} {s : Shared}
    (hC : (concurrentWriter C).Along (UpToDate C) es) (h : (concurrentWriter C).run es = some s) :
    Continuous C s := by
  have hinit : ChainInv C (concurrentWriter C).init := by
    refine ⟨fun e he => ?_, anchored_nil _ _, fun newHash hmem => ?_, fun _ => rfl⟩
    · cases he
    · cases hmem
  have hinv : ChainInv C s := Machine.run_induction_along (P := fun _ => ChainInv C) hinit
    (fun _ _ _ _ _ hs hev hstep => step_chainInv hs hev hstep) hC h
  refine ⟨verifyChain_iff.2 ⟨hinv.verified, hinv.anchored.linked⟩, fun hall e he => ?_⟩
  have hnone : ∀ newHash, Call.pushed newHash ∉ s.calls := by
    intro newHash hmem
    obtain ⟨result, hresult⟩ := hall _ hmem
    cases hresult
  rw [hinv.stored_tip hnone, tip, he]
  rfl

/-! ### Two racing calls -/

def sampleArgs (id : String) : WriteArgs :=
  ⟨id, "trc_1", "org_a", "cash", "revenue", "10.00", "USD"⟩

/-- The second call starts after the first has returned. -/
def queuedRun : List Event :=
  [.call (sampleArgs "led_1"), .read 0, .push 0 1700000000, .store 0,
    .call (sampleArgs "led_2"), .read 1, .push 1 1700000001, .store 1]

/-- Both calls read `last_hash` before either has pushed. -/
def racingRun : List Event :=
  [.call (sampleArgs "led_1"), .call (sampleArgs "led_2"), .read 0, .read 1,
    .push 0 1700000000, .store 0, .push 1 1700000001, .store 1]

theorem upToDate_continuous_queuedRun :
    ∃ s, (concurrentWriter sampleCrates).run queuedRun = some s ∧ Continuous sampleCrates s := by
  have hC : (concurrentWriter sampleCrates).Along (UpToDate sampleCrates) queuedRun := by
    rw [Machine.along_iff_from]
    decide
  cases hrun : (concurrentWriter sampleCrates).run queuedRun with
  | none => cases hrun
  | some s => exact ⟨s, rfl, upToDate_continuous hC hrun⟩

/-- **Two racing calls fork the chain**: both return `Ok`, and `verify_chain` rejects the ring. -/
theorem racingRun_forks :
    ∃ s, (concurrentWriter sampleCrates).run racingRun = some s ∧
      (∀ c ∈ s.calls, ∃ newHash, c = .returned (.ok newHash)) ∧ ¬ Continuous sampleCrates s := by
  cases hrun : (concurrentWriter sampleCrates).run racingRun with
  | none => cases hrun
  | some s =>
    obtain rfl := Option.some.inj hrun
    refine ⟨_, rfl, fun c hc => ?_, fun h => absurd h.accepted (by decide)⟩
    rcases List.mem_cons.1 hc with rfl | hc
    · exact ⟨_, rfl⟩
    · rcases List.mem_cons.1 hc with rfl | hc
      · exact ⟨_, rfl⟩
      · cases hc

end Intellibiz.Ledger
