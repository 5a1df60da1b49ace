import Intellibiz.JsMap
import Intellibiz.Machine
import Intellibiz.Commerce.Transaction

/-!
# The bank retry state machine

Model of `packages/commerce/src/state-machine/bank-retry.ts`.  A registration is a `RetryEntry`,
known by its place in the list of all registrations; `activeRetries` maps a payment id to one.

* `Poller` — where the asynchronous code of an entry stands: no timer, timer armed, awaiting
  `checkStatus`, awaiting `onResolved`.
* `Retries.schedulePoll` / `Retries.resolve` — the functions every event goes through.
* `RetryEvent` / `retries` — calls from outside, timer firings and promises that settle; every
  callback made is logged with the entry it belongs to.

Principal results: `step_resolutions` (a step resolves an entry a second time exactly when a
decisive status reaches a resolved entry) and `resolvedOnce_iff`.
-/

namespace Intellibiz.Commerce

def POLL_INTERVAL_MS : Nat := 60000

def MAX_POLL_DURATION_MS : Nat := 24 * 60 * 60 * 1000

/-- `Math.ceil(MAX_POLL_DURATION_MS / POLL_INTERVAL_MS)` -/
def MAX_POLL_ATTEMPTS : Nat := (MAX_POLL_DURATION_MS + POLL_INTERVAL_MS - 1) / POLL_INTERVAL_MS

inductive BankStatus where
  | succeeded
  | failed
  | pending
  | unknown
  deriving DecidableEq, Repr

inductive Poller where
  | idle
  | armed
  | checking
  | resolving
  deriving DecidableEq, Repr

structure RetryEntry where
  paymentId : String
  startTime : Nat
  attempt : Nat
  poller : Poller
  resolved : Bool
  deriving DecidableEq, Repr

/-- `if (entry.timer) clearTimeout(entry.timer)`; a timer that has fired is not stopped. -/
def RetryEntry.clearTimeout (e : RetryEntry) : RetryEntry :=
  if e.poller = .armed then { e with poller := .idle } else e

/-- A call of one of the functions in the entry's config. -/
inductive Callback where
  | checkStatus (paymentId : String)
  | onPoll (paymentId : String) (attempt : Nat) (status : BankStatus)
  | onResolved (paymentId : String) (finalState : TransactionState)
  deriving DecidableEq, Repr

structure Retries where
  /-- Every registration ever made. -/
  entries : List RetryEntry
  activeRetries : JsMap String Nat
  calls : List (Nat × Callback)

def Retries.call (i : Nat) (callback : Callback) (s : Retries) : Retries :=
  { s with calls := s.calls ++ [(i, callback)] }

def Retries.setEntry (i : Nat) (e : RetryEntry) (s : Retries) : Retries :=
  { s with entries := s.entries.set i e }

/-- `entry.resolved = true`, `activeRetries.delete` and the call of `onResolved`; `poller` is what
is left of the entry's asynchronous code. -/
def Retries.resolve (i : Nat) (e : RetryEntry) (poller : Poller) (finalState : TransactionState)
    (s : Retries) : Retries :=
  { entries := s.entries.set i { e with resolved := true, poller }
    activeRetries := s.activeRetries.delete e.paymentId
    calls := s.calls ++ [(i, .onResolved e.paymentId finalState)] }

/-- `schedulePoll(entry)` for the entry `e` at place `i`. -/
def Retries.schedulePoll (i : Nat) (e : RetryEntry) (now : Nat) (s : Retries) : Retries :=
  if e.resolved then s.setEntry i { e with poller := .idle }
  else if now - e.startTime ≥ MAX_POLL_DURATION_MS ∨ e.attempt ≥ MAX_POLL_ATTEMPTS then
    s.resolve i e .idle .manualReview
  else s.setEntry i { e with attempt := e.attempt + 1, poller := .armed }

inductive RetryEvent where
  | startBankRetry (paymentId : String) (startTime now : Nat)
  | timerFires (i : Nat)
  /-- `checkStatus` resolves; `onPollThrows` is how the logging callback then behaves. -/
  | statusReturns (i : Nat) (status : BankStatus) (onPollThrows : Bool) (now : Nat)
  | statusRejects (i : Nat) (now : Nat)
  | resolvedSettles (i : Nat) (rejected : Bool) (now : Nat)
  | forceResolve (paymentId : String) (finalState : TransactionState)
  | cancelAllRetries
  deriving Repr

def startBankRetry (paymentId : String) (startTime now : Nat) (s : Retries) : Retries :=
  if s.activeRetries.has paymentId then s
  else
    let e : RetryEntry := { paymentId, startTime, attempt := 0, poller := .idle, resolved := false }
    let s' : Retries := { s with
      entries := s.entries ++ [e]
      activeRetries := s.activeRetries.set paymentId s.entries.length }
    s'.schedulePoll s.entries.length e now

/-- The timer callback up to its `await`. -/
def timerFires (i : Nat) (e : RetryEntry) (s : Retries) : Retries :=
  if e.resolved then s.setEntry i { e with poller := .idle }
  else (s.setEntry i { e with poller := .checking }).call i (.checkStatus e.paymentId)

/-- The timer callback from its `await` on. -/
def statusReturns (i : Nat) (e : RetryEntry) (status : BankStatus) (onPollThrows : Bool)
    (now : Nat) (s : Retries) : Retries :=
  let s := s.call i (.onPoll e.paymentId e.attempt status)
  if onPollThrows then s.schedulePoll i e now
  else match status with
    | .succeeded => s.resolve i e .resolving .committed
    | .failed => s.resolve i e .resolving .rolledBack
    | .pending | .unknown => s.schedulePoll i e now

/-- The end of the timer callback; a rejection of `onResolved` reaches the same `catch` as one of
`checkStatus`. -/
def resolvedSettles (i : Nat) (e : RetryEntry) (rejected : Bool) (now : Nat) (s : Retries) :
    Retries :=
  if rejected then s.schedulePoll i e now else s.setEntry i { e with poller := .idle }

def forceResolve (paymentId : String) (finalState : TransactionState) (s : Retries) : Retries :=
  match s.activeRetries.get paymentId with
  | none => s
  | some i =>
    match s.entries[i]? with
    | none => s
    | some e => s.resolve i e e.clearTimeout.poller finalState

def cancelAllRetries (s : Retries) : Retries :=
  { s with
    entries := s.entries.mapIdx fun i e =>
      if i ∈ s.activeRetries.entries.map Prod.snd then e.clearTimeout else e
    activeRetries := .empty }

/-- Run `f` on the entry at `i` if its code is at `poller`. -/
def Retries.atPoller (i : Nat) (poller : Poller) (f : RetryEntry → Retries → Retries)
    (s : Retries) : Option Retries :=
  match s.entries[i]? with
  | none => none
  | some e => if e.poller = poller then some (f e s) else none

def Retries.step (s : Retries) : RetryEvent → Option Retries
  | .startBankRetry paymentId startTime now => some (startBankRetry paymentId startTime now s)
  | .timerFires i => s.atPoller i .armed (timerFires i)
  | .statusReturns i status onPollThrows now =>
    s.atPoller i .checking fun e => statusReturns i e status onPollThrows now
  | .statusRejects i now => s.atPoller i .checking fun e => Retries.schedulePoll i e now
  | .resolvedSettles i rejected now =>
    s.atPoller i .resolving fun e => resolvedSettles i e rejected now
  | .forceResolve paymentId finalState => some (forceResolve paymentId finalState s)
  | .cancelAllRetries => some (cancelAllRetries s)

def retries : Machine Retries RetryEvent where
  init := ⟨[], .empty, []⟩
  step := Retries.step

/-! ## Resolutions -/

def Callback.isResolution : Callback → Bool
  | .onResolved _ _ => true
  | _ => false

/-- How often `onResolved` was called for the registration at `i`. -/
def Retries.resolutions (s : Retries) (i : Nat) : Nat :=
  s.calls.countP fun c => c.1 == i && c.2.isResolution

/-- No registration has been resolved twice. -/
def Retries.ResolvedOnce (s : Retries) : Prop := ∀ i, s.resolutions i ≤ 1

/-- The event is not a decisive status that reaches a resolved entry. -/
def NotLate (s : Retries) : RetryEvent → Prop
  | .statusReturns i status onPollThrows _ =>
    onPollThrows = false → status = .succeeded ∨ status = .failed →
      ∀ e, s.entries[i]? = some e → e.resolved = false
  | _ => True

/-- The payment id and the `resolved` flag of the entry at `i`. -/
def Retries.record (s : Retries) (i : Nat) : Option (String × Bool) :=
  s.entries[i]?.map fun e => (e.paymentId, e.resolved)

/-- Active entries are unresolved, and `resolved` says whether `onResolved` was called. -/
structure RetryInv (s : Retries) : Prop where
  active : ∀ paymentId i, s.activeRetries.get paymentId = some i →
    s.record i = some (paymentId, false)
  unresolved : ∀ i, (∀ paymentId, s.record i ≠ some (paymentId, true)) → s.resolutions i = 0
  resolved : ∀ i paymentId, s.record i = some (paymentId, true) → 1 ≤ s.resolutions i

theorem RetryInv.init : RetryInv retries.init :=
  ⟨by simp [retries], by simp [retries, Retries.resolutions], by simp [retries, Retries.record]⟩

theorem record_of_entry {s : Retries} {i : Nat} {e : RetryEntry} (h : s.entries[i]? = some e) :
    s.record i = some (e.paymentId, e.resolved) := by
  simp [Retries.record, h]

/-- The entries after the one at `i` is overwritten. -/
theorem record_set {s s' : Retries} {i : Nat} {e e' : RetryEntry} (he : s.entries[i]? = some e)
    (hs' : s'.entries = s.entries.set i e') (j : Nat) :
    s'.record j = if j = i then some (e'.paymentId, e'.resolved) else s.record j := by
  have hlt : i < s.entries.length := (List.getElem?_eq_some_iff.1 he).1
  unfold Retries.record
  rw [hs', List.getElem?_set]
  by_cases hij : j = i
  · subst hij
    simp [hlt]
  · rw [if_neg (Ne.symm hij), if_neg hij]

/-! ### What an event does -/

/-- The invariant is kept, and no entry is resolved a second time exactly if `ok` holds. -/
structure StepSpec (s s' : Retries) (ok : Prop) : Prop where
  inv : RetryInv s'
  once : s'.ResolvedOnce ↔ s.ResolvedOnce ∧ ok

theorem StepSpec.of_iff {s s' : Retries} {ok ok' : Prop} (h : StepSpec s s' ok) (hok : ok ↔ ok') :
    StepSpec s s' ok' :=
  ⟨h.inv, by rw [h.once, hok]⟩

theorem StepSpec.trans {s s' s'' : Retries} {ok : Prop} (h : StepSpec s s' True)
    (h' : StepSpec s' s'' ok) : StepSpec s s'' ok :=
  ⟨h'.inv, by rw [h'.once, h.once, and_true]⟩

/-- An event that resolves nothing and keeps the records. -/
theorem RetryInv.quiet {s s' : Retries} (h : RetryInv s) (hrec : ∀ i, s'.record i = s.record i)
    (hactive : ∀ paymentId i, s'.activeRetries.get paymentId = some i →
      s.activeRetries.get paymentId = some i)
    (hcalls : ∀ i, s'.resolutions i = s.resolutions i) : StepSpec s s' True := by
  refine ⟨⟨?_, ?_, ?_⟩, by simp [Retries.ResolvedOnce, hcalls]⟩
  · intro paymentId i hi
    rw [hrec]
    exact h.active paymentId i (hactive paymentId i hi)
  · intro i hi
    rw [hcalls]
    exact h.unresolved i fun paymentId => hrec i ▸ hi paymentId
  · intro i paymentId hi
    rw [hcalls]
    exact h.resolved i paymentId (hrec i ▸ hi)

theorem RetryInv.setEntry {s : Retries} (h : RetryInv s) {i : Nat} {e e' : RetryEntry}
    (he : s.entries[i]? = some e) (hid : e'.paymentId = e.paymentId)
    (hres : e'.resolved = e.resolved) : StepSpec s (s.setEntry i e') True := by
  refine h.quiet (fun j => ?_) (fun _ _ hj => hj) (fun _ => rfl)
  rw [record_set he rfl, hid, hres]
  split
  · rename_i hj
    rw [hj, record_of_entry he]
  · rfl

theorem RetryInv.call {s : Retries} (h : RetryInv s) (i : Nat) {callback : Callback}
    (hc : callback.isResolution = false) : StepSpec s (s.call i callback) True := by
  refine h.quiet (fun _ => rfl) (fun _ _ hj => hj) (fun j => ?_)
  simp [Retries.resolutions, Retries.call, hc]

theorem resolutions_resolve (s : Retries) (i : Nat) (e : RetryEntry) (poller : Poller)
    (finalState : TransactionState) (j : Nat) :
    (s.resolve i e poller finalState).resolutions j = s.resolutions j + if j = i then 1 else 0 := by
  by_cases hj : j = i
  · subst hj
    simp [Retries.resolutions, Retries.resolve, Callback.isResolution]
  · have hij : (i == j) = false := by simpa using Ne.symm hj
    simp [Retries.resolutions, Retries.resolve, hij, hj]

/-- Resolving an entry that is not resolved yet is its first resolution. -/
theorem RetryInv.resolve {s : Retries} (h : RetryInv s) {i : Nat} {e : RetryEntry}
    (he : s.entries[i]? = some e) (poller : Poller) (finalState : TransactionState) :
    StepSpec s (s.resolve i e poller finalState) (e.resolved = false) := by
  have hset : (s.resolve i e poller finalState).entries =
      s.entries.set i { e with resolved := true, poller } := rfl
  have hrec : ∀ j, (s.resolve i e poller finalState).record j =
      if j = i then some (e.paymentId, true) else s.record j :=
    record_set he hset
  have hcount := resolutions_resolve s i e poller finalState
  refine ⟨⟨?_, ?_, ?_⟩, ?_⟩
  · intro paymentId j hj
    simp only [Retries.resolve, JsMap.get_delete] at hj
    split at hj
    · cases hj
    · rename_i hne
      have hj' := h.active paymentId j hj
      have hji : j ≠ i := by
        rintro rfl
        rw [record_of_entry he] at hj'
        exact hne (congrArg Prod.fst (Option.some.inj hj')).symm
      rw [hrec, if_neg hji]
      exact hj'
  · intro j hj
    have hji : j ≠ i := by
      rintro rfl
      exact hj e.paymentId (by rw [hrec, if_pos rfl])
    rw [hcount, if_neg hji, Nat.add_zero]
    exact h.unresolved j fun paymentId => by
      have := hj paymentId
      rwa [hrec, if_neg hji] at this
  · intro j paymentId hj
    rw [hcount]
    split
    · omega
    · rename_i hji
      rw [hrec, if_neg hji] at hj
      have := h.resolved j paymentId hj
      omega
  · constructor
    · intro honce
      refine ⟨fun j => ?_, ?_⟩
      · have := honce j
        rw [hcount] at this
        omega
      · -- a resolved entry would now have two resolutions
        by_contra hres
        have hone := h.resolved i e.paymentId (by rw [record_of_entry he]; simp at hres; rw [hres])
        have htwo := honce i
        rw [hcount, if_pos rfl] at htwo
        omega
    · rintro ⟨honce, hres⟩ j
      rw [hcount]
      split
      · rename_i hji
        subst hji
        have hzero := h.unresolved j fun paymentId => by simp [record_of_entry he, hres]
        omega
      · exact honce j

theorem RetryInv.schedulePoll {s : Retries} (h : RetryInv s) {i : Nat} {e : RetryEntry}
    (he : s.entries[i]? = some e) (now : Nat) : StepSpec s (s.schedulePoll i e now) True := by
  unfold Retries.schedulePoll
  split
  · exact h.setEntry he rfl rfl
  · rename_i hres
    split
    · exact (h.resolve he .idle .manualReview).of_iff (by simp [hres])
    · exact h.setEntry he rfl rfl

/-! ### The events -/

theorem RetryInv.startBankRetry {s : Retries} (h : RetryInv s) (paymentId : String)
    (startTime now : Nat) : StepSpec s (startBankRetry paymentId startTime now s) True := by
  unfold Commerce.startBankRetry
  split
  · exact ⟨h, by simp⟩
  · dsimp only
    generalize he : (RetryEntry.mk paymentId startTime 0 .idle false) = e
    generalize hs' : (Retries.mk (s.entries ++ [e])
      (s.activeRetries.set paymentId s.entries.length) s.calls) = s'
    have hnew : s'.entries[s.entries.length]? = some e := by rw [← hs']; simp
    have hrec : ∀ i, s'.record i =
        if i = s.entries.length then some (paymentId, false) else s.record i := by
      intro i
      split
      · rename_i hi
        rw [hi, record_of_entry hnew, ← he]
      · rename_i hi
        rw [← hs', Retries.record, Retries.record, List.getElem?_append]
        split
        · rfl
        · have : 0 < i - s.entries.length := by omega
          have hnone : s.entries[i]? = none := by simp; omega
          rw [hnone]
          simp; omega
    have hlast : s.record s.entries.length = none := by simp [Retries.record]
    have hspec : StepSpec s s' True := by
      have hcalls : ∀ i, s'.resolutions i = s.resolutions i := fun i => by rw [← hs']; rfl
      refine ⟨⟨?_, ?_, ?_⟩, by simp [Retries.ResolvedOnce, hcalls]⟩
      · intro pid i hi
        rw [← hs', JsMap.get_set] at hi
        rw [hrec]
        split at hi
        · rename_i hpid
          cases hi
          rw [if_pos rfl, hpid]
        · have hi' := h.active pid i hi
          split
          · rename_i hlen
            rw [hlen, hlast] at hi'
            cases hi'
          · exact hi'
      · intro i hi
        rw [hcalls]
        refine h.unresolved i fun pid hpid => ?_
        have := hi pid
        rw [hrec] at this
        split at this
        · rename_i hlen
          rw [hlen, hlast] at hpid
          cases hpid
        · exact this hpid
      · intro i pid hi
        rw [hcalls]
        rw [hrec] at hi
        split at hi
        · cases hi
        · exact h.resolved i pid hi
    exact hspec.trans (hspec.inv.schedulePoll hnew now)

theorem clearTimeout_record (e : RetryEntry) :
    e.clearTimeout.paymentId = e.paymentId ∧ e.clearTimeout.resolved = e.resolved := by
  unfold RetryEntry.clearTimeout
  split <;> exact ⟨rfl, rfl⟩

theorem RetryInv.cancelAllRetries {s : Retries} (h : RetryInv s) :
    StepSpec s (cancelAllRetries s) True := by
  refine h.quiet (fun i => ?_) (fun _ _ hi => by simp [Commerce.cancelAllRetries] at hi)
    (fun _ => rfl)
  simp only [Retries.record, Commerce.cancelAllRetries, List.getElem?_mapIdx, Option.map_map]
  congr 1
  funext e
  simp only [Function.comp]
  split
  · rw [(clearTimeout_record e).1, (clearTimeout_record e).2]
  · rfl

theorem RetryInv.forceResolve {s : Retries} (h : RetryInv s) (paymentId : String)
    (finalState : TransactionState) : StepSpec s (forceResolve paymentId finalState s) True := by
  unfold Commerce.forceResolve
  split
  · exact ⟨h, by simp⟩
  · rename_i i hi
    split
    · exact ⟨h, by simp⟩
    · rename_i e he
      have hspec := h.resolve he e.clearTimeout.poller finalState
      have hactive := h.active paymentId i hi
      rw [record_of_entry he] at hactive
      have hres : e.resolved = false := congrArg Prod.snd (Option.some.inj hactive)
      exact hspec.of_iff (by simp [hres])

theorem RetryInv.timerFires {s : Retries} (h : RetryInv s) {i : Nat} {e : RetryEntry}
    (he : s.entries[i]? = some e) : StepSpec s (timerFires i e s) True := by
  unfold Commerce.timerFires
  split
  · exact h.setEntry he rfl rfl
  · have hset : StepSpec s (s.setEntry i { e with poller := .checking }) True :=
      h.setEntry he rfl rfl
    exact hset.trans (hset.inv.call i rfl)

theorem RetryInv.statusReturns {s : Retries} (h : RetryInv s) {i : Nat} {e : RetryEntry}
    (he : s.entries[i]? = some e) (status : BankStatus) (onPollThrows : Bool) (now : Nat) :
    StepSpec s (statusReturns i e status onPollThrows now s)
      (NotLate s (.statusReturns i status onPollThrows now)) := by
  have hlate : NotLate s (.statusReturns i status onPollThrows now) ↔
      (onPollThrows = false → status = .succeeded ∨ status = .failed → e.resolved = false) := by
    simp [NotLate, he]
  rw [hlate]
  have hcall : StepSpec s (s.call i (.onPoll e.paymentId e.attempt status)) True := h.call i rfl
  refine hcall.trans ?_
  have hpoll := hcall.inv.schedulePoll he now
  cases onPollThrows with
  | true => exact hpoll.of_iff (by simp)
  | false =>
    cases status with
    | succeeded => exact (hcall.inv.resolve he .resolving .committed).of_iff (by simp)
    | failed => exact (hcall.inv.resolve he .resolving .rolledBack).of_iff (by simp)
    | pending | unknown => exact hpoll.of_iff (by simp)

theorem atPoller_some {s s' : Retries} {i : Nat} {poller : Poller}
    {f : RetryEntry → Retries → Retries} (h : s.atPoller i poller f = some s') :
    ∃ e, s.entries[i]? = some e ∧ e.poller = poller ∧ s' = f e s := by
  unfold Retries.atPoller at h
  split at h
  · cases h
  · rename_i e he
    split at h
    · rename_i hp
      exact ⟨e, he, hp, by cases h; rfl⟩
    · cases h

/-- **A step resolves an entry a second time exactly when a decisive status reaches a resolved
entry.** -/
theorem step_resolutions {s s' : Retries} {e : RetryEvent} (h : RetryInv s)
    (hstep : s.step e = some s') : StepSpec s s' (NotLate s e) := by
  cases e with
  | startBankRetry paymentId startTime now =>
    cases hstep
    exact h.startBankRetry paymentId startTime now
  | timerFires i =>
    obtain ⟨e, he, -, rfl⟩ := atPoller_some hstep
    exact h.timerFires he
  | statusReturns i status onPollThrows now =>
    obtain ⟨e, he, -, rfl⟩ := atPoller_some hstep
    exact h.statusReturns he status onPollThrows now
  | statusRejects i now =>
    obtain ⟨e, he, -, rfl⟩ := atPoller_some hstep
    exact h.schedulePoll he now
  | resolvedSettles i rejected now =>
    obtain ⟨e, he, -, rfl⟩ := atPoller_some hstep
    unfold resolvedSettles
    split
    · exact h.schedulePoll he now
    · exact h.setEntry he rfl rfl
  | forceResolve paymentId finalState =>
    cases hstep
    exact h.forceResolve paymentId finalState
  | cancelAllRetries =>
    cases hstep
    exact h.cancelAllRetries

theorem run_retryInv {es : List RetryEvent} {s : Retries} (hrun : retries.run es = some s) :
    RetryInv s := by
  refine Machine.run_induction (M := retries) (P := fun _ s => RetryInv s) .init ?_ hrun
  intro es s e s' _ h hstep
  exact (step_resolutions h hstep).inv

/-- **Every registration is resolved at most once exactly when no decisive status reaches a
resolved entry**, over every run. -/
theorem resolvedOnce_iff {es : List RetryEvent} {s : Retries} (hrun : retries.run es = some s) :
    s.ResolvedOnce ↔ retries.Along NotLate es := by
  refine Machine.run_induction (M := retries)
    (P := fun es s => s.ResolvedOnce ↔ retries.Along NotLate es) ?_ ?_ hrun
  · simp [Machine.along_nil, retries, Retries.ResolvedOnce, Retries.resolutions]
  · intro es s e s' hs ih hstep
    rw [(step_resolutions (run_retryInv hs) hstep).once, ih, Machine.along_snoc]
    simp [hs]

/-! ### Concrete runs -/

/-- The first check succeeds, with nothing in between. -/
def polledRun : List RetryEvent :=
  [.startBankRetry "pi_1" 0 0, .timerFires 0, .statusReturns 0 .succeeded false 60000]

theorem resolvedOnce_iff_polledRun :
    ∃ s, retries.run polledRun = some s ∧
      (s.ResolvedOnce ↔ retries.Along NotLate polledRun) :=
  ⟨_, rfl, resolvedOnce_iff rfl⟩

/-- The payment is force-resolved while the check is in flight. -/
def forcedRun : List RetryEvent :=
  [.startBankRetry "pi_1" 0 0, .timerFires 0, .forceResolve "pi_1" .rolledBack,
    .statusReturns 0 .succeeded false 60000]

theorem forcedRun_resolved_twice :
    ∃ s, retries.run forcedRun = some s ∧
      s.calls.filter (·.2.isResolution) =
        [(0, .onResolved "pi_1" .rolledBack), (0, .onResolved "pi_1" .committed)] ∧
      ¬ s.ResolvedOnce := by
  refine ⟨_, rfl, by decide, fun h => ?_⟩
  exact absurd (h 0) (by decide)

end Intellibiz.Commerce
