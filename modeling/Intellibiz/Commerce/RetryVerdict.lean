import Intellibiz.Commerce.RetryRegistry

/-!
# Undisturbed retries end with the right verdict

A registration whose payment is neither force-resolved nor cancelled while it is registered.

* `Outcome` / `outcomes` — how the status checks of a registration settled, with the reading of
  the clock after each.
* `expectedVerdicts` — the first decisive outcome, or `manualReview` once a limit is reached.
* `Pending` / `Done` — the two phases of a registration: what `schedulePoll` keeps up, and what
  `onResolved` leaves behind.
* `Verdict` — the account of a registration at a point of a run.

Principal results: `polled_step`, `run_undisturbed` (the registry stays exact for such a payment)
and `undisturbed_ends`.
-/

namespace Intellibiz.Commerce

/-! ## Outcomes and verdicts -/

/-- A status check that settled; `none` if it was rejected. -/
structure Outcome where
  status : Option BankStatus
  now : Nat
  deriving DecidableEq, Repr

def RetryEvent.outcome? (i : Nat) : RetryEvent → Option Outcome
  | .statusReturns j status _ now => if j = i then some ⟨some status, now⟩ else none
  | .statusRejects j now => if j = i then some ⟨none, now⟩ else none
  | _ => none

def outcomes (i : Nat) (es : List RetryEvent) : List Outcome := es.filterMap (·.outcome? i)

/-- A timer or a promise of the registration at `i`. -/
def RetryEvent.isPoll (i : Nat) : RetryEvent → Bool
  | .timerFires j | .statusReturns j _ _ _ | .statusRejects j _ | .resolvedSettles j _ _ => j = i
  | _ => false

def BankStatus.verdict? : BankStatus → Option TransactionState
  | .succeeded => some .committed
  | .failed => some .rolledBack
  | .pending | .unknown => none

def firstDecisive (outs : List Outcome) : Option TransactionState :=
  outs.findSome? fun o => o.status.bind BankStatus.verdict?

/-- 24 hours are over at some reading of the clock, or all attempts are used up. -/
def limitReached (startTime now : Nat) (outs : List Outcome) : Bool :=
  MAX_POLL_DURATION_MS ≤ now - startTime ||
    outs.any (fun o => MAX_POLL_DURATION_MS ≤ o.now - startTime) ||
    MAX_POLL_ATTEMPTS ≤ outs.length

def expectedVerdicts (startTime now : Nat) (outs : List Outcome) : List TransactionState :=
  match firstDecisive outs with
  | some verdict => [verdict]
  | none => if limitReached startTime now outs then [.manualReview] else []

def Callback.verdict? : Callback → Option TransactionState
  | .onResolved _ finalState => some finalState
  | _ => none

def Callback.isCheck : Callback → Bool
  | .checkStatus _ => true
  | _ => false

/-- The states with which `onResolved` was called for the registration at `i`. -/
def Retries.verdicts (s : Retries) (i : Nat) : List TransactionState :=
  (s.callsOf i).filterMap Callback.verdict?

/-- How often `checkStatus` was called for the registration at `i`. -/
def Retries.checks (s : Retries) (i : Nat) : Nat := (s.callsOf i).countP Callback.isCheck

theorem firstDecisive_snoc {outs : List Outcome} (h : firstDecisive outs = none) (o : Outcome) :
    firstDecisive (outs ++ [o]) = o.status.bind BankStatus.verdict? := by
  unfold firstDecisive at h ⊢
  rw [List.findSome?_append, h]
  simp

theorem limitReached_snoc {startTime now : Nat} {outs : List Outcome}
    (h : limitReached startTime now outs = false) (o : Outcome) :
    limitReached startTime now (outs ++ [o]) = true ↔
      MAX_POLL_DURATION_MS ≤ o.now - startTime ∨ MAX_POLL_ATTEMPTS ≤ outs.length + 1 := by
  unfold limitReached at h ⊢
  simp only [Bool.or_eq_false_iff, decide_eq_false_iff_not] at h
  obtain ⟨⟨hnow, houts⟩, -⟩ := h
  simp only [Bool.or_eq_true, decide_eq_true_eq, List.any_append, houts, List.any_cons,
    List.any_nil, Bool.or_false, Bool.false_or, List.length_append, List.length_cons,
    List.length_nil, hnow, false_or]

theorem outcomes_snoc (i : Nat) (es : List RetryEvent) (ev : RetryEvent) :
    outcomes i (es ++ [ev]) = outcomes i es ++ (ev.outcome? i).toList := by
  unfold outcomes
  rw [List.filterMap_append]
  cases h : ev.outcome? i <;> simp [h]

/-! ## The two phases of a registration -/

section Phases

variable (startTime now : Nat)

/-- The registration awaits its timer or its status check: one check for each outcome so far, and
one more if it is in flight. -/
structure Pending (e : RetryEntry) (cs : List Callback) (outs : List Outcome) (polls : Nat) :
    Prop where
  unresolved : e.resolved = false
  poller : e.poller = .armed ∨ e.poller = .checking
  attempt_eq : e.attempt = outs.length + 1
  attempt_le : e.attempt ≤ MAX_POLL_ATTEMPTS
  undecided : firstDecisive outs = none
  within : limitReached startTime now outs = false
  verdicts_eq : cs.filterMap Callback.verdict? = []
  checks_eq : cs.countP Callback.isCheck =
    outs.length + if e.poller = .checking then 1 else 0
  polls_eq : polls = 2 * outs.length + if e.poller = .checking then 1 else 0

/-- `onResolved` has been called; only its promise may still be awaited. -/
structure Done (e : RetryEntry) (cs : List Callback) (outs : List Outcome) (polls : Nat) :
    Prop where
  resolved : e.resolved = true
  poller : e.poller = .idle ∨ e.poller = .resolving
  verdicts_eq : cs.filterMap Callback.verdict? = expectedVerdicts startTime now outs
  verdicts_length : (expectedVerdicts startTime now outs).length = 1
  checks_eq : cs.countP Callback.isCheck = outs.length
  outs_le : outs.length ≤ MAX_POLL_ATTEMPTS
  polls_le : polls + (if e.poller = .resolving then 1 else 0) ≤ 2 * outs.length + 1

variable {startTime now} {e : RetryEntry} {cs : List Callback} {outs : List Outcome} {polls : Nat}

theorem Pending.fires (h : Pending startTime now e cs outs polls) (hp : e.poller = .armed) :
    Pending startTime now { e with poller := .checking } (cs ++ [.checkStatus e.paymentId]) outs
      (polls + 1) := by
  have hchecks := h.checks_eq
  have hpolls := h.polls_eq
  simp only [hp, reduceCtorEq, if_false, Nat.add_zero] at hchecks hpolls
  exact { h with
    poller := .inr rfl
    verdicts_eq := by rw [List.filterMap_append, h.verdicts_eq]; rfl
    checks_eq := by
      rw [List.countP_append, hchecks]
      rfl
    polls_eq := by
      rw [hpolls]
      rfl }

/-- `onPoll` is neither a check nor a verdict. -/
theorem Pending.logged (h : Pending startTime now e cs outs polls) (paymentId : String)
    (attempt : Nat) (status : BankStatus) :
    Pending startTime now e (cs ++ [.onPoll paymentId attempt status]) outs polls :=
  { h with
    verdicts_eq := by rw [List.filterMap_append, h.verdicts_eq]; rfl
    checks_eq := by rw [List.countP_append, h.checks_eq]; rfl }

theorem Pending.decided (h : Pending startTime now e cs outs polls) (hp : e.poller = .checking)
    {o : Outcome} {verdict : TransactionState}
    (ho : o.status.bind BankStatus.verdict? = some verdict) :
    Done startTime now { e with resolved := true, poller := .resolving }
      (cs ++ [.onResolved e.paymentId verdict]) (outs ++ [o]) (polls + 1) := by
  have hchecks := h.checks_eq
  have hpolls := h.polls_eq
  have hattempt := h.attempt_eq
  have hle := h.attempt_le
  simp only [hp, if_true] at hchecks hpolls
  have hexpected : expectedVerdicts startTime now (outs ++ [o]) = [verdict] := by
    unfold expectedVerdicts
    rw [firstDecisive_snoc h.undecided, ho]
  refine ⟨rfl, .inr rfl, ?_, by rw [hexpected]; rfl, ?_, ?_, ?_⟩
  · rw [List.filterMap_append, h.verdicts_eq, hexpected]
    rfl
  · rw [List.countP_append, hchecks]
    simp [Callback.isCheck]
  · simp only [List.length_append, List.length_cons, List.length_nil]
    omega
  · simp only [List.length_append, List.length_cons, List.length_nil, if_true]
    omega

theorem Pending.expires (h : Pending startTime now e cs outs polls) (hp : e.poller = .checking)
    {o : Outcome} (ho : o.status.bind BankStatus.verdict? = none)
    (hlimit : limitReached startTime now (outs ++ [o]) = true) :
    Done startTime now { e with resolved := true, poller := .idle }
      (cs ++ [.onResolved e.paymentId .manualReview]) (outs ++ [o]) (polls + 1) := by
  have hchecks := h.checks_eq
  have hpolls := h.polls_eq
  have hattempt := h.attempt_eq
  have hle := h.attempt_le
  simp only [hp, if_true] at hchecks hpolls
  have hexpected : expectedVerdicts startTime now (outs ++ [o]) = [.manualReview] := by
    unfold expectedVerdicts
    rw [firstDecisive_snoc h.undecided, ho]
    simp only [hlimit, if_true]
  refine ⟨rfl, .inl rfl, ?_, by rw [hexpected]; rfl, ?_, ?_, ?_⟩
  · rw [List.filterMap_append, h.verdicts_eq, hexpected]
    rfl
  · rw [List.countP_append, hchecks]
    simp [Callback.isCheck]
  · simp only [List.length_append, List.length_cons, List.length_nil]
    omega
  · simp only [List.length_append, List.length_cons, List.length_nil, reduceCtorEq, if_false]
    omega

theorem Pending.rearms (h : Pending startTime now e cs outs polls) (hp : e.poller = .checking)
    {o : Outcome} (ho : o.status.bind BankStatus.verdict? = none)
    (hwithin : limitReached startTime now (outs ++ [o]) = false)
    (hattempt_lt : e.attempt < MAX_POLL_ATTEMPTS) :
    Pending startTime now { e with attempt := e.attempt + 1, poller := .armed } cs (outs ++ [o])
      (polls + 1) := by
  have hchecks := h.checks_eq
  have hpolls := h.polls_eq
  have hattempt := h.attempt_eq
  simp only [hp, if_true] at hchecks hpolls
  refine ⟨h.unresolved, .inl rfl, ?_, hattempt_lt, ?_, hwithin, h.verdicts_eq, ?_, ?_⟩
  · simp only [List.length_append, List.length_cons, List.length_nil]
    omega
  · rw [firstDecisive_snoc h.undecided, ho]
  · simp only [List.length_append, List.length_cons, List.length_nil, reduceCtorEq, if_false]
    omega
  · simp only [List.length_append, List.length_cons, List.length_nil, reduceCtorEq, if_false]
    omega

theorem Pending.not_settled (h : Pending startTime now e cs outs polls) :
    ¬ (e.poller = .idle ∨ e.poller = .resolving) := by
  rcases h.poller with hp | hp <;> simp [hp]

theorem Done.not_polling (h : Done startTime now e cs outs polls) :
    ¬ (e.poller = .armed ∨ e.poller = .checking) := by
  rcases h.poller with hp | hp <;> simp [hp]

theorem Done.settles (h : Done startTime now e cs outs polls) (hp : e.poller = .resolving) :
    Done startTime now { e with poller := .idle } cs outs (polls + 1) := by
  have hpolls := h.polls_le
  simp only [hp, if_true] at hpolls
  exact { h with
    poller := .inl rfl
    polls_le := by
      simp only [reduceCtorEq, if_false]
      omega }

end Phases

/-! ## One step -/

/-- The payment is not force-resolved or cancelled while it is registered. -/
def Undisturbed (paymentId : String) (s : Retries) : RetryEvent → Prop
  | .forceResolve forcedId _ => forcedId = paymentId → isRetrying paymentId s = false
  | .cancelAllRetries => isRetrying paymentId s = false
  | _ => True

/-- The registration at `i` after the events `post` that follow its start. -/
def Polled (paymentId : String) (i startTime now : Nat) (post : List RetryEvent) (s : Retries) :
    Prop :=
  ∃ e, s.entries[i]? = some e ∧ e.paymentId = paymentId ∧ e.startTime = startTime ∧
    (Pending startTime now e (s.callsOf i) (outcomes i post) (post.countP (·.isPoll i)) ∨
      Done startTime now e (s.callsOf i) (outcomes i post) (post.countP (·.isPoll i)))

section Step

variable {paymentId : String} {i startTime now now' : Nat} {post : List RetryEvent}
  {s s' : Retries} {e : RetryEntry} {outs : List Outcome} {polls : Nat}

/-- The entry at `i` is in one of its phases. -/
def InPhase (paymentId : String) (i startTime now : Nat) (s : Retries) (outs : List Outcome)
    (polls : Nat) : Prop :=
  ∃ e, s.entries[i]? = some e ∧ e.paymentId = paymentId ∧ e.startTime = startTime ∧
    (Pending startTime now e (s.callsOf i) outs polls ∨
      Done startTime now e (s.callsOf i) outs polls)

theorem polled_snoc {ev : RetryEvent} : Polled paymentId i startTime now (post ++ [ev]) s ↔
    InPhase paymentId i startTime now s (outcomes i post ++ (ev.outcome? i).toList)
      (post.countP (·.isPoll i) + if ev.isPoll i then 1 else 0) := by
  unfold Polled InPhase
  rw [outcomes_snoc, List.countP_append, List.countP_singleton]

/-- An event that concerns a registered entry of an undisturbed payment is one of its own. -/
theorem Undisturbed.isPoll {ev : RetryEvent} (hev : Undisturbed paymentId s ev)
    (hinv : RetryInv s) (he : s.entries[i]? = some e) (hid : e.paymentId = paymentId)
    (htouch : ev.touches s i) : ev.isPoll i = true := by
  have hregistered : ∀ regId, s.activeRetries.get regId = some i → regId = paymentId := by
    intro regId hreg
    have hrecord := hinv.active regId i hreg
    rw [record_of_entry he, hid] at hrecord
    exact (congrArg Prod.fst (Option.some.inj hrecord)).symm
  cases ev with
  | startBankRetry => exact htouch.elim
  | timerFires j | statusReturns j | statusRejects j | resolvedSettles j =>
    exact decide_eq_true htouch
  | forceResolve forcedId finalState =>
    have hforced := hregistered forcedId htouch
    have hnot := isRetrying_eq_false.1 (hev hforced)
    rw [← hforced, htouch] at hnot
    cases hnot
  | cancelAllRetries =>
    obtain ⟨regId, hreg⟩ := htouch
    have hnot := isRetrying_eq_false.1 hev
    rw [← hregistered regId hreg, hreg] at hnot
    cases hnot

section Entry

variable (he : s.entries[i]? = some e) (hid : e.paymentId = paymentId)
  (hstart : e.startTime = startTime)

include he hid hstart

/-- `schedulePoll` after a status check that decides nothing. -/
theorem inPhase_schedulePoll (h : Pending startTime now e (s.callsOf i) outs polls)
    (hp : e.poller = .checking) {o : Outcome} (ho : o.status.bind BankStatus.verdict? = none)
    (hnow : o.now = now') :
    InPhase paymentId i startTime now (s.schedulePoll i e now') (outs ++ [o]) (polls + 1) := by
  have hlt : i < s.entries.length := (List.getElem?_eq_some_iff.1 he).1
  have hlimit := limitReached_snoc h.within o
  have hattempt := h.attempt_eq
  unfold Retries.schedulePoll
  rw [if_neg (by simp [h.unresolved])]
  split
  · rename_i hexpired
    refine ⟨_, List.getElem?_set_self hlt, hid, hstart, .inr ?_⟩
    rw [callsOf_resolve, if_pos rfl]
    refine h.expires hp ho (hlimit.2 ?_)
    omega
  · rename_i hwithin
    refine ⟨_, List.getElem?_set_self hlt, hid, hstart, .inl ?_⟩
    refine h.rearms hp ho ?_ (by omega)
    rw [← Bool.not_eq_true, hlimit]
    omega

theorem inPhase_timerFires (h : Pending startTime now e (s.callsOf i) outs polls)
    (hp : e.poller = .armed) :
    InPhase paymentId i startTime now (timerFires i e s) outs (polls + 1) := by
  have hlt : i < s.entries.length := (List.getElem?_eq_some_iff.1 he).1
  unfold timerFires
  rw [if_neg (by simp [h.unresolved])]
  refine ⟨_, List.getElem?_set_self hlt, hid, hstart, .inl ?_⟩
  rw [callsOf_call, if_pos rfl, callsOf_setEntry]
  exact h.fires hp

/-- `onPoll` does not throw. -/
theorem inPhase_statusReturns (h : Pending startTime now e (s.callsOf i) outs polls)
    (hp : e.poller = .checking) (status : BankStatus) :
    InPhase paymentId i startTime now (statusReturns i e status false now' s)
      (outs ++ [⟨some status, now'⟩]) (polls + 1) := by
  have hlt : i < s.entries.length := (List.getElem?_eq_some_iff.1 he).1
  have hlogged := h.logged e.paymentId e.attempt status
  have hcalls : (s.call i (.onPoll e.paymentId e.attempt status)).callsOf i =
      s.callsOf i ++ [.onPoll e.paymentId e.attempt status] := by
    rw [callsOf_call, if_pos rfl]
  rw [← hcalls] at hlogged
  unfold statusReturns
  simp only [Bool.false_eq_true, if_false]
  cases status with
  | succeeded | failed =>
    refine ⟨_, List.getElem?_set_self hlt, hid, hstart, .inr ?_⟩
    rw [callsOf_resolve, if_pos rfl]
    exact hlogged.decided hp rfl
  | pending | unknown =>
    exact inPhase_schedulePoll (s := s.call i _) he hid hstart hlogged hp rfl rfl

/-- Whether or not `onResolved` rejects. -/
theorem inPhase_resolvedSettles (h : Done startTime now e (s.callsOf i) outs polls)
    (hp : e.poller = .resolving) (rejected : Bool) :
    InPhase paymentId i startTime now (resolvedSettles i e rejected now' s) outs (polls + 1) := by
  have hlt : i < s.entries.length := (List.getElem?_eq_some_iff.1 he).1
  unfold resolvedSettles
  rw [schedulePoll_of_resolved h.resolved, ite_self]
  exact ⟨_, List.getElem?_set_self hlt, hid, hstart, .inr (h.settles hp)⟩

end Entry

/-- **One step of an undisturbed registration.** -/
theorem polled_step {ev : RetryEvent} (h : Polled paymentId i startTime now post s)
    (hinv : RetryInv s) (hev : Undisturbed paymentId s ev)
    (honPoll : ∀ status now', ev ≠ .statusReturns i status true now')
    (hstep : s.step ev = some s') : Polled paymentId i startTime now (post ++ [ev]) s' := by
  obtain ⟨e, he, hid, hstart, hphase⟩ := h
  rw [polled_snoc]
  by_cases htouch : ev.touches s i
  · have hpoll := hev.isPoll hinv he hid htouch
    rw [if_pos hpoll]
    cases ev with
    | startBankRetry | forceResolve | cancelAllRetries => cases hpoll
    | timerFires j =>
      obtain rfl : j = i := htouch
      obtain ⟨e', he', hp, rfl⟩ := atPoller_some hstep
      obtain rfl : e = e' := Option.some.inj (he.symm.trans he')
      have hpending := hphase.resolve_right fun hdone => hdone.not_polling (.inl hp)
      have houtcome : (RetryEvent.timerFires j).outcome? j = none := rfl
      rw [houtcome, Option.toList_none, List.append_nil]
      exact inPhase_timerFires he hid hstart hpending hp
    | statusReturns j status onPollThrows now' =>
      obtain rfl : j = i := htouch
      obtain ⟨e', he', hp, rfl⟩ := atPoller_some hstep
      obtain rfl : e = e' := Option.some.inj (he.symm.trans he')
      have hpending := hphase.resolve_right fun hdone => hdone.not_polling (.inr hp)
      have houtcome : (RetryEvent.statusReturns j status onPollThrows now').outcome? j =
          some ⟨some status, now'⟩ := by simp [RetryEvent.outcome?]
      have hthrows : onPollThrows = false := by
        cases onPollThrows with
        | false => rfl
        | true => exact absurd rfl (honPoll status now')
      rw [houtcome, Option.toList_some, hthrows]
      exact inPhase_statusReturns he hid hstart hpending hp status
    | statusRejects j now' =>
      obtain rfl : j = i := htouch
      obtain ⟨e', he', hp, rfl⟩ := atPoller_some hstep
      obtain rfl : e = e' := Option.some.inj (he.symm.trans he')
      have hpending := hphase.resolve_right fun hdone => hdone.not_polling (.inr hp)
      have houtcome : (RetryEvent.statusRejects j now').outcome? j = some ⟨none, now'⟩ := by
        simp [RetryEvent.outcome?]
      rw [houtcome, Option.toList_some]
      exact inPhase_schedulePoll he hid hstart hpending hp rfl rfl
    | resolvedSettles j rejected now' =>
      obtain rfl : j = i := htouch
      obtain ⟨e', he', hp, rfl⟩ := atPoller_some hstep
      obtain rfl : e = e' := Option.some.inj (he.symm.trans he')
      have hdone := hphase.resolve_left fun hpending => hpending.not_settled (.inr hp)
      have houtcome : (RetryEvent.resolvedSettles j rejected now').outcome? j = none := rfl
      rw [houtcome, Option.toList_none, List.append_nil]
      exact inPhase_resolvedSettles he hid hstart hdone hp rejected
  · have hlt : i < s.entries.length := (List.getElem?_eq_some_iff.1 he).1
    have hsame := step_frame hlt hstep htouch
    have hother : ev.outcome? i = none ∧ ev.isPoll i = false := by
      cases ev <;> simp_all [RetryEvent.touches, RetryEvent.outcome?, RetryEvent.isPoll]
    refine ⟨e, by rw [hsame.entry_eq, he], hid, hstart, ?_⟩
    rw [hsame.callsOf_eq, hother.1, hother.2]
    simpa using hphase

end Step

/-! ## The registry of an undisturbed payment -/

/-- The checks in flight of the payment belong to unresolved registrations. -/
def CheckingOpen (paymentId : String) (s : Retries) : Prop :=
  s.Each fun e => e.paymentId = paymentId → e.poller = .checking → e.resolved = false

section Registry

variable {paymentId : String} {s s' : Retries} {i : Nat} {e e' : RetryEntry}

theorem CheckingOpen.schedulePoll (h : CheckingOpen paymentId s) (now : Nat) :
    CheckingOpen paymentId (s.schedulePoll i e now) := by
  unfold Retries.schedulePoll
  split
  · exact Retries.Each.of_set h rfl fun _ hp => by cases hp
  · split
    · exact Retries.Each.of_set h rfl fun _ hp => by cases hp
    · exact Retries.Each.of_set h rfl fun _ hp => by cases hp

theorem clearTimeout_eq (hp : e.clearTimeout.poller = .checking) : e.clearTimeout = e := by
  unfold RetryEntry.clearTimeout at hp ⊢
  split
  · rename_i harmed
    rw [if_pos harmed] at hp
    cases hp
  · rfl

theorem CheckingOpen.step {ev : RetryEvent} (h : CheckingOpen paymentId s) (hinv : RetryInv s)
    (hev : Undisturbed paymentId s ev) (hstep : s.step ev = some s') :
    CheckingOpen paymentId s' := by
  cases ev with
  | startBankRetry newId startTime now =>
    cases hstep
    rcases startBankRetry_cases newId startTime now s with ⟨-, hs'⟩ | ⟨-, ⟨-, hs'⟩ | ⟨-, hs'⟩⟩
    · rw [hs']
      exact h
    · rw [hs']
      exact Retries.Each.of_append h rfl fun _ hp => by cases hp
    · rw [hs']
      exact Retries.Each.of_append h rfl fun _ hp => by cases hp
  | timerFires i =>
    obtain ⟨e, he, -, rfl⟩ := atPoller_some hstep
    unfold timerFires
    split
    · exact Retries.Each.of_set h rfl fun _ hp => by cases hp
    · rename_i hres
      exact Retries.Each.of_set h rfl fun _ _ => by simpa using hres
  | statusReturns i status onPollThrows now =>
    obtain ⟨e, he, -, rfl⟩ := atPoller_some hstep
    have hcall : CheckingOpen paymentId (s.call i (.onPoll e.paymentId e.attempt status)) := h
    unfold statusReturns
    dsimp only
    split
    · exact hcall.schedulePoll now
    · cases status with
      | succeeded | failed => exact Retries.Each.of_set hcall rfl fun _ hp => by cases hp
      | pending | unknown => exact hcall.schedulePoll now
  | statusRejects i now =>
    obtain ⟨e, he, -, rfl⟩ := atPoller_some hstep
    exact h.schedulePoll now
  | resolvedSettles i rejected now =>
    obtain ⟨e, he, -, rfl⟩ := atPoller_some hstep
    unfold resolvedSettles
    split
    · exact h.schedulePoll now
    · exact Retries.Each.of_set h rfl fun _ hp => by cases hp
  | forceResolve forcedId finalState =>
    cases hstep
    unfold forceResolve
    split
    · exact h
    · rename_i i hi
      split
      · exact h
      · rename_i e he
        -- the registered entry is another payment's
        have hactive := hinv.active forcedId i hi
        rw [record_of_entry he] at hactive
        have hforced : e.paymentId = forcedId := congrArg Prod.fst (Option.some.inj hactive)
        refine Retries.Each.of_set h rfl fun hid _ => ?_
        have hnot := isRetrying_eq_false.1 (hev (hforced.symm.trans hid))
        rw [← hid, show (RetryEntry.mk _ _ _ _ _).paymentId = forcedId from hforced, hi] at hnot
        cases hnot
  | cancelAllRetries =>
    cases hstep
    refine Retries.Each.cancelAllRetries h fun e he hid hp => ?_
    have heq := clearTimeout_eq hp
    rw [heq] at hid hp ⊢
    exact he hid hp

/-- An undisturbed payment stays tracked. -/
theorem Undisturbed.keepsRegistry {ev : RetryEvent} (hev : Undisturbed paymentId s ev)
    (hopen : CheckingOpen paymentId s) (hstep : s.step ev = some s') :
    KeepsRegistry paymentId s ev := by
  cases ev with
  | cancelAllRetries =>
    intro i e hi _
    rw [isRetrying_eq_false.1 hev] at hi
    cases hi
  | statusReturns i status onPollThrows now =>
    intro _ _ e he hid hres
    obtain ⟨e', he', hp, -⟩ := atPoller_some hstep
    obtain rfl : e = e' := Option.some.inj (he.symm.trans he')
    rw [hopen e (List.mem_of_getElem? he) hid hp] at hres
    cases hres
  | startBankRetry | timerFires | statusRejects | resolvedSettles | forceResolve => trivial

/-- **The registry of an undisturbed payment is exact**, in every state of the run. -/
theorem run_undisturbed {es : List RetryEvent} (halong : retries.Along (Undisturbed paymentId) es)
    (hrun : retries.run es = some s) : s.Tracks paymentId ∧ CheckingOpen paymentId s := by
  refine Machine.run_induction_along (M := retries)
    (P := fun _ s => s.Tracks paymentId ∧ CheckingOpen paymentId s) ?_ ?_ halong hrun
  · exact ⟨run_tracks (Machine.along_nil _) rfl, by simp [CheckingOpen, Retries.Each, retries]⟩
  · rintro es s ev s' hs ⟨htracks, hopen⟩ hev hstep
    have hinv := run_retryInv hs
    exact ⟨htracks.step hinv (run_pollInv hs) (hev.keepsRegistry hopen hstep) hstep,
      hopen.step hinv hev hstep⟩

/-- A payment is registered anew only by a `startBankRetry` that finds it unregistered. -/
theorem registered_step {ev : RetryEvent} (hstep : s.step ev = some s') {j : Nat}
    (hj : s'.activeRetries.get paymentId = some j) :
    s.activeRetries.get paymentId = some j ∨ isRetrying paymentId s = false ∧
      ∃ startTime now, ev = .startBankRetry paymentId startTime now := by
  rcases step_shape hstep with rfl | ⟨i, -, hover⟩ | ⟨newId, startTime, now, rfl, hnew⟩ | ⟨-, rfl⟩
  · exact .inl hj
  · rcases hover.active_eq with hactive | ⟨deletedId, hactive⟩
    · rw [hactive] at hj
      exact .inl hj
    · rw [hactive, JsMap.get_delete] at hj
      split at hj
      · cases hj
      · exact .inl hj
  · rcases hnew.active_eq paymentId j hj with hold | rfl
    · exact .inl hold
    · exact .inr ⟨hnew.unregistered, startTime, now, rfl⟩
  · cases hj

/-- Calls are made for existing registrations only. -/
def CallsBelow (s : Retries) : Prop := ∀ c ∈ s.calls, c.1 < s.entries.length

theorem CallsBelow.step {ev : RetryEvent} (h : CallsBelow s) (hstep : s.step ev = some s') :
    CallsBelow s' := by
  intro c hc
  rcases step_shape hstep with rfl | ⟨i, -, hover⟩ | ⟨newId, _, _, -, hnew⟩ | ⟨-, rfl⟩
  · exact h c hc
  · obtain ⟨e, he⟩ := hover.entries_eq
    obtain ⟨cs, hcs⟩ := hover.calls_eq
    rw [he, List.length_set]
    rw [hcs, List.mem_append, List.mem_map] at hc
    rcases hc with hc | ⟨callback, -, rfl⟩
    · exact h c hc
    · exact hover.lt
  · obtain ⟨e, he⟩ := hnew.entries_eq
    obtain ⟨cs, hcs⟩ := hnew.calls_eq
    rw [he, List.length_append, List.length_singleton]
    rw [hcs, List.mem_append, List.mem_map] at hc
    rcases hc with hc | ⟨callback, -, rfl⟩
    · have := h c hc
      omega
    · show s.entries.length < _
      omega
  · simpa [cancelAllRetries] using h c hc

theorem run_callsBelow {es : List RetryEvent} (hrun : retries.run es = some s) : CallsBelow s := by
  refine Machine.run_induction (M := retries) (P := fun _ s => CallsBelow s) ?_ ?_ hrun
  · simp [CallsBelow, retries]
  · intro es s ev s' _ h hstep
    exact h.step hstep

theorem callsOf_new (h : CallsBelow s) : s.callsOf s.entries.length = [] := by
  unfold Retries.callsOf
  rw [List.map_eq_nil_iff, List.filter_eq_nil_iff]
  intro c hc
  have := h c hc
  simp only [beq_iff_eq]
  omega

end Registry

/-! ## Whole runs -/

/-- A timer of the registration is armed, or its status check is in flight. -/
def Retries.Polling (s : Retries) (i : Nat) : Prop :=
  ∃ e, s.entries[i]? = some e ∧ (e.poller = .armed ∨ e.poller = .checking)

/-- A registration of a payment has been made by `startBankRetry`, and nobody disturbs it: the
payment is never force-resolved or cancelled while registered, and `onPoll` does not throw. -/
structure UndisturbedRun (paymentId : String) (startTime now : Nat) (pre post : List RetryEvent)
    (s₀ s : Retries) : Prop where
  before : retries.run pre = some s₀
  unregistered : isRetrying paymentId s₀ = false
  after : retries.run (pre ++ .startBankRetry paymentId startTime now :: post) = some s
  undisturbed : retries.Along (Undisturbed paymentId)
    (pre ++ .startBankRetry paymentId startTime now :: post)
  onPoll : ∀ status now', .statusReturns s₀.entries.length status true now' ∉ post

section Runs

variable {paymentId : String} {startTime now : Nat} {pre post : List RetryEvent} {s₀ s : Retries}

/-- The run up to an earlier point. -/
theorem UndisturbedRun.of_append {rest : List RetryEvent} {s₁ : Retries}
    (h : UndisturbedRun paymentId startTime now pre (post ++ rest) s₀ s)
    (hs₁ : retries.run (pre ++ .startBankRetry paymentId startTime now :: post) = some s₁) :
    UndisturbedRun paymentId startTime now pre post s₀ s₁ := by
  refine ⟨h.before, h.unregistered, hs₁, ?_, fun status now' hmem => ?_⟩
  · have halong := h.undisturbed
    rw [← List.cons_append, ← List.append_assoc] at halong
    exact halong.of_append
  · exact h.onPoll status now' (List.mem_append_left _ hmem)

/-- Run rule for the events after the start of an undisturbed registration. -/
theorem UndisturbedRun.induction {P : List RetryEvent → Retries → Prop}
    (hinit : P [] (startBankRetry paymentId startTime now s₀))
    (hstep : ∀ post s ev s', UndisturbedRun paymentId startTime now pre post s₀ s →
      UndisturbedRun paymentId startTime now pre (post ++ [ev]) s₀ s' → P post s →
      s.step ev = some s' → P (post ++ [ev]) s')
    (h : UndisturbedRun paymentId startTime now pre post s₀ s) : P post s := by
  induction post using List.reverseRecOn generalizing s with
  | nil =>
    obtain ⟨t, ht, hs⟩ := Machine.run_snoc_some h.after
    obtain rfl : s₀ = t := Option.some.inj (h.before.symm.trans ht)
    cases hs
    exact hinit
  | append_singleton post ev ih =>
    have hafter := h.after
    rw [← List.cons_append, ← List.append_assoc] at hafter
    obtain ⟨t, ht, hs⟩ := Machine.run_snoc_some hafter
    exact hstep post t ev s (h.of_append ht) h (ih (h.of_append ht)) hs

theorem UndisturbedRun.snoc {ev : RetryEvent} {s' : Retries}
    (h : UndisturbedRun paymentId startTime now pre post s₀ s) (hstep : s.step ev = some s')
    (hev : Undisturbed paymentId s ev)
    (honPoll : ∀ status now', ev ≠ .statusReturns s₀.entries.length status true now') :
    UndisturbedRun paymentId startTime now pre (post ++ [ev]) s₀ s' := by
  have hsplit : pre ++ .startBankRetry paymentId startTime now :: (post ++ [ev]) =
      (pre ++ .startBankRetry paymentId startTime now :: post) ++ [ev] := by simp
  refine ⟨h.before, h.unregistered, ?_, ?_, fun status now' hmem => ?_⟩
  · rw [hsplit, Machine.run_snoc, h.after]
    exact hstep
  · rw [hsplit, Machine.along_snoc]
    refine ⟨h.undisturbed, fun t ht => ?_⟩
    obtain rfl : s = t := Option.some.inj (h.after.symm.trans ht)
    exact hev
  · rcases List.mem_append.1 hmem with hmem | hmem
    · exact h.onPoll status now' hmem
    · exact honPoll status now' (List.mem_singleton.1 hmem).symm

theorem UndisturbedRun.tracks (h : UndisturbedRun paymentId startTime now pre post s₀ s) :
    s.Tracks paymentId :=
  (run_undisturbed h.undisturbed h.after).1

/-- Right after the start the registration is pending, or the clock has ended it at once. -/
theorem polled_start (hcalls : CallsBelow s₀) (hnew : isRetrying paymentId s₀ = false) :
    Polled paymentId s₀.entries.length startTime now []
      (startBankRetry paymentId startTime now s₀) := by
  have hnone := callsOf_new hcalls
  rcases startBankRetry_cases paymentId startTime now s₀ with
    ⟨hold, -⟩ | ⟨-, ⟨hlimit, hs'⟩ | ⟨hlimit, hs'⟩⟩
  · rw [hnew] at hold
    cases hold
  · have hexpected : expectedVerdicts startTime now [] = [.manualReview] := by
      simp [expectedVerdicts, firstDecisive, limitReached, hlimit]
    have hcalls' : (startBankRetry paymentId startTime now s₀).callsOf s₀.entries.length =
        [.onResolved paymentId .manualReview] := by
      rw [hs']
      show (s₀.call s₀.entries.length (.onResolved paymentId .manualReview)).callsOf _ = _
      rw [callsOf_call, if_pos rfl, hnone]
      rfl
    refine ⟨⟨paymentId, startTime, 0, .idle, true⟩, by rw [hs']; simp, rfl, rfl, .inr ?_⟩
    rw [hcalls']
    exact
      { resolved := rfl
        poller := .inl rfl
        verdicts_eq := hexpected.symm
        verdicts_length := congrArg List.length hexpected
        checks_eq := rfl
        outs_le := Nat.zero_le _
        polls_le := Nat.le_succ 0 }
  · refine ⟨⟨paymentId, startTime, 1, .armed, false⟩, by rw [hs']; simp, rfl, rfl, .inl ?_⟩
    have hcalls' : (startBankRetry paymentId startTime now s₀).callsOf s₀.entries.length = [] := by
      rw [hs']
      exact hnone
    rw [hcalls']
    have hwithin : limitReached startTime now [] = false := by
      have hattempts : ¬ MAX_POLL_ATTEMPTS ≤ 0 := by decide
      simp [limitReached, hattempts, hlimit]
    exact
      { unresolved := rfl
        poller := .inl rfl
        attempt_eq := rfl
        attempt_le := show 1 ≤ MAX_POLL_ATTEMPTS by decide
        undecided := rfl
        within := hwithin
        verdicts_eq := rfl
        checks_eq := rfl
        polls_eq := rfl }

theorem UndisturbedRun.polled (h : UndisturbedRun paymentId startTime now pre post s₀ s) :
    Polled paymentId s₀.entries.length startTime now post s := by
  refine h.induction (P := Polled paymentId s₀.entries.length startTime now) ?_ ?_
  · exact polled_start (run_callsBelow h.before) h.unregistered
  · intro post s ev s' hs hs' ih hstep
    have hundisturbed := hs'.undisturbed
    rw [← List.cons_append, ← List.append_assoc, Machine.along_snoc] at hundisturbed
    refine polled_step ih (run_retryInv hs.after) (hundisturbed.2 s hs.after) ?_ hstep
    intro status now' hev
    exact hs'.onPoll status now' (by simp [hev])

/-- The account of the registration `i` of a payment. -/
structure RetryAccount (paymentId : String) (i startTime now : Nat) (pre post : List RetryEvent)
    (s : Retries) : Prop where
  checks_le : s.checks i ≤ 1440
  polls_le : post.countP (·.isPoll i) ≤ 2 * 1440 + 1
  verdicts_eq : s.verdicts i = expectedVerdicts startTime now (outcomes i post)
  /-- Either it goes on and the payment is retrying, or it has ended with one verdict. -/
  phase : s.verdicts i = [] ∧ s.Polling i ∧ s.activeRetries.get paymentId = some i ∨
    (s.verdicts i).length = 1 ∧ ¬ s.Polling i
  /-- Nothing is checked or resolved after the verdict, whether or not `onResolved` rejects. -/
  silent : ∀ post₁ rest s₁, post = post₁ ++ rest →
    retries.run (pre ++ .startBankRetry paymentId startTime now :: post₁) = some s₁ →
    s₁.verdicts i ≠ [] → s.effects i = s₁.effects i
  /-- After the verdict the payment is retrying only if it has been started again since. -/
  unregistered : s.verdicts i ≠ [] → isRetrying paymentId s = true →
    ∃ post₁ startTime' now' rest s₁,
      post = post₁ ++ .startBankRetry paymentId startTime' now' :: rest ∧
      retries.run (pre ++ .startBankRetry paymentId startTime now :: post₁) = some s₁ ∧
      s₁.verdicts i ≠ []

theorem Polled.pending {i : Nat} (h : Polled paymentId i startTime now post s)
    (hverdict : s.verdicts i = []) : ∃ e, s.entries[i]? = some e ∧ e.paymentId = paymentId ∧
      Pending startTime now e (s.callsOf i) (outcomes i post) (post.countP (·.isPoll i)) := by
  obtain ⟨e, he, hid, -, hpending | hdone⟩ := h
  · exact ⟨e, he, hid, hpending⟩
  · have hlength := hdone.verdicts_length
    rw [← hdone.verdicts_eq, show (s.callsOf i).filterMap Callback.verdict? = [] from hverdict]
      at hlength
    cases hlength

theorem Polled.done {i : Nat} (h : Polled paymentId i startTime now post s)
    (hverdict : s.verdicts i ≠ []) : ∃ e, s.entries[i]? = some e ∧ e.paymentId = paymentId ∧
      Done startTime now e (s.callsOf i) (outcomes i post) (post.countP (·.isPoll i)) := by
  obtain ⟨e, he, hid, -, hpending | hdone⟩ := h
  · exact absurd hpending.verdicts_eq hverdict
  · exact ⟨e, he, hid, hdone⟩

theorem Polled.deadAt {i : Nat} (h : Polled paymentId i startTime now post s)
    (hverdict : s.verdicts i ≠ []) : s.DeadAt i := by
  obtain ⟨e, he, -, hdone⟩ := h.done hverdict
  refine ⟨e, he, ?_⟩
  rcases hdone.poller with hp | hp <;> simp [RetryEntry.live, hp]

/-- Until its verdict the registration is the one that is active. -/
theorem UndisturbedRun.registered (h : UndisturbedRun paymentId startTime now pre post s₀ s)
    (hverdict : s.verdicts s₀.entries.length = []) :
    s.activeRetries.get paymentId = some s₀.entries.length := by
  obtain ⟨e, he, hid, hpending⟩ := h.polled.pending hverdict
  refine (h.tracks _).2 ⟨e, he, hid, ?_⟩
  rcases hpending.poller with hp | hp <;> simp [RetryEntry.live, hp, hpending.unresolved]

theorem verdicts_effects (s : Retries) (i : Nat) :
    s.verdicts i = (s.effects i).filterMap Callback.verdict? := by
  unfold Retries.verdicts Retries.effects
  rw [List.filterMap_filter]
  congr 1
  funext c
  cases c <;> rfl

/-- After its verdict the registration is silent. -/
theorem UndisturbedRun.silent_step {ev : RetryEvent} {s' : Retries}
    (h : UndisturbedRun paymentId startTime now pre post s₀ s)
    (hstep : s.step ev = some s') (hverdict : s.verdicts s₀.entries.length ≠ []) :
    s'.effects s₀.entries.length = s.effects s₀.entries.length := by
  have hdead := h.polled.deadAt hverdict
  obtain ⟨e, he, hid, hdone⟩ := h.polled.done hverdict
  refine (hdead.step (fun regId hreg => ?_) (run_pollInv h.after) ?_ hstep).2
  · -- it could only be registered for its own payment, which is tracked
    have hrecord := (run_retryInv h.after).active regId _ hreg
    rw [record_of_entry he, hid] at hrecord
    have hown : paymentId = regId := congrArg Prod.fst (Option.some.inj hrecord)
    rw [← hown] at hreg
    exact hdead.not_registered h.tracks hreg
  · rintro status now' - rfl
    obtain ⟨e', he', hp, -⟩ := atPoller_some hstep
    obtain rfl : e = e' := Option.some.inj (he.symm.trans he')
    exact hdone.not_polling (.inr hp)

theorem UndisturbedRun.silent {rest : List RetryEvent} {s₁ : Retries}
    (h : UndisturbedRun paymentId startTime now pre (post ++ rest) s₀ s)
    (hs₁ : retries.run (pre ++ .startBankRetry paymentId startTime now :: post) = some s₁)
    (hverdict : s₁.verdicts s₀.entries.length ≠ []) :
    s.effects s₀.entries.length = s₁.effects s₀.entries.length := by
  induction rest using List.reverseRecOn generalizing s with
  | nil =>
    have hafter := h.after
    rw [List.append_nil, hs₁] at hafter
    cases hafter
    rfl
  | append_singleton rest ev ih =>
    rw [← List.append_assoc] at h
    have hafter := h.after
    rw [← List.cons_append, ← List.append_assoc] at hafter
    obtain ⟨t, ht, hstep⟩ := Machine.run_snoc_some hafter
    have heq := ih (h.of_append ht)
    rw [← heq]
    refine (h.of_append ht).silent_step hstep ?_
    rw [verdicts_effects, heq, ← verdicts_effects]
    exact hverdict

/-- After its verdict the payment is retrying only through a later call. -/
theorem UndisturbedRun.unregistered_after
    (h : UndisturbedRun paymentId startTime now pre post s₀ s) :
    s.verdicts s₀.entries.length ≠ [] → isRetrying paymentId s = true →
    ∃ post₁ startTime' now' rest s₁,
      post = post₁ ++ .startBankRetry paymentId startTime' now' :: rest ∧
      retries.run (pre ++ .startBankRetry paymentId startTime now :: post₁) = some s₁ ∧
      s₁.verdicts s₀.entries.length ≠ [] := by
  refine h.induction (P := fun post s =>
    s.verdicts s₀.entries.length ≠ [] → isRetrying paymentId s = true →
    ∃ post₁ startTime' now' rest s₁,
      post = post₁ ++ .startBankRetry paymentId startTime' now' :: rest ∧
      retries.run (pre ++ .startBankRetry paymentId startTime now :: post₁) = some s₁ ∧
      s₁.verdicts s₀.entries.length ≠ []) ?_ ?_
  · intro hverdict hretrying
    rcases startBankRetry_cases paymentId startTime now s₀ with
      ⟨hold, -⟩ | ⟨-, ⟨-, hs'⟩ | ⟨-, hs'⟩⟩
    · rw [h.unregistered] at hold
      cases hold
    · rw [hs', isRetrying, JsMap.has, JsMap.get_delete, if_pos rfl] at hretrying
      cases hretrying
    · rw [hs', Retries.verdicts] at hverdict
      have hnone := callsOf_new (run_callsBelow h.before)
      exact absurd (congrArg (List.filterMap Callback.verdict?) hnone) hverdict
  · intro post s ev s' hs hs' ih hstep hverdict hretrying
    obtain ⟨j, hj⟩ := Option.isSome_iff_exists.1 hretrying
    by_cases hbefore : s.verdicts s₀.entries.length = []
    · -- the step that ends the registration removes the payment
      have hactive := hs.registered hbefore
      have hdead := (hs'.polled.deadAt hverdict).not_registered hs'.tracks
      rcases registered_step hstep hj with hold | ⟨hnew, -⟩
      · rw [hactive] at hold
        rw [← Option.some.inj hold] at hj
        exact absurd hj hdead
      · rw [isRetrying_eq_false, hactive] at hnew
        cases hnew
    · rcases registered_step hstep hj with hold | ⟨-, startTime', now', rfl⟩
      · have hold' : isRetrying paymentId s = true := Option.isSome_iff_exists.2 ⟨j, hold⟩
        obtain ⟨post₁, startTime', now', rest, s₁, rfl, hs₁, hverdict₁⟩ := ih hbefore hold'
        exact ⟨post₁, startTime', now', rest ++ [ev], s₁, by simp, hs₁, hverdict₁⟩
      · exact ⟨post, startTime', now', [], s, rfl, hs.after, hbefore⟩

theorem UndisturbedRun.account (h : UndisturbedRun paymentId startTime now pre post s₀ s) :
    RetryAccount paymentId s₀.entries.length startTime now pre post s := by
  have hmax : MAX_POLL_ATTEMPTS = 1440 := by decide
  have hsilent : ∀ post₁ rest s₁, post = post₁ ++ rest →
      retries.run (pre ++ .startBankRetry paymentId startTime now :: post₁) = some s₁ →
      s₁.verdicts s₀.entries.length ≠ [] →
      s.effects s₀.entries.length = s₁.effects s₀.entries.length := by
    rintro post₁ rest s₁ rfl hs₁ hverdict
    exact h.silent hs₁ hverdict
  obtain ⟨e, he, -, -, hpending | hdone⟩ := h.polled
  · have hverdict : s.verdicts s₀.entries.length = [] := hpending.verdicts_eq
    have hchecks := hpending.checks_eq
    have hpolls := hpending.polls_eq
    have hattempt := hpending.attempt_eq
    have hle := hpending.attempt_le
    have hsplit : (if e.poller = .checking then 1 else 0) ≤ 1 := by split <;> omega
    refine ⟨?_, ?_, ?_, .inl ⟨hverdict, ⟨e, he, hpending.poller⟩, h.registered hverdict⟩, hsilent,
      h.unregistered_after⟩
    · unfold Retries.checks
      omega
    · omega
    · rw [hverdict, expectedVerdicts, hpending.undecided]
      simp [hpending.within]
  · have hverdict : s.verdicts s₀.entries.length =
        expectedVerdicts startTime now (outcomes s₀.entries.length post) := hdone.verdicts_eq
    have hle := hdone.outs_le
    refine ⟨?_, ?_, hverdict, .inr ⟨by rw [hverdict, hdone.verdicts_length], ?_⟩, hsilent,
      h.unregistered_after⟩
    · have hchecks := hdone.checks_eq
      unfold Retries.checks
      omega
    · have hpolls := hdone.polls_le
      omega
    · rintro ⟨e', he', hpolling⟩
      obtain rfl : e = e' := Option.some.inj (he.symm.trans he')
      exact hdone.not_polling hpolling

/-- **Undisturbed bank retries end, with the right verdict.**  At every point of such a run the
account above holds; and in every infinite run in which armed timers fire and checks settle,
`onResolved` is called once at some point. -/
theorem undisturbed_ends (paymentId : String) (startTime now : Nat) (pre : List RetryEvent)
    (s₀ : Retries) :
    (∀ post s, UndisturbedRun paymentId startTime now pre post s₀ s →
      RetryAccount paymentId s₀.entries.length startTime now pre post s) ∧
    ∀ events : Nat → RetryEvent,
      (∀ n, ∃ s,
        UndisturbedRun paymentId startTime now pre (Machine.firstEvents events n) s₀ s) →
      (∀ n s, UndisturbedRun paymentId startTime now pre (Machine.firstEvents events n) s₀ s →
        s.Polling s₀.entries.length → ∃ m, n ≤ m ∧ (events m).isPoll s₀.entries.length = true) →
      ∃ n s, UndisturbedRun paymentId startTime now pre (Machine.firstEvents events n) s₀ s ∧
        (s.verdicts s₀.entries.length).length = 1 := by
  refine ⟨fun post s h => h.account, fun events hruns hfair => ?_⟩
  have hbound : ∀ n, (Machine.firstEvents events n).countP
      (RetryEvent.isPoll s₀.entries.length) ≤ 2 * 1440 + 1 := by
    intro n
    obtain ⟨s, hs⟩ := hruns n
    exact hs.account.polls_le
  refine Machine.eventually_of_bounded hbound fun n hopen => ?_
  obtain ⟨s, hs⟩ := hruns n
  rcases hs.account.phase with ⟨-, hpolling, -⟩ | ⟨hone, -⟩
  · exact hfair n s hs hpolling
  · exact absurd ⟨s, hs, hone⟩ hopen

end Runs

/-! ### A concrete run -/

/-- The second check fails, and then `onResolved` rejects. -/
def failedPost : List RetryEvent :=
  [.timerFires 0, .statusRejects 0 60000, .timerFires 0, .statusReturns 0 .failed false 120000,
    .resolvedSettles 0 true 120001]

/-- These events, and from then on nothing for the payment. -/
def failedSchedule (n : Nat) : RetryEvent := failedPost.getD n (.forceResolve "pi_2" .committed)

/-- The state that they leave. -/
def failedState : Retries where
  entries := [⟨"pi_1", 0, 2, .idle, true⟩]
  activeRetries := .empty
  calls := [(0, .checkStatus "pi_1"), (0, .checkStatus "pi_1"), (0, .onPoll "pi_1" 2 .failed),
    (0, .onResolved "pi_1" .rolledBack)]

theorem failedSchedule_run (n : Nat) :
    UndisturbedRun "pi_1" 0 0 [] (Machine.firstEvents failedSchedule (n + 5)) retries.init
      failedState := by
  induction n with
  | zero =>
    have hpost : Machine.firstEvents failedSchedule (0 + 5) = failedPost := rfl
    rw [hpost]
    refine ⟨rfl, rfl, rfl, ?_, ?_⟩
    · rw [Machine.along_iff_from]
      simp [Machine.AlongFrom, failedPost, Undisturbed]
    · intro status now'
      simp [failedPost]
  | succ n ih =>
    have hidle : failedSchedule (n + 5) = .forceResolve "pi_2" .committed := rfl
    rw [show n + 1 + 5 = n + 5 + 1 by omega, Machine.firstEvents_succ, hidle]
    exact ih.snoc rfl (fun hid => absurd hid (by decide)) (fun _ _ h => by cases h)

theorem failedSchedule_runs (n : Nat) : ∃ s,
    UndisturbedRun "pi_1" 0 0 [] (Machine.firstEvents failedSchedule n) retries.init s := by
  obtain ⟨rest, hrest⟩ := Machine.firstEvents_add failedSchedule n 5
  have h := failedSchedule_run n
  rw [hrest] at h
  have hafter := h.after
  rw [← List.cons_append, ← List.append_assoc] at hafter
  obtain ⟨s, hs⟩ := Machine.run_prefix hafter
  exact ⟨s, h.of_append hs⟩

/-- Each of the five events comes for the registration; after them it polls no more. -/
theorem failedSchedule_fair (n : Nat) (s : Retries)
    (h : UndisturbedRun "pi_1" 0 0 [] (Machine.firstEvents failedSchedule n) retries.init s)
    (hpolling : s.Polling 0) : ∃ m, n ≤ m ∧ (failedSchedule m).isPoll 0 = true := by
  by_cases hn : n < 5
  · refine ⟨n, Nat.le_refl n, ?_⟩
    have hfive : ∀ m < 5, (failedSchedule m).isPoll 0 = true := by decide
    exact hfive n hn
  · have hstate := failedSchedule_run (n - 5)
    rw [show n - 5 + 5 = n by omega] at hstate
    obtain rfl : s = failedState := Option.some.inj (h.after.symm.trans hstate.after)
    obtain ⟨e, he, hp⟩ := hpolling
    cases he
    exact absurd hp (by decide)

theorem undisturbed_ends_failedSchedule :
    RetryAccount "pi_1" 0 0 0 [] (Machine.firstEvents failedSchedule 5) failedState ∧
      ∃ n s, UndisturbedRun "pi_1" 0 0 [] (Machine.firstEvents failedSchedule n) retries.init s ∧
        (s.verdicts 0).length = 1 :=
  ⟨(undisturbed_ends "pi_1" 0 0 [] retries.init).1 _ _ (failedSchedule_run 0),
    (undisturbed_ends "pi_1" 0 0 [] retries.init).2 failedSchedule failedSchedule_runs
      failedSchedule_fair⟩

end Intellibiz.Commerce
