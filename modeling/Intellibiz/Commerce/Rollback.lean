import Intellibiz.Commerce.Concurrent

/-!
# Which compensating actions a rollback invokes

The `runAll` loop works on the snapshot taken when the body rejected, and ends at the first
action that rejects.

* `Flight.invokes` — the action that a round of the loop invokes.
* `AllAttempted` — every registered action has been invoked once, in the reverse order of
  registration, and the caller receives the body's error.
* `Attempts` — the steps that leave no action out.

Principal results: `invoked_step` (what a step adds to the invoked, the late and the skipped
actions) and `allAttempted_iff`.
-/

namespace Intellibiz.Commerce

variable {Err : Type}

/-- The compensating action that a round of the `runAll` loop invokes. -/
def Flight.invokes (s : Flight Err) : FlightEvent Err → Option CompensatingAction
  | .compensate _ =>
    match s.phase with
    | .rollingBack (action :: _) _ => some action
    | _ => none
  | _ => none

/-- The actions invoked in a run, in order. -/
def invoked (journalId : String) (es : List (FlightEvent Err)) : List CompensatingAction :=
  (flight journalId).observed Flight.invokes es

def AllAttempted (journalId : String) (es : List (FlightEvent Err)) (s : Flight Err) : Prop :=
  invoked journalId es = s.txn.compensation.reverse ∧
    ∀ err, .bodyRejects err ∈ es → s.phase = .rejected err

/-- Nothing is registered after the body rejected, and no action rejects but the one that is
invoked last. -/
def Attempts (s : Flight Err) : FlightEvent Err → Prop
  | .chargeSettles _ _ | .issue _ => s.phase = .running ∨ s.phase = .resolved
  | .compensate (.error _) => ∀ action rest err, s.phase = .rollingBack (action :: rest) err →
    action.refund? ≠ none → rest = []
  | _ => True

/-- The registered actions are those of the snapshot and the late ones; the actions of the
snapshot are those invoked, those still to be invoked and those skipped. -/
def Accounts (s : Flight Err) (done late skipped : List CompensatingAction) : Prop :=
  ∃ snapshot, s.txn.compensation = snapshot ++ late ∧
    match s.phase with
    | .running | .resolved => done = [] ∧ late = [] ∧ skipped = []
    | .rollingBack remaining _ => done ++ remaining = snapshot.reverse ∧ skipped = []
    | .rejected _ => done ++ skipped = snapshot.reverse

/-- A step adds what it invokes; it leaves out no action exactly if it meets the condition. -/
def StepAccounts (s s' : Flight Err) (ev : FlightEvent Err)
    (done late skipped : List CompensatingAction) : Prop :=
  ∃ late' skipped', Accounts s' (done ++ (s.invokes ev).toList) (late ++ late')
    (skipped ++ skipped') ∧ (late' = [] ∧ skipped' = [] ↔ Attempts s ev)

section Step

variable {s s' : Flight Err} {done late skipped : List CompensatingAction}

theorem Accounts.same (h : Accounts s done late skipped) (ev : FlightEvent Err)
    (hcomp : s'.txn.compensation = s.txn.compensation) (hphase : s'.phase = s.phase)
    (hinvokes : s.invokes ev = none) (hev : Attempts s ev) :
    StepAccounts s s' ev done late skipped := by
  refine ⟨[], [], ?_, by simp [hev]⟩
  obtain ⟨snapshot, hsnapshot⟩ := h
  rw [hinvokes, Option.toList_none, List.append_nil, List.append_nil, List.append_nil]
  exact ⟨snapshot, by rw [hcomp, hphase]; exact hsnapshot⟩

/-- An action that is registered after the body rejected comes too late. -/
theorem Accounts.register (h : Accounts s done late skipped) (ev : FlightEvent Err)
    {action : CompensatingAction}
    (hcomp : s'.txn.compensation = s.txn.compensation ++ [action]) (hphase : s'.phase = s.phase)
    (hinvokes : s.invokes ev = none)
    (hev : Attempts s ev ↔ s.phase = .running ∨ s.phase = .resolved) :
    StepAccounts s s' ev done late skipped := by
  obtain ⟨snapshot, hsplit, hrest⟩ := h
  unfold StepAccounts
  rw [hinvokes, hev, Option.toList_none, List.append_nil]
  cases hp : s.phase with
  | running | resolved =>
    rw [hp] at hrest
    obtain ⟨rfl, rfl, rfl⟩ := hrest
    refine ⟨[], [], ⟨snapshot ++ [action], ?_, ?_⟩, by simp⟩
    · rw [hcomp, hsplit]
      simp
    · rw [hphase, hp]
      exact ⟨rfl, rfl, rfl⟩
  | rollingBack remaining err =>
    rw [hp] at hrest
    refine ⟨[action], [], ⟨snapshot, ?_, ?_⟩, by simp⟩
    · rw [hcomp, hsplit, List.append_assoc]
    · rw [hphase, hp, List.append_nil]
      exact hrest
  | rejected err =>
    rw [hp] at hrest
    refine ⟨[action], [], ⟨snapshot, ?_, ?_⟩, by simp⟩
    · rw [hcomp, hsplit, List.append_assoc]
    · rw [hphase, hp, List.append_nil]
      exact hrest

/-- A round of the loop: a refund that rejects skips the rest. -/
theorem Accounts.compensate (h : Accounts s done late skipped) {outcome : Except Err Unit}
    (hstep : compensateStep s outcome = some s') :
    StepAccounts s s' (.compensate outcome) done late skipped := by
  obtain ⟨snapshot, hsplit, hrest⟩ := h
  have hround : ∀ {action : CompensatingAction} {rest : List CompensatingAction} {err : Err},
      s.phase = .rollingBack (action :: rest) err →
      (s.invokes (.compensate outcome)).toList = [action] ∧
        done ++ [action] ++ rest = snapshot.reverse ∧ skipped = [] := by
    intro action rest err hp
    rw [hp] at hrest
    exact ⟨by simp [Flight.invokes, hp], by simpa using hrest.1, hrest.2⟩
  unfold StepAccounts
  cases compensated_of_step hstep with
  | finished hp =>
    rw [hp] at hrest
    obtain ⟨hdone, rfl⟩ := hrest
    refine ⟨[], [], ⟨snapshot, by simpa using hsplit, ?_⟩, ?_⟩
    · simpa [Flight.invokes, hp] using hdone
    · cases outcome <;> simp [Attempts, hp]
  | nothing hp ha =>
    obtain ⟨hinvokes, hdone, rfl⟩ := hround hp
    rw [hinvokes]
    refine ⟨[], [], ⟨snapshot, by simpa using hsplit, hdone, rfl⟩, ?_⟩
    cases outcome <;> simp [Attempts, hp, ha]
  | refunded hp ha =>
    obtain ⟨hinvokes, hdone, rfl⟩ := hround hp
    rw [hinvokes]
    exact ⟨[], [], ⟨snapshot, by simpa using hsplit, hdone, rfl⟩, by simp [Attempts]⟩
  | @failed _ action rest err params hp ha =>
    obtain ⟨hinvokes, hdone, rfl⟩ := hround hp
    rw [hinvokes]
    refine ⟨[], rest, ⟨snapshot, by simpa using hsplit, hdone⟩, ?_⟩
    simp [Attempts, hp, ha]

/-- **What a step adds to the invoked, the late and the skipped actions.** -/
theorem invoked_step {ev : FlightEvent Err} (h : Accounts s done late skipped)
    (hstep : s.step ev = some s') : StepAccounts s s' ev done late skipped := by
  cases ev with
  | startCharge =>
    cases hstep
    exact h.same _ rfl rfl rfl trivial
  | chargeSettles i result =>
    obtain ⟨-, rfl⟩ := Flight.step_chargeSettles hstep
    exact h.register _ rfl rfl rfl Iff.rfl
  | chargeRejects i =>
    obtain ⟨-, rfl⟩ := Flight.step_chargeRejects hstep
    exact h.same _ rfl rfl rfl trivial
  | issue licenseId =>
    cases hstep
    exact h.register _ rfl rfl rfl Iff.rfl
  | bodyResolves =>
    obtain ⟨hp, rfl⟩ := Flight.step_bodyResolves hstep
    obtain ⟨snapshot, hsplit, hrest⟩ := h
    rw [hp] at hrest
    obtain ⟨rfl, rfl, rfl⟩ := hrest
    exact ⟨[], [], ⟨snapshot, hsplit, rfl, rfl, rfl⟩, by simp [Attempts]⟩
  | bodyRejects err =>
    obtain ⟨hp, rfl⟩ := Flight.step_bodyRejects hstep
    obtain ⟨snapshot, hsplit, hrest⟩ := h
    rw [hp] at hrest
    obtain ⟨rfl, rfl, rfl⟩ := hrest
    refine ⟨[], [], ⟨s.txn.compensation, by simp, rfl, rfl⟩, by simp [Attempts]⟩
  | compensate outcome => exact h.compensate hstep

/-- The error that the caller receives or will receive. -/
def Flight.error? (s : Flight Err) : Option Err :=
  match s.phase with
  | .rollingBack _ err | .rejected err => some err
  | _ => none

def FlightEvent.error? : FlightEvent Err → Option Err
  | .bodyRejects err => some err
  | _ => none

theorem error_step {ev : FlightEvent Err} (hstep : s.step ev = some s') :
    s'.error?.toList = s.error?.toList ++ ev.error?.toList := by
  cases ev with
  | startCharge | issue licenseId =>
    cases hstep
    simp [Flight.error?, FlightEvent.error?]
  | chargeSettles i result =>
    obtain ⟨-, rfl⟩ := Flight.step_chargeSettles hstep
    simp [Flight.error?, FlightEvent.error?]
  | chargeRejects i =>
    obtain ⟨-, rfl⟩ := Flight.step_chargeRejects hstep
    simp [Flight.error?, FlightEvent.error?]
  | bodyResolves =>
    obtain ⟨hp, rfl⟩ := Flight.step_bodyResolves hstep
    simp [Flight.error?, FlightEvent.error?, hp]
  | bodyRejects err =>
    obtain ⟨hp, rfl⟩ := Flight.step_bodyRejects hstep
    simp [Flight.error?, FlightEvent.error?, hp]
  | compensate outcome =>
    cases compensated_of_step hstep with
    | finished hp | nothing hp | refunded hp | failed hp =>
      simp [Flight.error?, FlightEvent.error?, hp]

end Step

/-! ## Runs -/

section Runs

variable {journalId : String} {es : List (FlightEvent Err)} {s : Flight Err}

/-- The error of the body is the only one the caller can receive. -/
theorem run_error (hrun : (flight journalId).run es = some s) :
    s.error?.toList = es.filterMap FlightEvent.error? := by
  refine Machine.run_induction (M := flight journalId)
    (P := fun es s => s.error?.toList = es.filterMap FlightEvent.error?) rfl ?_ hrun
  intro es s ev s' _ ih hstep
  rw [error_step hstep, ih, List.filterMap_append]
  cases h : ev.error? <;> simp [h]

/-- No action is late or skipped exactly when every step met the condition. -/
theorem run_accounts (hrun : (flight journalId).run es = some s) :
    ∃ late skipped, Accounts s (invoked journalId es) late skipped ∧
      (late = [] ∧ skipped = [] ↔ (flight journalId).Along Attempts es) := by
  refine Machine.run_induction (M := flight journalId)
    (P := fun es s => ∃ late skipped, Accounts s (invoked journalId es) late skipped ∧
      (late = [] ∧ skipped = [] ↔ (flight journalId).Along Attempts es)) ?_ ?_ hrun
  · exact ⟨[], [], ⟨[], rfl, rfl, rfl, rfl⟩, by simp [Machine.along_nil]⟩
  · rintro es s ev s' hs ⟨late, skipped, haccounts, hiff⟩ hstep
    obtain ⟨late', skipped', haccounts', hiff'⟩ := invoked_step haccounts hstep
    refine ⟨late ++ late', skipped ++ skipped', ?_, ?_⟩
    · unfold invoked at haccounts' ⊢
      rw [Machine.observed_snoc hs hstep]
      exact haccounts'
    · rw [Machine.along_snoc, ← hiff, List.append_eq_nil_iff, List.append_eq_nil_iff]
      constructor
      · rintro ⟨⟨hlate, hlate'⟩, hskipped, hskipped'⟩
        refine ⟨⟨hlate, hskipped⟩, fun t ht => ?_⟩
        obtain rfl : s = t := Option.some.inj (hs.symm.trans ht)
        exact hiff'.1 ⟨hlate', hskipped'⟩
      · rintro ⟨⟨hlate, hskipped⟩, hev⟩
        obtain ⟨hlate', hskipped'⟩ := hiff'.2 (hev s hs)
        exact ⟨⟨hlate, hlate'⟩, hskipped, hskipped'⟩

/-- **Every registered action of a rejected transaction is invoked, in reverse order, exactly when
none is registered after the body rejected and none but the last one invoked rejects**; the
caller receives the body's error in any case. -/
theorem allAttempted_iff (hrun : (flight journalId).run es = some s)
    (hrejected : ∃ err, s.phase = .rejected err) :
    AllAttempted journalId es s ↔ (flight journalId).Along Attempts es := by
  obtain ⟨late, skipped, haccounts, hiff⟩ := run_accounts hrun
  obtain ⟨snapshot, hsplit, hrest⟩ := haccounts
  obtain ⟨err, hp⟩ := hrejected
  have herror : ∀ err', .bodyRejects err' ∈ es → s.phase = .rejected err' := by
    intro err' hmem
    have herr : err' ∈ s.error?.toList := by
      rw [run_error hrun]
      exact List.mem_filterMap.2 ⟨_, hmem, rfl⟩
    have heq : err' = err := by simpa [Flight.error?, hp] using herr
    rw [hp, heq]
  rw [hp] at hrest
  rw [← hiff]
  constructor
  · rintro ⟨hinvoked, -⟩
    have hlen := congrArg List.length hrest
    rw [hinvoked, hsplit] at hlen
    simp only [List.length_append, List.length_reverse] at hlen
    exact ⟨List.length_eq_zero_iff.1 (by omega), List.length_eq_zero_iff.1 (by omega)⟩
  · rintro ⟨rfl, rfl⟩
    refine ⟨?_, herror⟩
    rw [List.append_nil] at hsplit
    rw [hsplit]
    simpa using hrest

end Runs

/-! ### Concrete runs -/

/-- Two charges and a license; the refund of the first charge, which comes last, rejects. -/
def lastRefundFailsRun : List (FlightEvent String) :=
  [.startCharge, .chargeSettles 0 ⟨"pay_1", .succeeded⟩, .issue "ibiz_lic_1", .startCharge,
    .chargeSettles 1 ⟨"pay_2", .succeeded⟩, .bodyRejects "out of stock", .compensate (.ok ()),
    .compensate (.ok ()), .compensate (.error "refund declined")]

theorem allAttempted_iff_lastRefundFailsRun :
    ∃ s, (flight "ibiz_txn_org_trc_1").run lastRefundFailsRun = some s ∧
      s.phase = .rejected "out of stock" ∧
      (AllAttempted "ibiz_txn_org_trc_1" lastRefundFailsRun s ↔
        (flight "ibiz_txn_org_trc_1").Along Attempts lastRefundFailsRun) :=
  ⟨_, rfl, rfl, allAttempted_iff rfl ⟨_, rfl⟩⟩

/-- The refund of the second charge rejects. -/
def firstRefundFailsRun : List (FlightEvent String) :=
  [.startCharge, .chargeSettles 0 ⟨"pay_1", .succeeded⟩, .startCharge,
    .chargeSettles 1 ⟨"pay_2", .succeeded⟩, .bodyRejects "out of stock",
    .compensate (.error "refund declined")]

theorem firstRefundFailsRun_skips :
    ∃ s, (flight "ibiz_txn_org_trc_1").run firstRefundFailsRun = some s ∧
      s.phase = .rejected "out of stock" ∧
      s.txn.compensation = [.refundCharge ⟨"pay_1", .succeeded⟩,
        .refundCharge ⟨"pay_2", .succeeded⟩] ∧
      invoked "ibiz_txn_org_trc_1" firstRefundFailsRun =
        [.refundCharge ⟨"pay_2", .succeeded⟩] ∧
      ¬ AllAttempted "ibiz_txn_org_trc_1" firstRefundFailsRun s :=
  ⟨_, rfl, rfl, rfl, by decide, fun h => absurd h.1 (by decide)⟩

end Intellibiz.Commerce
