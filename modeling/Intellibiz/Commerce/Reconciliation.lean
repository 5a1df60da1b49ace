import Intellibiz.Commerce.Concurrent
import Intellibiz.Commerce.RetryRegistry

/-!
# Pending charges and the bank retry machine

A transaction beside the bank retry machine.  `transaction` calls none of the functions of
`bank-retry.ts`; the events of the retry machine are calls made by other code, and its timers.

* `checkout` — the two machines side by side.
* `refunded` — the refunds of a transaction that completed.
* `NotOrphaned` — every pending charge is in the registry or refunded.
* `HandedOver` — what other code and the results of the charges must provide for that.

Principal results: `refunded_owed` (only charges that succeeded are refunded) and
`notOrphaned_iff`.
-/

namespace Intellibiz.Commerce

variable {Err : Type}

/-- One transaction and the retry machine. -/
def checkout (journalId : String) :
    Machine (Flight Err × Retries) (FlightEvent Err ⊕ RetryEvent) :=
  (flight journalId).prod retries

/-- The promise of the transaction has settled. -/
def Flight.Settled (s : Flight Err) : Prop := s.phase = .resolved ∨ ∃ err, s.phase = .rejected err

/-- The refund that a round of the `runAll` loop completes, if the provider has a `refund`. -/
def Flight.completes (refundable : Bool) (s : Flight Err) : FlightEvent Err → Option RefundParams
  | .compensate (.ok _) =>
    match s.phase with
    | .rollingBack (action :: _) _ => if refundable then action.refund? else none
    | _ => none
  | _ => none

/-- The refunds that completed in a run. -/
def refunded (journalId : String) (refundable : Bool) (es : List (FlightEvent Err)) :
    List RefundParams :=
  (flight journalId).observed (Flight.completes refundable) es

/-- The charges of the transaction that reported `PENDING_BANK_RECONCILIATION`. -/
def Flight.PendingCharge (s : Flight Err) (r : ChargeResult) : Prop :=
  .settled r ∈ s.charges ∧ r.status = .pendingBankReconciliation

/-- Every pending charge is in the bank retry machine or refunded. -/
def NotOrphaned (journalId : String) (refundable : Bool)
    (es : List (FlightEvent Err ⊕ RetryEvent)) (s : Flight Err × Retries) : Prop :=
  ∀ r, s.1.PendingCharge r → isRetrying r.id s.2 = true ∨
    ⟨r.id⟩ ∈ refunded journalId refundable (es.filterMap Sum.getLeft?)

/-- The payment of every pending charge is being retried after the calls of other code alone, or it
also belongs to a charge that succeeded and whose refund completed. -/
def HandedOver (journalId : String) (refundable : Bool)
    (es : List (FlightEvent Err ⊕ RetryEvent)) (s : Flight Err) : Prop :=
  ∀ r, s.PendingCharge r →
    (∃ t, retries.run (es.filterMap Sum.getRight?) = some t ∧ isRetrying r.id t = true) ∨
    ∃ r', .settled r' ∈ s.charges ∧ r'.status = .succeeded ∧ r'.id = r.id ∧
      ⟨r'.id⟩ ∈ refunded journalId refundable (es.filterMap Sum.getLeft?)

/-! ## Only charges that succeeded are refunded -/

theorem mem_owed {s : Flight Err} {params : RefundParams} : params ∈ s.owed ↔
    ∃ r, .settled r ∈ s.charges ∧ r.status = .succeeded ∧ ⟨r.id⟩ = params := by
  unfold Flight.owed
  rw [List.mem_filterMap]
  constructor
  · rintro ⟨c, hc, howed⟩
    cases c with
    | inFlight | rejected => cases howed
    | settled r =>
      simp only [ChargeProgress.owed?, CompensatingAction.refund?] at howed
      split at howed
      · rename_i hstatus
        exact ⟨r, hc, hstatus, Option.some.inj howed⟩
      · cases howed
  · rintro ⟨r, hr, hstatus, rfl⟩
    exact ⟨_, hr, by simp [ChargeProgress.owed?, CompensatingAction.refund?, hstatus]⟩

/-- Whatever has been, or may still be, asked for is owed. -/
structure RefundInv (s : Flight Err) (done : List RefundParams) : Prop where
  stack : ∀ params ∈ refunds s.txn.compensation, params ∈ s.owed
  remaining : ∀ actions err, s.phase = .rollingBack actions err →
    ∀ params ∈ refunds actions, params ∈ s.owed
  done : ∀ params ∈ done, params ∈ s.owed

section Step

variable {s s' : Flight Err} {done : List RefundParams}

/-- An event that keeps the phase, may register an action, and only adds to what is owed. -/
theorem RefundInv.of_register (h : RefundInv s done) (hphase : s'.phase = s.phase)
    (howed : ∀ params ∈ s.owed, params ∈ s'.owed)
    (hstack : ∀ params ∈ refunds s'.txn.compensation,
      params ∈ refunds s.txn.compensation ∨ params ∈ s'.owed) : RefundInv s' done := by
  refine ⟨fun params hp => ?_, fun actions err hrolling params hp => ?_, fun params hp => ?_⟩
  · rcases hstack params hp with hp | hp
    · exact howed params (h.stack params hp)
    · exact hp
  · rw [hphase] at hrolling
    exact howed params (h.remaining actions err hrolling params hp)
  · exact howed params (h.done params hp)

theorem refunds_register (stack : List CompensatingAction) (action : CompensatingAction) :
    refunds (stack ++ [action]) = refunds stack ++ action.refund?.toList := by
  unfold refunds
  rw [List.filterMap_append]
  cases h : action.refund? <;> simp [h]

theorem refunds_cons (action : CompensatingAction) (rest : List CompensatingAction) :
    refunds (action :: rest) = action.refund?.toList ++ refunds rest := by
  unfold refunds
  cases h : action.refund? <;> simp [h]

/-- A round that goes on with the actions below the top one. -/
theorem RefundInv.pop {action : CompensatingAction} {rest : List CompensatingAction} {err : Err}
    {completed : List RefundParams} (h : RefundInv s done)
    (hphase : s.phase = .rollingBack (action :: rest) err)
    (hcompleted : ∀ params ∈ completed, params ∈ action.refund?.toList)
    (hphase' : s'.phase = .rollingBack rest err) (hstack : s'.txn.compensation = s.txn.compensation)
    (howed : s'.owed = s.owed) : RefundInv s' (done ++ completed) := by
  have htop := h.remaining _ err hphase
  rw [refunds_cons] at htop
  refine ⟨fun params hp => ?_, fun actions err' hrolling params hp => ?_, fun params hp => ?_⟩
  · rw [hstack] at hp
    rw [howed]
    exact h.stack params hp
  · rw [hphase'] at hrolling
    cases hrolling
    rw [howed]
    exact htop params (List.mem_append_right _ hp)
  · rw [howed]
    rcases List.mem_append.1 hp with hp | hp
    · exact h.done params hp
    · exact htop params (List.mem_append_left _ (hcompleted params hp))

/-- A round of the loop completes at most the refund of its action. -/
theorem RefundInv.compensate {refundable : Bool} {outcome : Except Err Unit}
    (h : RefundInv s done) (hstep : compensateStep s outcome = some s') :
    RefundInv s' (done ++ (s.completes refundable (.compensate outcome)).toList) := by
  cases compensated_of_step hstep with
  | finished hphase =>
    have hnone : s.completes refundable (.compensate outcome) = none := by
      cases outcome <;> simp [Flight.completes, hphase]
    rw [hnone, Option.toList_none, List.append_nil]
    exact ⟨h.stack, by simp, h.done⟩
  | nothing hphase hrefund =>
    refine h.pop hphase (fun params hp => ?_) rfl rfl rfl
    cases outcome <;> simp [Flight.completes, hphase, hrefund] at hp
  | refunded hphase hrefund =>
    refine h.pop hphase (fun params hp => ?_) rfl rfl rfl
    cases refundable with
    | true => simpa [Flight.completes, hphase] using hp
    | false => simp [Flight.completes, hphase] at hp
  | failed hphase hrefund =>
    simp only [Flight.completes, Option.toList_none, List.append_nil]
    exact ⟨h.stack, by simp, h.done⟩

theorem RefundInv.step {refundable : Bool} {ev : FlightEvent Err} (h : RefundInv s done)
    (hstep : s.step ev = some s') :
    RefundInv s' (done ++ (s.completes refundable ev).toList) := by
  cases ev with
  | startCharge =>
    cases hstep
    rw [show (s.completes refundable .startCharge).toList = [] from rfl, List.append_nil]
    refine h.of_register rfl (fun params hp => ?_) fun params hp => .inl hp
    simpa [Flight.owed] using hp
  | chargeSettles i result =>
    obtain ⟨hi, rfl⟩ := Flight.step_chargeSettles hstep
    have hperm := filterMap_set_inFlight hi (.settled result)
    rw [show (s.completes refundable (.chargeSettles i result)).toList = [] from rfl,
      List.append_nil]
    refine h.of_register rfl (fun params hp => ?_) fun params hp => ?_
    · exact hperm.mem_iff.2 (List.mem_append_left _ hp)
    · simp only [Txn.chargeSettled] at hp
      rw [refunds_register, List.mem_append] at hp
      exact hp.imp_right fun hp => hperm.mem_iff.2 (List.mem_append_right _ hp)
  | chargeRejects i =>
    obtain ⟨hi, rfl⟩ := Flight.step_chargeRejects hstep
    have hperm := filterMap_set_inFlight hi .rejected
    rw [show (s.completes refundable (.chargeRejects i)).toList = [] from rfl, List.append_nil]
    refine h.of_register rfl (fun params hp => ?_) fun params hp => .inl hp
    exact hperm.mem_iff.2 (List.mem_append_left _ hp)
  | issue licenseId =>
    cases hstep
    rw [show (s.completes refundable (.issue licenseId)).toList = [] from rfl, List.append_nil]
    refine h.of_register rfl (fun _ hp => hp) fun params hp => .inl ?_
    simpa [refunds_register] using hp
  | bodyResolves =>
    obtain ⟨-, rfl⟩ := Flight.step_bodyResolves hstep
    rw [show (s.completes refundable .bodyResolves).toList = [] from rfl, List.append_nil]
    exact ⟨h.stack, by simp, h.done⟩
  | bodyRejects err =>
    obtain ⟨-, rfl⟩ := Flight.step_bodyRejects hstep
    rw [show (s.completes refundable (.bodyRejects err)).toList = [] from rfl, List.append_nil]
    refine ⟨h.stack, ?_, h.done⟩
    rintro actions err' hrolling params hp
    cases hrolling
    refine h.stack params ?_
    simpa [refunds] using hp
  | compensate outcome => exact h.compensate hstep

end Step

/-- **Only charges that succeeded are refunded**, whatever the refunds do. -/
theorem refunded_owed {journalId : String} (refundable : Bool) {es : List (FlightEvent Err)}
    {s : Flight Err} (hrun : (flight journalId).run es = some s) :
    ∀ params ∈ refunded journalId refundable es, params ∈ s.owed := by
  suffices h : RefundInv s (refunded journalId refundable es) from h.done
  refine Machine.run_induction (M := flight journalId)
    (P := fun es s => RefundInv s (refunded journalId refundable es)) ?_ ?_ hrun
  · exact ⟨by simp [flight, refunds], by simp [flight], by simp [refunded]⟩
  · intro es s ev s' hs h hstep
    unfold refunded at h ⊢
    rw [Machine.observed_snoc hs hstep]
    exact h.step hstep

/-! ## The hand-over -/

/-- The body of a transaction hands its pending charge over before it resolves. -/
def handedOverRun : List (FlightEvent String ⊕ RetryEvent) :=
  [.inl .startCharge, .inl (.chargeSettles 0 ⟨"pi_1", .pendingBankReconciliation⟩),
    .inr (.startBankRetry "pi_1" 0 0), .inl .bodyResolves]

/-- The charge is pending, the body rejects, and the rollback completes. -/
def orphaningRun : List (FlightEvent String ⊕ RetryEvent) :=
  [.inl .startCharge, .inl (.chargeSettles 0 ⟨"pi_1", .pendingBankReconciliation⟩),
    .inl (.bodyRejects "out of stock"), .inl (.compensate (.ok ())), .inl (.compensate (.ok ()))]

end Intellibiz.Commerce
