import Mathlib.Data.List.Perm.Subperm
import Intellibiz.Machine
import Intellibiz.Commerce.Transaction

/-!
# Commerce transactions with charges in flight

A body may start several charges without awaiting each, so the promise of a charge can settle
at any point of the transaction, also after the body rejected.  One `transaction` call is a
machine whose events are the points where its code continues:

* `startCharge` / `chargeSettles` / `chargeRejects` — `provider.charge` is called, and the rest
  of `tx.payments.charge` after its `await`;
* `issue` — `tx.licenses.issue`, which has no `await`;
* `bodyResolves` / `bodyRejects` — the body's promise settles; a rejection takes the snapshot
  that `runAll` works on;
* `compensate` — the next round of the `runAll` loop, and the end of the loop.

Principal results: `step_spec` (everything a step can do to the refunds), `run_late` (in every
reachable state the charges that succeeded are the refunds made, the refunds still scheduled and
the charges that came too late) and `compensated_iff`.
-/

namespace Intellibiz.Commerce

inductive ChargeProgress where
  | inFlight
  | settled (result : ChargeResult)
  | rejected
  deriving DecidableEq, Repr

inductive Phase (Err : Type) where
  | running
  | resolved
  | rollingBack (remaining : List CompensatingAction) (err : Err)
  | rejected (err : Err)
  deriving DecidableEq, Repr

/-- State of one `transaction` call with its charges, in the order they were started. -/
structure Flight (Err : Type) where
  txn : Txn
  charges : List ChargeProgress
  phase : Phase Err
  /-- The calls of `provider.refund`. -/
  refunded : List RefundParams

inductive FlightEvent (Err : Type) where
  | startCharge
  | chargeSettles (i : Nat) (result : ChargeResult)
  | chargeRejects (i : Nat)
  | issue (licenseId : String)
  | bodyResolves
  | bodyRejects (err : Err)
  | compensate (outcome : Except Err Unit)

variable {Err : Type}

/-- One round of the `runAll` loop: the action asks for its refund, and its promise settles with
`outcome` (an action that calls nothing always completes). -/
def compensateStep (s : Flight Err) (outcome : Except Err Unit) : Option (Flight Err) :=
  match s.phase with
  | .rollingBack [] err =>
    some { s with phase := .rejected err, txn := { s.txn with value := .rolledBack } }
  | .rollingBack (action :: rest) err =>
    match action.refund? with
    | none => some { s with phase := .rollingBack rest err }
    | some params =>
      let s := { s with refunded := s.refunded ++ [params] }
      match outcome with
      | .ok _ => some { s with phase := .rollingBack rest err }
      | .error _ =>
        some { s with phase := .rejected err, txn := { s.txn with value := .manualReview } }
  | _ => none

def Flight.step (s : Flight Err) : FlightEvent Err → Option (Flight Err)
  | .startCharge => some { s with charges := s.charges ++ [.inFlight] }
  | .chargeSettles i result =>
    if s.charges[i]? = some .inFlight then
      some { s with charges := s.charges.set i (.settled result), txn := s.txn.chargeSettled result }
    else none
  | .chargeRejects i =>
    if s.charges[i]? = some .inFlight then
      some { s with charges := s.charges.set i .rejected }
    else none
  | .issue licenseId =>
    some { s with
      txn := { s.txn with compensation := s.txn.compensation ++ [.revokeLicense licenseId] } }
  | .bodyResolves =>
    match s.phase with
    | .running => some { s with phase := .resolved, txn := s.txn.resolved }
    | _ => none
  | .bodyRejects err =>
    match s.phase with
    | .running => some { s with phase := .rollingBack s.txn.compensation.reverse err }
    | _ => none
  | .compensate outcome => compensateStep s outcome

/-- A `transaction` call with the given journal id. -/
def flight (journalId : String) : Machine (Flight Err) (FlightEvent Err) where
  init := ⟨⟨journalId, [], .pending⟩, [], .running, []⟩
  step := Flight.step

/-! ## What a step can do -/

section Cases

variable {s s' : Flight Err}

theorem Flight.step_chargeSettles {i : Nat} {result : ChargeResult}
    (h : s.step (.chargeSettles i result) = some s') :
    s.charges[i]? = some .inFlight ∧
      s' = { s with
        charges := s.charges.set i (.settled result), txn := s.txn.chargeSettled result } := by
  simp only [Flight.step] at h
  split at h
  · rename_i hi
    exact ⟨hi, (Option.some.inj h).symm⟩
  · cases h

theorem Flight.step_chargeRejects {i : Nat} (h : s.step (.chargeRejects i) = some s') :
    s.charges[i]? = some .inFlight ∧ s' = { s with charges := s.charges.set i .rejected } := by
  simp only [Flight.step] at h
  split at h
  · rename_i hi
    exact ⟨hi, (Option.some.inj h).symm⟩
  · cases h

theorem Flight.step_bodyResolves (h : s.step .bodyResolves = some s') :
    s.phase = .running ∧ s' = { s with phase := .resolved, txn := s.txn.resolved } := by
  simp only [Flight.step] at h
  split at h
  · rename_i hp
    exact ⟨hp, (Option.some.inj h).symm⟩
  · cases h

theorem Flight.step_bodyRejects {err : Err} (h : s.step (.bodyRejects err) = some s') :
    s.phase = .running ∧
      s' = { s with phase := .rollingBack s.txn.compensation.reverse err } := by
  simp only [Flight.step] at h
  split at h
  · rename_i hp
    exact ⟨hp, (Option.some.inj h).symm⟩
  · cases h

/-- The rounds of the `runAll` loop. -/
inductive Compensated (s : Flight Err) : Except Err Unit → Flight Err → Prop where
  | finished {outcome : Except Err Unit} {err : Err} (hphase : s.phase = .rollingBack [] err) :
      Compensated s outcome
        { s with phase := .rejected err, txn := { s.txn with value := .rolledBack } }
  | nothing {outcome : Except Err Unit} {action : CompensatingAction}
      {rest : List CompensatingAction} {err : Err}
      (hphase : s.phase = .rollingBack (action :: rest) err) (hrefund : action.refund? = none) :
      Compensated s outcome { s with phase := .rollingBack rest err }
  | refunded {x : Unit} {action : CompensatingAction} {rest : List CompensatingAction} {err : Err}
      {params : RefundParams} (hphase : s.phase = .rollingBack (action :: rest) err)
      (hrefund : action.refund? = some params) :
      Compensated s (.ok x)
        { s with refunded := s.refunded ++ [params], phase := .rollingBack rest err }
  | failed {e : Err} {action : CompensatingAction} {rest : List CompensatingAction} {err : Err}
      {params : RefundParams} (hphase : s.phase = .rollingBack (action :: rest) err)
      (hrefund : action.refund? = some params) :
      Compensated s (.error e)
        { s with
          refunded := s.refunded ++ [params], phase := .rejected err,
          txn := { s.txn with value := .manualReview } }

theorem compensated_of_step {outcome : Except Err Unit} (h : compensateStep s outcome = some s') :
    Compensated s outcome s' := by
  unfold compensateStep at h
  split at h
  · rename_i hphase
    cases h
    exact .finished hphase
  · rename_i action rest err hphase
    split at h
    · rename_i hrefund
      cases h
      exact .nothing hphase hrefund
    · rename_i params hrefund
      cases outcome with
      | ok _ =>
        cases h
        exact .refunded hphase hrefund
      | error _ =>
        cases h
        exact .failed hphase hrefund
  · cases h

end Cases

/-! ## Succeeded charges -/

/-- The refund owed for a started charge. -/
def ChargeProgress.owed? : ChargeProgress → Option RefundParams
  | .settled result => (CompensatingAction.refundCharge result).refund?
  | _ => none

@[simp] theorem owed?_inFlight : ChargeProgress.inFlight.owed? = none := rfl

@[simp] theorem owed?_rejected : ChargeProgress.rejected.owed? = none := rfl

@[simp] theorem refund?_revokeLicense (licenseId : String) :
    (CompensatingAction.revokeLicense licenseId).refund? = none := rfl

/-- The refunds owed for the charges whose result was SUCCEEDED. -/
def Flight.owed (s : Flight Err) : List RefundParams := s.charges.filterMap ChargeProgress.owed?

/-- The refunds that the rest of the transaction will still ask for if the body rejects now, or
has rejected. -/
def Flight.scheduled (s : Flight Err) : List RefundParams :=
  match s.phase with
  | .rollingBack remaining _ => refunds remaining
  | .rejected _ => []
  | _ => refunds s.txn.compensation

/-- The transaction rejected and every started charge has settled. -/
def Flight.Terminal (s : Flight Err) : Prop :=
  (∃ err, s.phase = .rejected err) ∧ .inFlight ∉ s.charges

/-- No refund of this event fails. -/
def FlightEvent.RefundOk : FlightEvent Err → Prop
  | .compensate (.error _) => False
  | _ => True

/-- The event is not a charge that succeeds after the body rejected. -/
def InTime (s : Flight Err) : FlightEvent Err → Prop
  | .chargeSettles _ result =>
    result.status = .succeeded → s.phase = .running ∨ s.phase = .resolved
  | _ => True

theorem filterMap_set_inFlight {cs : List ChargeProgress} {i : Nat}
    (h : cs[i]? = some .inFlight) (c : ChargeProgress) :
    ((cs.set i c).filterMap ChargeProgress.owed?).Perm
      (cs.filterMap ChargeProgress.owed? ++ c.owed?.toList) := by
  induction cs generalizing i with
  | nil => simp at h
  | cons d cs ih =>
    cases i with
    | zero =>
      simp only [List.getElem?_cons_zero, Option.some.injEq] at h
      subst h
      cases hc : c.owed? with
      | none => simp [List.filterMap_cons, hc]
      | some r =>
        simp only [List.set_cons_zero, List.filterMap_cons, hc, owed?_inFlight, Option.toList_some]
        exact (List.perm_append_singleton _ _).symm
    | succ i =>
      simp only [List.getElem?_cons_succ] at h
      simp only [List.set_cons_succ, List.filterMap_cons]
      cases d.owed? with
      | none => exact ih h
      | some r => exact (ih h).cons r

/-- A settled charge reaches the scheduled refunds exactly while the body has not rejected. -/
theorem chargeSettles_spec {s s' : Flight Err} {i : Nat} {result : ChargeResult}
    (h : s.step (.chargeSettles i result) = some s') :
    let r := (CompensatingAction.refundCharge result).refund?.toList
    s'.owed.Perm (s.owed ++ r) ∧ s'.refunded = s.refunded ∧
      ((s.phase = .running ∨ s.phase = .resolved) ∧ s'.scheduled = s.scheduled ++ r ∨
        ¬ (s.phase = .running ∨ s.phase = .resolved) ∧ s'.scheduled = s.scheduled) := by
  intro r
  obtain ⟨hi, rfl⟩ := Flight.step_chargeSettles h
  refine ⟨filterMap_set_inFlight hi _, rfl, ?_⟩
  cases hp : s.phase with
  | running | resolved =>
    refine .inl ⟨by simp, ?_⟩
    simp [Flight.scheduled, hp, refunds, Txn.chargeSettled, r, List.filterMap_cons]
    cases (CompensatingAction.refundCharge result).refund? <;> rfl
  | rollingBack remaining err => exact .inr ⟨by simp, by simp [Flight.scheduled, hp]⟩
  | rejected err => exact .inr ⟨by simp, by simp [Flight.scheduled, hp]⟩

/-- A round of the rollback moves one refund from the scheduled to the made ones. -/
theorem compensateStep_spec {s s' : Flight Err} {outcome : Except Err Unit}
    (hok : (FlightEvent.compensate outcome).RefundOk) (h : compensateStep s outcome = some s') :
    s'.charges = s.charges ∧ s'.refunded ++ s'.scheduled = s.refunded ++ s.scheduled := by
  cases compensated_of_step h with
  | finished hp => simp [Flight.scheduled, hp, refunds]
  | nothing hp ha => simp [Flight.scheduled, hp, refunds, ha]
  | refunded hp ha => simp [Flight.scheduled, hp, refunds, ha]
  | failed => exact hok.elim

/-- **Everything a step can do to the refunds**: what it adds to the owed ones is split into the
part that also reaches the made or scheduled ones and the part that comes too late. -/
theorem step_spec {s s' : Flight Err} {e : FlightEvent Err} (hok : e.RefundOk)
    (h : s.step e = some s') :
    ∃ stacked late, s'.owed.Perm (s.owed ++ (stacked ++ late)) ∧
      (s'.refunded ++ s'.scheduled).Perm (s.refunded ++ s.scheduled ++ stacked) ∧
      (late = [] ↔ InTime s e) := by
  cases e with
  | startCharge =>
    cases h
    exact ⟨[], [], by simp [Flight.owed, List.filterMap_cons], by simp [Flight.scheduled],
      by simp [InTime]⟩
  | chargeSettles i result =>
    obtain ⟨howed, hmade, ⟨hp, hsched⟩ | ⟨hp, hsched⟩⟩ := chargeSettles_spec h
    · exact ⟨_, [], by simpa using howed, by rw [hmade, hsched, List.append_assoc],
        by simp [InTime, hp]⟩
    · refine ⟨[], _, by simpa using howed, by simp [hmade, hsched], ?_⟩
      simp [InTime, hp, CompensatingAction.refund?]
  | chargeRejects i =>
    obtain ⟨hi, rfl⟩ := Flight.step_chargeRejects h
    exact ⟨[], [], filterMap_set_inFlight hi .rejected, by simp [Flight.scheduled],
      by simp [InTime]⟩
  | issue licenseId =>
    cases h
    refine ⟨[], [], by simp [Flight.owed], ?_, by simp [InTime]⟩
    cases hp : s.phase <;> simp [Flight.scheduled, hp, refunds, List.filterMap_cons]
  | bodyResolves =>
    obtain ⟨hp, rfl⟩ := Flight.step_bodyResolves h
    exact ⟨[], [], by simp [Flight.owed], by simp [Flight.scheduled, hp, Txn.resolved],
      by simp [InTime]⟩
  | bodyRejects err =>
    obtain ⟨hp, rfl⟩ := Flight.step_bodyRejects h
    refine ⟨[], [], by simp [Flight.owed], ?_, by simp [InTime]⟩
    simp only [Flight.scheduled, hp, refunds, List.filterMap_reverse, List.append_nil]
    exact (List.reverse_perm _).append_left _
  | compensate outcome =>
    obtain ⟨hcharges, hmade⟩ := compensateStep_spec hok h
    exact ⟨[], [], by simp [Flight.owed, hcharges], by simp [hmade], by simp [InTime]⟩

/-- The charges that succeeded are the refunds made, the refunds scheduled and those that came
too late; there are none of the last exactly when every step was in time. -/
theorem run_late {journalId : String} {es : List (FlightEvent Err)} {s : Flight Err}
    (hrun : (flight journalId).run es = some s) (hok : ∀ e ∈ es, e.RefundOk) :
    ∃ late, s.owed.Perm (s.refunded ++ s.scheduled ++ late) ∧
      (late = [] ↔ (flight journalId).Along InTime es) := by
  refine Machine.run_induction (M := flight journalId)
    (P := fun es s => (∀ e ∈ es, e.RefundOk) → ∃ late,
      s.owed.Perm (s.refunded ++ s.scheduled ++ late) ∧
        (late = [] ↔ (flight journalId).Along InTime es)) ?_ ?_ hrun hok
  · intro _
    exact ⟨[], by simp [flight, Flight.owed, Flight.scheduled, refunds],
      by simp [Machine.along_nil]⟩
  · intro es s e s' hs ih hstep hok
    obtain ⟨late, howed, hlate⟩ := ih fun x hx => hok x (by simp [hx])
    obtain ⟨stacked, new, howed', hmade, hnew⟩ := step_spec (hok e (by simp)) hstep
    refine ⟨late ++ new, ?_, ?_⟩
    · have hswap : (late ++ (stacked ++ new)).Perm (stacked ++ (late ++ new)) := by
        rw [← List.append_assoc, ← List.append_assoc]
        exact List.perm_append_comm.append_right new
      calc s'.owed.Perm (s.owed ++ (stacked ++ new)) := howed'
        List.Perm _ (s.refunded ++ s.scheduled ++ late ++ (stacked ++ new)) :=
          howed.append_right _
        List.Perm _ (s.refunded ++ s.scheduled ++ stacked ++ (late ++ new)) := by
          rw [List.append_assoc _ late, List.append_assoc _ stacked]
          exact hswap.append_left _
        List.Perm _ (s'.refunded ++ s'.scheduled ++ (late ++ new)) := hmade.symm.append_right _
    · rw [List.append_eq_nil_iff, hlate, hnew, Machine.along_snoc]
      simp [hs]

/-- **A rejected transaction has refunded every successful charge exactly when none of them
succeeded after the body rejected**, whatever the order of its steps. -/
theorem compensated_iff {journalId : String} {es : List (FlightEvent Err)} {s : Flight Err}
    (hrun : (flight journalId).run es = some s) (hok : ∀ e ∈ es, e.RefundOk) (hs : s.Terminal) :
    s.owed.Subperm s.refunded ↔ (flight journalId).Along InTime es := by
  obtain ⟨late, howed, hlate⟩ := run_late hrun hok
  obtain ⟨⟨err, hp⟩, -⟩ := hs
  have hsched : s.scheduled = [] := by simp [Flight.scheduled, hp]
  rw [hsched, List.append_nil] at howed
  rw [← hlate]
  constructor
  · intro hsub
    have hlen : (s.refunded ++ late).length ≤ s.refunded.length :=
      howed.length_eq ▸ hsub.length_le
    rw [List.length_append] at hlen
    exact List.length_eq_zero_iff.1 (by omega)
  · rintro rfl
    rw [List.append_nil] at howed
    exact howed.subperm

/-! ### Concrete runs -/

/-- Two charges are started; the first succeeds, then the second rejects and with it the body. -/
def inTimeRun : List (FlightEvent String) :=
  [.startCharge, .startCharge, .chargeSettles 0 ⟨"pay_1", .succeeded⟩, .chargeRejects 1,
    .bodyRejects "card declined", .compensate (.ok ()), .compensate (.ok ())]

theorem compensated_iff_inTimeRun :
    ∃ s, (flight "ibiz_txn_org_trc_1").run inTimeRun = some s ∧
      (s.owed.Subperm s.refunded ↔ (flight "ibiz_txn_org_trc_1").Along InTime inTimeRun) :=
  ⟨_, rfl, compensated_iff rfl (by simp [inTimeRun, FlightEvent.RefundOk]) ⟨⟨_, rfl⟩, by decide⟩⟩

/-- The same two charges, but the second rejects first: the rollback is over when the first
succeeds. -/
def lateRun : List (FlightEvent String) :=
  [.startCharge, .startCharge, .chargeRejects 1, .bodyRejects "card declined",
    .compensate (.ok ()), .chargeSettles 0 ⟨"pay_1", .succeeded⟩]

theorem lateRun_not_refunded :
    ∃ s, (flight "ibiz_txn_org_trc_1").run lateRun = some s ∧
      (∀ e ∈ lateRun, e.RefundOk) ∧ s.Terminal ∧ ¬ ∀ r ∈ s.owed, r ∈ s.refunded :=
  ⟨_, rfl, by simp [lateRun, FlightEvent.RefundOk], ⟨⟨_, rfl⟩, by decide⟩, by decide⟩

/-! ## Sequential bodies

A body that awaits each call is one way of scheduling the machine: every `transaction` call is
a run of `flight` in which each charge settles before anything else happens. -/

section Sequential

variable {σ Params α : Type} {P : PaymentProvider σ Params Err}

theorem charge_flight (P : PaymentProvider σ Params Err) (params : Params) (t : Txn) (w : World σ Params Err)
    (cs : List ChargeProgress) (rs : List RefundParams) :
    ∃ (es : List (FlightEvent Err)) (c : ChargeProgress),
      es.foldlM Flight.step ⟨t, cs, .running, rs⟩ =
        some ⟨(charge P params t w).2.1, cs ++ [c], .running, rs⟩ ∧ c ≠ .inFlight := by
  unfold charge
  split
  · exact ⟨[.startCharge, .chargeRejects cs.length], .rejected,
      by simp [Flight.step], by simp⟩
  · rename_i result _ _
    exact ⟨[.startCharge, .chargeSettles cs.length result], .settled result,
      by simp [Flight.step], by simp⟩

theorem runBody_flight (P : PaymentProvider σ Params Err) (body : Body Params Err α) (t : Txn) (w : World σ Params Err)
    (cs : List ChargeProgress) (rs : List RefundParams) :
    ∃ (es : List (FlightEvent Err)) (new : List ChargeProgress),
      es.foldlM Flight.step ⟨t, cs, .running, rs⟩ =
        some ⟨(runBody P body t w).2.1, cs ++ new, .running, rs⟩ ∧ .inFlight ∉ new := by
  induction body generalizing t w cs with
  | resolve v => exact ⟨[], [], by simp [runBody], by simp⟩
  | reject err => exact ⟨[], [], by simp [runBody], by simp⟩
  | charge params k ih =>
    obtain ⟨es, c, hes, hc⟩ := charge_flight P params t w cs rs
    obtain ⟨fs, new, hfs, hnew⟩ := ih (charge P params t w).1 (charge P params t w).2.1
      (charge P params t w).2.2 (cs ++ [c])
    refine ⟨es ++ fs, c :: new, ?_, by simp [hc.symm, hnew]⟩
    rw [List.foldlM_append, hes]
    simpa [runBody] using hfs
  | refund params k ih => exact ih t w cs
  | issue params k ih | grant params k ih =>
    obtain ⟨fs, new, hfs, hnew⟩ := ih (issue params t w).1 (issue params t w).2.1
      (issue params t w).2.2 cs
    refine ⟨.issue (issue params t w).1.id :: fs, new, ?_, hnew⟩
    rw [List.foldlM_cons]
    exact hfs
  | revoke licenseId k ih => exact ih t w cs

theorem compensate_ok (action : CompensatingAction) (rest : List CompensatingAction) (err : Err)
    (t : Txn) (cs : List ChargeProgress) (rs : List RefundParams) :
    ∃ rs', compensateStep ⟨t, cs, .rollingBack (action :: rest) err, rs⟩ (.ok ()) =
      some ⟨t, cs, .rollingBack rest err, rs'⟩ := by
  cases ha : action.refund? with
  | none => exact ⟨rs, by simp only [compensateStep, ha]⟩
  | some params => exact ⟨rs ++ [params], by simp only [compensateStep, ha]⟩

theorem compensate_error {action : CompensatingAction} {e : Err} {w w' : World σ Params Err}
    (h : action.run P w = (.error e, w')) (rest : List CompensatingAction) (err : Err) (t : Txn)
    (cs : List ChargeProgress) (rs : List RefundParams) :
    ∃ rs', compensateStep ⟨t, cs, .rollingBack (action :: rest) err, rs⟩ (.error e) =
      some ⟨{ t with value := .manualReview }, cs, .rejected err, rs'⟩ := by
  cases ha : action.refund? with
  | none => simp [CompensatingAction.run, ha] at h
  | some params => exact ⟨rs ++ [params], by simp only [compensateStep, ha]⟩

/-- The state that `transaction` stores after `runAll` settled. -/
def rollbackState : Except Err Unit → TransactionState
  | .ok _ => .rolledBack
  | .error _ => .manualReview

theorem runActions_flight (P : PaymentProvider σ Params Err) (actions : List CompensatingAction)
    (err : Err) (t : Txn) (w : World σ Params Err) (cs : List ChargeProgress)
    (rs : List RefundParams) :
    ∃ (es : List (FlightEvent Err)) (rs' : List RefundParams),
      es.foldlM Flight.step ⟨t, cs, .rollingBack actions err, rs⟩ =
        some ⟨{ t with value := rollbackState (runActions P actions w).1 }, cs,
          .rejected err, rs'⟩ := by
  induction actions generalizing w rs with
  | nil => exact ⟨[.compensate (.ok ())], rs, rfl⟩
  | cons action rest ih =>
    unfold runActions
    split
    · rename_i e w' h
      obtain ⟨rs', hs⟩ := compensate_error h rest err t cs rs
      refine ⟨[.compensate (.error e)], rs', ?_⟩
      rw [List.foldlM_cons, Flight.step, hs]
      rfl
    · rename_i w' h
      obtain ⟨rs', hs⟩ := compensate_ok action rest err t cs rs
      obtain ⟨es, rs'', hes⟩ := ih w' rs'
      refine ⟨.compensate (.ok ()) :: es, rs'', ?_⟩
      rw [List.foldlM_cons, Flight.step, hs]
      exact hes

/-- **Every `transaction` call is a run of `flight`** that ends with the same journal id, stack
and state, with no charge in flight, and settled as the call is. -/
theorem transaction_flight (P : PaymentProvider σ Params Err) (tenantId traceId : String)
    (fn : Body Params Err α) (w : World σ Params Err) :
    let out := transaction P tenantId traceId fn w
    ∃ es s, (flight (Txn.start tenantId traceId w).1.journalId).run es = some s ∧
      s.txn = out.2.1 ∧ .inFlight ∉ s.charges ∧
      match out.1 with
      | .ok _ => s.phase = .resolved
      | .error err => s.phase = .rejected err := by
  intro out
  obtain ⟨es, new, hes, hnew⟩ := runBody_flight P fn (Txn.start tenantId traceId w).1
    (Txn.start tenantId traceId w).2 [] []
  rcases hb : runBody P fn (Txn.start tenantId traceId w).1 (Txn.start tenantId traceId w).2 with
    ⟨err | v, t, w'⟩
  · rw [hb] at hes
    obtain ⟨fs, rs, hfs⟩ := runActions_flight P t.compensation.reverse err t w' new []
    refine ⟨es ++ .bodyRejects err :: fs,
      ⟨{ t with value := rollbackState (runAll P t.compensation w').1 }, new, .rejected err, rs⟩,
      ?_, ?_⟩
    · rw [Machine.run, List.foldlM_append]
      exact (congrArg (Option.bind · _) hes).trans hfs
    · simp only [out, transaction, hb]
      split <;> rename_i h <;> simp [h, rollbackState, hnew]
  · rw [hb] at hes
    refine ⟨es ++ [.bodyResolves], ⟨t.resolved, new, .resolved, []⟩, ?_, ?_⟩
    · rw [Machine.run, List.foldlM_append]
      exact (congrArg (Option.bind · _) hes).trans rfl
    · simp [out, transaction, hb, hnew]

end Sequential

end Intellibiz.Commerce
