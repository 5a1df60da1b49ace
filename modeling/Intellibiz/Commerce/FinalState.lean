import Intellibiz.Commerce.Transaction

/-!
# What the final transaction state says

The state that a `transaction` call leaves behind, against the meaning of the states.

* `reported` / `Awaiting` — the results of the charges; a pending charge awaits the bank until its
  payment is reported as succeeded or refunded.
* `actionOutcomes` — how the compensating actions that `runAll` invokes settle.
* `Truthful` — what each state promises, one field for each.

Principal results: `runBody_value` (the state after the body), `truthful_of_resolved`,
`truthful_of_rejected` and `truthful_iff`.
-/

namespace Intellibiz.Commerce

variable {σ Params Err α : Type}

/-! ## What the states mean -/

/-- The result of a charge that did not throw. -/
def ProviderCall.result? : ProviderCall Params Err → Option ChargeResult
  | .charge _ (.ok result) => some result
  | _ => none

def reported (cs : List (ProviderCall Params Err)) : List ChargeResult :=
  cs.filterMap ProviderCall.result?

/-- The payment of a charge is known to have gone through. -/
def Confirmed (cs : List (ProviderCall Params Err)) (id : String) : Prop :=
  ∃ r ∈ reported cs, r.status = .succeeded ∧ r.id = id

/-- A pending charge whose payment has neither been confirmed nor refunded. -/
def Awaiting (cs : List (ProviderCall Params Err)) (r : ChargeResult) : Prop :=
  r ∈ reported cs ∧ r.status = .pendingBankReconciliation ∧ ¬ Confirmed cs r.id ∧
    .refund ⟨r.id⟩ (.ok ()) ∉ cs

def ProviderCall.Succeeded : ProviderCall Params Err → Prop
  | .charge _ (.ok result) => result.status = .succeeded
  | .charge _ (.error _) => False
  | .refund _ _ => True

/-- How the compensating actions settle that the loop of `runAll` invokes. -/
def actionOutcomes (P : PaymentProvider σ Params Err) :
    List CompensatingAction → World σ Params Err → List (Except Err Unit)
  | [], _ => []
  | action :: rest, w =>
    match action.run P w with
    | (.error err, _) => [.error err]
    | (.ok _, w) => .ok () :: actionOutcomes P rest w

/-- The state `value` is the one that the exit of the body, the outcomes of the `registered`
compensating actions and the provider calls of the transaction call for. -/
structure Truthful (exit : Except Err α) (registered : List CompensatingAction)
    (outcomes : List (Except Err Unit)) (cs : List (ProviderCall Params Err))
    (value : TransactionState) : Prop where
  rolledBack : ∀ err, exit = .error err → outcomes = registered.map (fun _ => .ok ()) →
    (∀ r, ¬ Awaiting cs r) → value = .rolledBack
  manualReview : ∀ err, exit = .error err → (∃ e, .error e ∈ outcomes) → value = .manualReview
  pending : (∃ r, Awaiting cs r) → value = .pendingBankReconciliation
  committed : value = .committed → (∃ v, exit = .ok v) ∧ ∀ c ∈ cs, c.Succeeded

/-! ## The state after the body -/

theorem reported_append (cs ds : List (ProviderCall Params Err)) :
    reported (cs ++ ds) = reported cs ++ reported ds :=
  List.filterMap_append

/-- The state that charges with these results leave, starting from `value`. -/
def valueAfter (value : TransactionState) (results : List ChargeResult) : TransactionState :=
  if results.any (·.status = .pendingBankReconciliation) then .pendingBankReconciliation else value

theorem valueAfter_append (value : TransactionState) (rs rs' : List ChargeResult) :
    valueAfter (valueAfter value rs) rs' = valueAfter value (rs ++ rs') := by
  unfold valueAfter
  rw [List.any_append]
  cases rs.any (·.status = .pendingBankReconciliation) with
  | true => simp
  | false => simp

/-- The calls made between two points of a body determine the state. -/
structure ValueStep (t t' : Txn) (w w' : World σ Params Err)
    (calls : List (ProviderCall Params Err)) : Prop where
  calls_eq : w'.calls = w.calls ++ calls
  value_eq : t'.value = valueAfter t.value (reported calls)

theorem ValueStep.trans {t t' t'' : Txn} {w w' w'' : World σ Params Err}
    {cs ds : List (ProviderCall Params Err)} (h : ValueStep t t' w w' cs)
    (h' : ValueStep t' t'' w' w'' ds) : ValueStep t t'' w w'' (cs ++ ds) := by
  refine ⟨by rw [h'.calls_eq, h.calls_eq, List.append_assoc], ?_⟩
  rw [h'.value_eq, h.value_eq, valueAfter_append, reported_append]

theorem charge_value (P : PaymentProvider σ Params Err) (params : Params) (t : Txn)
    (w : World σ Params Err) :
    ∃ cs, ValueStep t (charge P params t w).2.1 w (charge P params t w).2.2 cs := by
  unfold charge
  split
  · rename_i err provider _
    exact ⟨[.charge params (.error err)], rfl, rfl⟩
  · rename_i result provider _
    refine ⟨[.charge params (.ok result)], rfl, ?_⟩
    simp [Txn.chargeSettled, valueAfter, reported, ProviderCall.result?]

/-- **The body leaves `PENDING_BANK_RECONCILIATION` exactly if a charge reported it.** -/
theorem runBody_value (P : PaymentProvider σ Params Err) (body : Body Params Err α) (t : Txn)
    (w : World σ Params Err) :
    ∃ cs, ValueStep t (runBody P body t w).2.1 w (runBody P body t w).2.2 cs := by
  induction body generalizing t w with
  | resolve v => exact ⟨[], by simp [runBody], rfl⟩
  | reject err => exact ⟨[], by simp [runBody], rfl⟩
  | charge params k ih =>
    obtain ⟨cs, hc⟩ := charge_value P params t w
    obtain ⟨ds, hd⟩ := ih (charge P params t w).1 (charge P params t w).2.1
      (charge P params t w).2.2
    exact ⟨cs ++ ds, hc.trans hd⟩
  | refund params k ih => exact ih t w
  | issue params k ih | grant params k ih =>
    obtain ⟨cs, hc⟩ := ih (issue params t w).1 (issue params t w).2.1 (issue params t w).2.2
    exact ⟨cs, hc.calls_eq, hc.value_eq⟩
  | revoke licenseId k ih => exact ih t w

/-! ## The rollback -/

section Rollback

variable (P : PaymentProvider σ Params Err)

theorem run_calls (action : CompensatingAction) (w : World σ Params Err) :
    ∃ rs, (action.run P w).2.calls = w.calls ++ rs ∧
      ∀ c ∈ rs, ∃ params outcome, c = .refund params outcome ∧ action.refund? = some params := by
  unfold CompensatingAction.run
  split
  · rename_i params refund hparams hrefund
    exact ⟨[_], rfl, by simp [hparams]⟩
  · exact ⟨[], by simp, by simp⟩

/-- A rollback only refunds, and only what its actions ask for. -/
theorem runActions_calls (actions : List CompensatingAction) (w : World σ Params Err) :
    ∃ rs, (runActions P actions w).2.calls = w.calls ++ rs ∧
      ∀ c ∈ rs, ∃ params outcome, c = .refund params outcome ∧ params ∈ refunds actions := by
  induction actions generalizing w with
  | nil => exact ⟨[], by simp [runActions], by simp⟩
  | cons action rest ih =>
    obtain ⟨rs, hcalls, hrs⟩ := run_calls P action w
    have hhead : ∀ c ∈ rs, ∃ params outcome, c = .refund params outcome ∧
        params ∈ refunds (action :: rest) := by
      intro c hc
      obtain ⟨params, outcome, hc, hparams⟩ := hrs c hc
      exact ⟨params, outcome, hc, by simp [refunds, hparams]⟩
    unfold runActions
    split
    · rename_i err w' h
      rw [h] at hcalls
      exact ⟨rs, hcalls, hhead⟩
    · rename_i w' h
      rw [h] at hcalls
      obtain ⟨rs', hcalls', hrs'⟩ := ih w'
      refine ⟨rs ++ rs', by rw [hcalls', hcalls, List.append_assoc], fun c hc => ?_⟩
      rcases List.mem_append.1 hc with hc | hc
      · exact hhead c hc
      · obtain ⟨params, outcome, hc, hparams⟩ := hrs' c hc
        refine ⟨params, outcome, hc, ?_⟩
        have hsplit : refunds (action :: rest) = refunds [action] ++ refunds rest :=
          List.filterMap_append (l := [action])
        rw [hsplit]
        exact List.mem_append_right _ hparams

/-- `runAll` resolves if every action completes, and rejects if one does. -/
theorem runActions_outcomes (actions : List CompensatingAction) (w : World σ Params Err) :
    (runActions P actions w).1 = .ok () ∧
        actionOutcomes P actions w = actions.map (fun _ => .ok ()) ∨
      ∃ err, (runActions P actions w).1 = .error err ∧ .error err ∈ actionOutcomes P actions w := by
  induction actions generalizing w with
  | nil => exact .inl ⟨rfl, rfl⟩
  | cons action rest ih =>
    rcases h : action.run P w with ⟨err | _, w'⟩
    · exact .inr ⟨err, by simp only [runActions, h], by simp [actionOutcomes, h]⟩
    · simp only [runActions, actionOutcomes, h]
      rcases ih w' with ⟨hres, hout⟩ | ⟨err, hres, hout⟩
      · exact .inl ⟨hres, by rw [hout, List.map_cons]⟩
      · exact .inr ⟨err, hres, List.mem_cons_of_mem _ hout⟩

end Rollback

/-! ## The two exits -/

/-- The provider calls made since `w`. -/
def World.callsSince (w' w : World σ Params Err) : List (ProviderCall Params Err) :=
  w'.calls.drop w.calls.length

theorem callsSince_eq {w w' : World σ Params Err} {cs : List (ProviderCall Params Err)}
    (h : w'.calls = w.calls ++ cs) : w'.callsSince w = cs := by
  unfold World.callsSince
  rw [h, List.drop_left]

section Exits

variable {cs rs : List (ProviderCall Params Err)}

theorem pending_iff (cs : List (ProviderCall Params Err)) :
    (reported cs).any (·.status = .pendingBankReconciliation) = true ↔
      ∃ r ∈ reported cs, r.status = .pendingBankReconciliation := by
  simp

/-- The state of a resolved transaction is right exactly if a charge is pending or all succeeded. -/
theorem truthful_of_resolved (v : α) (registered : List CompensatingAction)
    (outcomes : List (Except Err Unit)) :
    Truthful (.ok v : Except Err α) registered outcomes cs
        (if valueAfter .pending (reported cs) = .pendingBankReconciliation then
          .pendingBankReconciliation else .committed) ↔
      (∃ r ∈ reported cs, r.status = .pendingBankReconciliation) ∨ ∀ c ∈ cs, c.Succeeded := by
  rw [← pending_iff]
  by_cases hpending : (reported cs).any (·.status = .pendingBankReconciliation) = true
  · have hvalue : valueAfter .pending (reported cs) = .pendingBankReconciliation := by
      rw [valueAfter, if_pos hpending]
    rw [if_pos hvalue]
    exact iff_of_true ⟨by simp, by simp, fun _ => rfl, by simp⟩ (.inl hpending)
  · have hvalue : valueAfter .pending (reported cs) ≠ .pendingBankReconciliation := by
      rw [valueAfter, if_neg hpending]
      decide
    rw [if_neg hvalue]
    constructor
    · intro h
      exact .inr (h.committed rfl).2
    · intro h
      refine ⟨by simp, by simp, ?_, fun _ => ⟨⟨v, rfl⟩, h.resolve_left hpending⟩⟩
      rintro ⟨r, hr, hstatus, -⟩
      exact absurd ((pending_iff cs).2 ⟨r, hr, hstatus⟩) hpending

theorem reported_refunds
    (hrs : ∀ c ∈ rs, ∃ params outcome, c = .refund params outcome) : reported rs = [] := by
  unfold reported
  rw [List.filterMap_eq_nil_iff]
  intro c hc
  obtain ⟨params, outcome, rfl⟩ := hrs c hc
  rfl

/-- A refund is owed for a reported payment that succeeded. -/
theorem confirmed_of_owed {id : String}
    (h : (⟨id⟩ : RefundParams) ∈ cs.filterMap ProviderCall.owed?) : Confirmed cs id := by
  obtain ⟨c, hc, howed⟩ := List.mem_filterMap.1 h
  cases c with
  | refund params outcome => cases howed
  | charge params outcome =>
    cases outcome with
    | error err => cases howed
    | ok result =>
      simp only [ProviderCall.owed?, CompensatingAction.refund?] at howed
      split at howed
      · rename_i hstatus
        cases howed
        exact ⟨result, List.mem_filterMap.2 ⟨_, hc, rfl⟩, hstatus, rfl⟩
      · cases howed

/-- After a rollback a pending charge awaits the bank unless its payment was confirmed. -/
theorem awaiting_rollback (hcs : ∀ c ∈ cs, c.isCharge = true)
    (hrs : ∀ c ∈ rs, ∃ params outcome, c = .refund params outcome ∧
      params ∈ cs.filterMap ProviderCall.owed?) (r : ChargeResult) :
    Awaiting (cs ++ rs) r ↔
      r ∈ reported cs ∧ r.status = .pendingBankReconciliation ∧ ¬ Confirmed cs r.id := by
  have hreported : reported (cs ++ rs) = reported cs := by
    have hnone : reported rs = [] := by
      refine reported_refunds fun c hc => ?_
      obtain ⟨params, outcome, heq, -⟩ := hrs c hc
      exact ⟨params, outcome, heq⟩
    rw [reported_append, hnone, List.append_nil]
  unfold Awaiting
  have hconfirmed : Confirmed (cs ++ rs) r.id ↔ Confirmed cs r.id := by
    unfold Confirmed
    rw [hreported]
  rw [hreported, hconfirmed]
  constructor
  · rintro ⟨hr, hstatus, hnot, -⟩
    exact ⟨hr, hstatus, hnot⟩
  · rintro ⟨hr, hstatus, hnot⟩
    refine ⟨hr, hstatus, hnot, fun hmem => ?_⟩
    rcases List.mem_append.1 hmem with hmem | hmem
    · exact absurd (hcs _ hmem) (by simp [ProviderCall.isCharge])
    · obtain ⟨params, outcome, heq, howed⟩ := hrs _ hmem
      cases heq
      exact hnot (confirmed_of_owed howed)

/-- The state of a rejected transaction is right exactly if no charge still awaits the bank. -/
theorem truthful_of_rejected (err : Err) (registered : List CompensatingAction)
    (outcomes : List (Except Err Unit)) {value : TransactionState}
    (hvalue : value = .rolledBack ∧ outcomes = registered.map (fun _ => .ok ()) ∨
      value = .manualReview ∧ ∃ e, .error e ∈ outcomes) :
    Truthful (.error err : Except Err α) registered outcomes cs value ↔ ∀ r, ¬ Awaiting cs r := by
  constructor
  · intro h r hr
    have hpending := h.pending ⟨r, hr⟩
    rcases hvalue with ⟨rfl, -⟩ | ⟨rfl, -⟩ <;> cases hpending
  · intro hnone
    rcases hvalue with ⟨rfl, houtcomes⟩ | ⟨rfl, e, he⟩
    · refine ⟨fun _ _ _ _ => rfl, ?_, fun ⟨r, hr⟩ => absurd hr (hnone r), fun h => by cases h⟩
      rintro _ - ⟨e, he⟩
      rw [houtcomes] at he
      obtain ⟨_, -, heq⟩ := List.mem_map.1 he
      cases heq
    · refine ⟨?_, fun _ _ _ => rfl, fun ⟨r, hr⟩ => absurd hr (hnone r), fun h => by cases h⟩
      rintro _ - houtcomes -
      rw [houtcomes] at he
      obtain ⟨_, -, heq⟩ := List.mem_map.1 he
      cases heq

end Exits

/-! ## Whole transactions -/

section Transactions

variable (P : PaymentProvider σ Params Err) (tenantId traceId : String) (fn : Body Params Err α)
  (w : World σ Params Err)

/-- The state that `transaction` leaves tells the truth. -/
def TellsTruth : Prop :=
  let start := Txn.start tenantId traceId w
  let body := runBody P fn start.1 start.2
  let out := transaction P tenantId traceId fn w
  let actions := body.2.1.compensation.reverse
  Truthful body.1 actions (actionOutcomes P actions body.2.2) (out.2.2.callsSince w) out.2.1.value

/-- What the charges of the body must have reported. -/
def ReportsSettled : Prop :=
  let start := Txn.start tenantId traceId w
  let body := runBody P fn start.1 start.2
  let charges := body.2.2.callsSince w
  match body.1 with
  | .ok _ => (∃ r ∈ reported charges, r.status = .pendingBankReconciliation) ∨
      ∀ c ∈ charges, c.Succeeded
  | .error _ => ∀ r ∈ reported charges, r.status = .pendingBankReconciliation →
      Confirmed charges r.id

variable {P tenantId traceId fn w} in
theorem transaction_of_rejected {w' : World σ Params Err} {err : Err} {t : Txn}
    (hb : runBody P fn (Txn.start tenantId traceId w).1 (Txn.start tenantId traceId w).2 =
      (.error err, t, w')) :
    ∃ value, transaction P tenantId traceId fn w =
        (.error err, { t with value }, (runAll P t.compensation w').2) ∧
      (value = .rolledBack ∧ (runAll P t.compensation w').1 = .ok () ∨
        value = .manualReview ∧ ∃ e, (runAll P t.compensation w').1 = .error e) := by
  simp only [transaction, hb]
  rcases h : runAll P t.compensation w' with ⟨e | _, w''⟩
  · exact ⟨.manualReview, rfl, .inr ⟨rfl, e, rfl⟩⟩
  · exact ⟨.rolledBack, rfl, .inl ⟨rfl, rfl⟩⟩

/-- **The final state tells the truth** exactly when a resolved body has a pending charge or only
successful ones, and when every pending charge of a rejected body was also reported as succeeded. -/
theorem truthful_iff :
    TellsTruth P tenantId traceId fn w ↔ ReportsSettled P tenantId traceId fn w := by
  obtain ⟨cs, hbody⟩ := runBody_spec P fn (Txn.start tenantId traceId w).1
    (Txn.start tenantId traceId w).2
  obtain ⟨cs', hvalue⟩ := runBody_value P fn (Txn.start tenantId traceId w).1
    (Txn.start tenantId traceId w).2
  have hcs : cs' = cs := by
    have h := hvalue.calls_eq
    rw [hbody.calls_eq] at h
    exact (List.append_cancel_left h).symm
  subst hcs
  have hcalls := hbody.calls_eq
  have hstacked := hbody.stacked
  have hcharges := hbody.charges
  have hstate := hvalue.value_eq
  unfold TellsTruth ReportsSettled
  dsimp only
  rcases hb : runBody P fn (Txn.start tenantId traceId w).1 (Txn.start tenantId traceId w).2 with
    ⟨err | v, t, w'⟩
  · rw [hb] at hcalls hstacked hstate
    have hcalls' : w'.calls = w.calls ++ cs' := hcalls
    obtain ⟨rs, hrollback, hrs⟩ := runActions_calls P t.compensation.reverse w'
    have howed : ∀ c ∈ rs, ∃ params outcome, c = .refund params outcome ∧
        params ∈ cs'.filterMap ProviderCall.owed? := by
      intro c hc
      obtain ⟨params, outcome, heq, hmem⟩ := hrs c hc
      refine ⟨params, outcome, heq, ?_⟩
      have hstack : refunds t.compensation = cs'.filterMap ProviderCall.owed? := hstacked
      rw [← hstack]
      simpa [refunds] using hmem
    obtain ⟨value, htransaction, hvalue⟩ := transaction_of_rejected hb
    have hvalue' : value = .rolledBack ∧ actionOutcomes P t.compensation.reverse w' =
          t.compensation.reverse.map (fun _ => .ok ()) ∨
        value = .manualReview ∧ ∃ e, .error e ∈ actionOutcomes P t.compensation.reverse w' := by
      unfold runAll at hvalue
      rcases runActions_outcomes P t.compensation.reverse w' with ⟨hres, hout⟩ | ⟨e, hres, hout⟩
      · rw [hres] at hvalue
        exact .inl ⟨by simpa using hvalue, hout⟩
      · rw [hres] at hvalue
        exact .inr ⟨by simpa using hvalue, e, hout⟩
    have hall : (runAll P t.compensation w').2.calls = w.calls ++ (cs' ++ rs) := by
      unfold runAll
      rw [hrollback, hcalls', List.append_assoc]
    rw [htransaction, callsSince_eq hcalls']
    dsimp only
    rw [callsSince_eq hall, truthful_of_rejected err _ _ hvalue']
    simp only [awaiting_rollback hcharges howed, not_and, not_not]
  · rw [hb] at hcalls hstate
    have hcalls' : w'.calls = w.calls ++ cs' := hcalls
    rw [transaction_of_ok hb, callsSince_eq hcalls']
    have hresolved : t.resolved.value =
        if valueAfter .pending (reported cs') = .pendingBankReconciliation then
          .pendingBankReconciliation else .committed := by
      unfold Txn.resolved
      rw [show t.value = valueAfter .pending (reported cs') from hstate]
    rw [hresolved]
    exact truthful_of_resolved v _ _

end Transactions

/-! ### Concrete runs -/

/-- A provider whose charges all report `status`. -/
def reportingProvider (status : ChargeStatus) : PaymentProvider Unit Unit String where
  name := "reporting"
  charge _ _ := (.ok ⟨"pay_1", status⟩, ())
  refund := some fun _ _ => (.ok (), ())

def reportingWorld : World Unit Unit String := ⟨(), fun n => 1700000000000 + n, 0, []⟩

/-- A body that ignores the result of its charge. -/
def carelessBody : Body Unit String Unit := .charge () fun _ => .resolve ()

/-- A body that fails after its charge. -/
def failingBody : Body Unit String Unit := .charge () fun _ => .reject "out of stock"

/-- A failed charge is committed, and a pending one is rolled back. -/
theorem failed_committed_pending_rolledBack :
    ((transaction (reportingProvider .failed) "org" "trc" carelessBody reportingWorld).2.1.value =
        .committed ∧
      ¬ TellsTruth (reportingProvider .failed) "org" "trc" carelessBody reportingWorld) ∧
    (transaction (reportingProvider .pendingBankReconciliation) "org" "trc" failingBody
        reportingWorld).2.1.value = .rolledBack ∧
      ¬ TellsTruth (reportingProvider .pendingBankReconciliation) "org" "trc" failingBody
        reportingWorld := by
  refine ⟨⟨rfl, fun h => ?_⟩, rfl, fun h => ?_⟩
  · have hsucceeded := (h.committed rfl).2 _ (List.mem_singleton.2 rfl)
    cases hsucceeded
  · have hvalue := h.pending ⟨⟨"pay_1", .pendingBankReconciliation⟩, List.mem_singleton.2 rfl, rfl,
      ?_, fun hmem => by cases List.mem_singleton.1 hmem⟩
    · cases hvalue
    · rintro ⟨r, hr, hstatus, -⟩
      cases List.mem_singleton.1 hr
      cases hstatus

end Intellibiz.Commerce
