import Mathlib.Data.List.Basic

/-!
# Commerce transactions, one step after another

Model of `packages/commerce/src/transaction/index.ts` for bodies that await every `tx` call.

* `PaymentProvider` / `World` — the provider is a pair of state-passing functions (`refund` is
  optional, as in the source); the world holds the provider's own state, the readings of
  `Date.now()` and the log of provider calls.
* `Txn` / `CompensatingAction` — the journal id, the stack of compensating actions (closures
  as data) and `txState` of one transaction.
* `Body` — the callback handed to `transaction`, as a tree of `tx` calls; the continuation of
  `charge` also receives a thrown error, so a body may catch it.

Principal results: `runBody_spec` (a body only charges, and its stack records exactly the
charges that succeeded), `runActions_spec`, and `transaction_saga`.
-/

namespace Intellibiz.Commerce

inductive TransactionState where
  | pending
  | committed
  | rolledBack
  | manualReview
  | pendingBankReconciliation
  deriving DecidableEq, Repr

inductive ChargeStatus where
  | succeeded
  | pendingBankReconciliation
  | failed
  deriving DecidableEq, Repr

structure ChargeResult where
  id : String
  status : ChargeStatus
  deriving DecidableEq, Repr

structure RefundParams where
  paymentId : String
  deriving DecidableEq, Repr

structure LicenseIssueParams where
  plan : String
  duration : Option String
  deriving DecidableEq, Repr

structure LicenseResult where
  id : String
  key : String
  plan : String
  expiresAt : Nat
  deriving DecidableEq, Repr

/-! ## Compensating actions -/

/-- The closures that `charge` and `issue` push. -/
inductive CompensatingAction where
  | refundCharge (result : ChargeResult)
  | revokeLicense (licenseId : String)
  deriving DecidableEq, Repr

/-- The refund an action asks the provider for. -/
def CompensatingAction.refund? : CompensatingAction → Option RefundParams
  | .refundCharge result => if result.status = .succeeded then some ⟨result.id⟩ else none
  | .revokeLicense _ => none

/-- State of one `transaction` call. -/
structure Txn where
  journalId : String
  compensation : List CompensatingAction
  value : TransactionState
  deriving DecidableEq, Repr

/-- The rest of `charge` after its `await`. -/
def Txn.chargeSettled (t : Txn) (result : ChargeResult) : Txn :=
  { t with
    value := if result.status = .pendingBankReconciliation then .pendingBankReconciliation
      else t.value
    compensation := t.compensation ++ [.refundCharge result] }

/-- The state stored when the body resolves. -/
def Txn.resolved (t : Txn) : Txn :=
  { t with
    value := if t.value = .pendingBankReconciliation then .pendingBankReconciliation
      else .committed }

/-! ## The world of a transaction -/

/-- A provider over the outside state `σ`; the parameters of a charge are handed on unread. -/
structure PaymentProvider (σ Params Err : Type) where
  name : String
  charge : σ → Params → Except Err ChargeResult × σ
  refund : Option (σ → RefundParams → Except Err Unit × σ)

inductive ProviderCall (Params Err : Type) where
  | charge (params : Params) (outcome : Except Err ChargeResult)
  | refund (params : RefundParams) (outcome : Except Err Unit)

structure World (σ Params Err : Type) where
  provider : σ
  /-- `clock n` is the `n`-th reading of `Date.now()`, in milliseconds. -/
  clock : Nat → Nat
  reads : Nat
  calls : List (ProviderCall Params Err)

variable {σ Params Err α : Type}

def World.dateNow (w : World σ Params Err) : Nat × World σ Params Err :=
  (w.clock w.reads, { w with reads := w.reads + 1 })

def World.called (w : World σ Params Err) (call : ProviderCall Params Err) (provider : σ) :
    World σ Params Err :=
  { w with provider, calls := w.calls ++ [call] }

@[simp] theorem World.dateNow_calls (w : World σ Params Err) : w.dateNow.2.calls = w.calls := rfl

@[simp] theorem World.called_calls (w : World σ Params Err) (call : ProviderCall Params Err)
    (provider : σ) : (w.called call provider).calls = w.calls ++ [call] := rfl

/-! ## The `tx` handle -/

def YEAR_MS : Nat := 365 * 24 * 60 * 60 * 1000

/-- The table of `resolveLicenseExpiry`. -/
def unitMs : Char → Option Nat
  | 'm' => some (60 * 1000)
  | 'h' => some (60 * 60 * 1000)
  | 'd' => some (24 * 60 * 60 * 1000)
  | 'y' => some YEAR_MS
  | _ => none

/-- `duration.match(/^(\d+)(d|h|m|y)$/)`, as milliseconds. -/
def durationMs (duration : String) : Option Nat :=
  let cs := duration.toList
  match cs.takeWhile Char.isDigit, cs.dropWhile Char.isDigit with
  | d :: ds, [unit] =>
    let n := (d :: ds).foldl (fun n c => 10 * n + (c.toNat - '0'.toNat)) 0
    (unitMs unit).map (n * ·)
  | _, _ => none

def resolveLicenseExpiry (duration : Option String) (now : Nat) : Nat :=
  match duration with
  | none => now + YEAR_MS
  | some d => now + (durationMs d).getD YEAR_MS

/-- `` `LIC-${journalId.slice(-8).toUpperCase()}` `` -/
def licenseKey (journalId : String) : String :=
  "LIC-" ++ (String.ofList (journalId.toList.drop (journalId.length - 8))).toUpper

/-- `tx.payments.charge`. -/
def charge (P : PaymentProvider σ Params Err) (params : Params) (t : Txn)
    (w : World σ Params Err) : Except Err ChargeResult × Txn × World σ Params Err :=
  match P.charge w.provider params with
  | (.error err, provider) => (.error err, t, w.called (.charge params (.error err)) provider)
  | (.ok result, provider) =>
    (.ok result, t.chargeSettled result, w.called (.charge params (.ok result)) provider)

/-- `tx.licenses.issue`. -/
def issue (params : LicenseIssueParams) (t : Txn) (w : World σ Params Err) :
    LicenseResult × Txn × World σ Params Err :=
  let (issuedAt, w) := w.dateNow
  let (now, w) := w.dateNow
  let result : LicenseResult :=
    { id := "ibiz_lic_" ++ toString issuedAt
      key := licenseKey t.journalId
      plan := params.plan
      expiresAt := resolveLicenseExpiry params.duration now }
  (result, { t with compensation := t.compensation ++ [.revokeLicense result.id] }, w)

/-- `tx.licenses.grant`. -/
def grant (params : LicenseIssueParams) (t : Txn) (w : World σ Params Err) :
    LicenseResult × Txn × World σ Params Err :=
  issue params t w

/-- A callback that awaits each `tx` call before the next.  `tx.payments.refund` and
`tx.licenses.revoke` do nothing. -/
inductive Body (Params Err α : Type) where
  | resolve (v : α)
  | reject (err : Err)
  | charge (params : Params) (k : Except Err ChargeResult → Body Params Err α)
  | refund (params : RefundParams) (k : Body Params Err α)
  | issue (params : LicenseIssueParams) (k : LicenseResult → Body Params Err α)
  | grant (params : LicenseIssueParams) (k : LicenseResult → Body Params Err α)
  | revoke (licenseId : String) (k : Body Params Err α)

def runBody (P : PaymentProvider σ Params Err) :
    Body Params Err α → Txn → World σ Params Err → Except Err α × Txn × World σ Params Err
  | .resolve v, t, w => (.ok v, t, w)
  | .reject err, t, w => (.error err, t, w)
  | .charge params k, t, w =>
    let (outcome, t, w) := charge P params t w
    runBody P (k outcome) t w
  | .refund _ k, t, w => runBody P k t w
  | .issue params k, t, w =>
    let (result, t, w) := issue params t w
    runBody P (k result) t w
  | .grant params k, t, w =>
    let (result, t, w) := grant params t w
    runBody P (k result) t w
  | .revoke _ k, t, w => runBody P k t w

/-! ## Rollback -/

def CompensatingAction.run (P : PaymentProvider σ Params Err) (action : CompensatingAction)
    (w : World σ Params Err) : Except Err Unit × World σ Params Err :=
  match action.refund?, P.refund with
  | some params, some refund =>
    let (outcome, provider) := refund w.provider params
    (outcome, w.called (.refund params outcome) provider)
  | _, _ => (.ok (), w)

/-- The loop of `runAll`; a rejected action ends it. -/
def runActions (P : PaymentProvider σ Params Err) :
    List CompensatingAction → World σ Params Err → Except Err Unit × World σ Params Err
  | [], w => (.ok (), w)
  | action :: rest, w =>
    match action.run P w with
    | (.error err, w) => (.error err, w)
    | (.ok _, w) => runActions P rest w

/-- `CompensationStack.runAll`. -/
def runAll (P : PaymentProvider σ Params Err) (stack : List CompensatingAction)
    (w : World σ Params Err) : Except Err Unit × World σ Params Err :=
  runActions P stack.reverse w

/-- The state that `transaction` sets up before it calls the body. -/
def Txn.start (tenantId traceId : String) (w : World σ Params Err) : Txn × World σ Params Err :=
  let (now, w) := w.dateNow
  let journalId := "ibiz_txn_" ++ tenantId ++ "_" ++ traceId ++ "_" ++ toString now
  ({ journalId, compensation := [], value := .pending }, w)

def transaction (P : PaymentProvider σ Params Err) (tenantId traceId : String)
    (fn : Body Params Err α) (w : World σ Params Err) :
    Except Err α × Txn × World σ Params Err :=
  let (t, w) := Txn.start tenantId traceId w
  match runBody P fn t w with
  | (.ok result, t, w) => (.ok result, t.resolved, w)
  | (.error err, t, w) =>
    match runAll P t.compensation w with
    | (.ok _, w) => (.error err, { t with value := .rolledBack }, w)
    | (.error _, w) => (.error err, { t with value := .manualReview }, w)

/-! ## What a body leaves behind -/

def ProviderCall.isCharge : ProviderCall Params Err → Bool
  | .charge _ _ => true
  | .refund _ _ => false

/-- The refund owed for a call that charged successfully. -/
def ProviderCall.owed? : ProviderCall Params Err → Option RefundParams
  | .charge _ (.ok result) => (CompensatingAction.refundCharge result).refund?
  | _ => none

/-- The refunds that a stack of compensating actions asks for, in pushing order. -/
def refunds (stack : List CompensatingAction) : List RefundParams :=
  stack.filterMap CompensatingAction.refund?

/-- What a body does between two points of its run: it only charges, and every successful
charge is on the stack. -/
structure BodyStep (t t' : Txn) (w w' : World σ Params Err)
    (calls : List (ProviderCall Params Err)) : Prop where
  calls_eq : w'.calls = w.calls ++ calls
  charges : ∀ c ∈ calls, c.isCharge = true
  stacked : refunds t'.compensation = refunds t.compensation ++ calls.filterMap ProviderCall.owed?

theorem BodyStep.refl (t : Txn) (w : World σ Params Err) : BodyStep t t w w [] :=
  ⟨by simp, by simp, by simp⟩

theorem BodyStep.trans {t t' t'' : Txn} {w w' w'' : World σ Params Err}
    {cs ds : List (ProviderCall Params Err)} (h : BodyStep t t' w w' cs)
    (h' : BodyStep t' t'' w' w'' ds) : BodyStep t t'' w w'' (cs ++ ds) := by
  refine ⟨by rw [h'.calls_eq, h.calls_eq, List.append_assoc], ?_, ?_⟩
  · intro c hc
    rcases List.mem_append.1 hc with hc | hc
    · exact h.charges c hc
    · exact h'.charges c hc
  · rw [h'.stacked, h.stacked, List.filterMap_append, List.append_assoc]

theorem charge_step (P : PaymentProvider σ Params Err) (params : Params) (t : Txn)
    (w : World σ Params Err) :
    ∃ cs, BodyStep t (charge P params t w).2.1 w (charge P params t w).2.2 cs := by
  unfold charge
  split
  · rename_i err provider _
    exact ⟨[.charge params (.error err)], by simp, by simp [ProviderCall.isCharge],
      by simp [ProviderCall.owed?]⟩
  · rename_i result provider _
    refine ⟨[.charge params (.ok result)], by simp, by simp [ProviderCall.isCharge], ?_⟩
    simp only [refunds, Txn.chargeSettled, List.filterMap_append, List.append_cancel_left_eq]
    rfl

theorem issue_step (params : LicenseIssueParams) (t : Txn) (w : World σ Params Err) :
    BodyStep t (issue params t w).2.1 w (issue params t w).2.2 [] := by
  refine ⟨by simp [issue], by simp, ?_⟩
  simp [refunds, issue, CompensatingAction.refund?]

/-- **A body only charges, and its stack records exactly the charges that succeeded.** -/
theorem runBody_spec (P : PaymentProvider σ Params Err) (body : Body Params Err α) (t : Txn)
    (w : World σ Params Err) :
    ∃ cs, BodyStep t (runBody P body t w).2.1 w (runBody P body t w).2.2 cs := by
  induction body generalizing t w with
  | resolve v => exact ⟨[], .refl t w⟩
  | reject err => exact ⟨[], .refl t w⟩
  | charge params k ih =>
    obtain ⟨cs, hc⟩ := charge_step P params t w
    obtain ⟨ds, hd⟩ := ih (charge P params t w).1 (charge P params t w).2.1
      (charge P params t w).2.2
    exact ⟨cs ++ ds, hc.trans hd⟩
  | refund params k ih => exact ih t w
  | issue params k ih =>
    obtain ⟨ds, hd⟩ := ih (issue params t w).1 (issue params t w).2.1 (issue params t w).2.2
    exact ⟨ds, (issue_step params t w).trans hd⟩
  | grant params k ih =>
    obtain ⟨ds, hd⟩ := ih (grant params t w).1 (grant params t w).2.1 (grant params t w).2.2
    exact ⟨ds, (issue_step params t w).trans hd⟩
  | revoke licenseId k ih => exact ih t w

/-! ## What a rollback does -/

section Rollback

variable {P : PaymentProvider σ Params Err} {refund : σ → RefundParams → Except Err Unit × σ}

theorem action_spec (hP : P.refund = some refund) (hok : ∀ s p, (refund s p).1 = .ok ())
    (action : CompensatingAction) (w : World σ Params Err) :
    (action.run P w).1 = .ok () ∧
      (action.run P w).2.calls = w.calls ++ action.refund?.toList.map (.refund · (.ok ())) := by
  unfold CompensatingAction.run
  rw [hP]
  cases ha : action.refund? with
  | none => simp
  | some params => simp [hok]

/-- With a provider whose `refund` never fails, the loop asks for every refund on its list. -/
theorem runActions_spec (hP : P.refund = some refund) (hok : ∀ s p, (refund s p).1 = .ok ())
    (actions : List CompensatingAction) (w : World σ Params Err) :
    (runActions P actions w).1 = .ok () ∧
      (runActions P actions w).2.calls = w.calls ++ (refunds actions).map (.refund · (.ok ())) := by
  induction actions generalizing w with
  | nil => simp [runActions, refunds]
  | cons action rest ih =>
    obtain ⟨hres, hcalls⟩ := action_spec hP hok action w
    have hrun : runActions P (action :: rest) w = runActions P rest (action.run P w).2 := by
      rw [runActions]
      split
      · rename_i heq; rw [heq] at hres; cases hres
      · rename_i heq; rw [heq]
    rw [hrun]
    obtain ⟨hres', hcalls'⟩ := ih (action.run P w).2
    refine ⟨hres', ?_⟩
    rw [hcalls', hcalls]
    cases ha : action.refund? <;> simp [refunds, ha]

theorem transaction_of_ok {P : PaymentProvider σ Params Err} {tenantId traceId : String}
    {fn : Body Params Err α} {w w' : World σ Params Err} {v : α} {t : Txn}
    (hb : runBody P fn (Txn.start tenantId traceId w).1 (Txn.start tenantId traceId w).2 =
      (.ok v, t, w')) :
    transaction P tenantId traceId fn w = (.ok v, t.resolved, w') := by
  simp only [transaction, hb]

theorem transaction_of_error {P : PaymentProvider σ Params Err} {tenantId traceId : String}
    {fn : Body Params Err α} {w w' : World σ Params Err} {err : Err} {t : Txn}
    (hb : runBody P fn (Txn.start tenantId traceId w).1 (Txn.start tenantId traceId w).2 =
      (.error err, t, w'))
    (hr : (runAll P t.compensation w').1 = .ok ()) :
    transaction P tenantId traceId fn w =
      (.error err, { t with value := .rolledBack }, (runAll P t.compensation w').2) := by
  simp only [transaction, hb]
  split
  · rename_i h; rw [h]
  · rename_i h; rw [h] at hr; cases hr

/-- **Saga rollback.**  Whatever the body does, `transaction` settles as the body did.  If the
body rejects, `refund` has been called exactly once for every charge that succeeded, in the
reverse order of the charges and for nothing else; if it resolves, never. -/
theorem transaction_saga (hP : P.refund = some refund) (hok : ∀ s p, (refund s p).1 = .ok ())
    (tenantId traceId : String) (fn : Body Params Err α) (w : World σ Params Err) :
    let start := Txn.start tenantId traceId w
    let body := runBody P fn start.1 start.2
    let out := transaction P tenantId traceId fn w
    out.1 = body.1 ∧
      ∃ charges rollback, body.2.2.calls = w.calls ++ charges ∧
        (∀ c ∈ charges, c.isCharge = true) ∧ out.2.2.calls = body.2.2.calls ++ rollback ∧
        match body.1 with
        | .error _ =>
          rollback = (charges.filterMap ProviderCall.owed?).reverse.map (.refund · (.ok ()))
        | .ok _ => rollback = [] := by
  intro start body out
  obtain ⟨charges, hstep⟩ := runBody_spec P fn start.1 start.2
  have hcalls : body.2.2.calls = w.calls ++ charges := hstep.calls_eq
  have hstack : refunds body.2.1.compensation = charges.filterMap ProviderCall.owed? :=
    hstep.stacked
  rcases hb : body with ⟨err | v, t, w'⟩
  · rw [hb] at hcalls hstack
    obtain ⟨hres, hrun⟩ := runActions_spec hP hok t.compensation.reverse w'
    have hout : out = _ := transaction_of_error hb hres
    refine ⟨by rw [hout], charges, _, hcalls, hstep.charges, by rw [hout]; exact hrun, ?_⟩
    simp only [← hstack, refunds, List.filterMap_reverse]
  · rw [hb] at hcalls
    have hout : out = _ := transaction_of_ok hb
    exact ⟨by rw [hout], charges, [], hcalls, hstep.charges, by rw [hout]; simp, rfl⟩

end Rollback

/-! ### A concrete run -/

/-- A provider that numbers its payments and refunds without failing. -/
def sampleProvider : PaymentProvider Nat Unit String where
  name := "refundable"
  charge n _ := (.ok ⟨"pay_" ++ toString n, .succeeded⟩, n + 1)
  refund := some fun n _ => (.ok (), n)

def sampleWorld : World Nat Unit String := ⟨1, fun n => 1700000000000 + n, 0, []⟩

/-- Two charges, a license, and then a failure. -/
def sampleBody : Body Unit String Unit :=
  .charge () fun _ => .issue ⟨"pro", some "1y"⟩ fun _ => .charge () fun _ =>
    .reject "later step failed"

theorem transaction_saga_sample :
    let start := Txn.start "org_test" "trc_1" sampleWorld
    let body := runBody sampleProvider sampleBody start.1 start.2
    let out := transaction sampleProvider "org_test" "trc_1" sampleBody sampleWorld
    out.1 = body.1 ∧
      ∃ charges rollback, body.2.2.calls = sampleWorld.calls ++ charges ∧
        (∀ c ∈ charges, c.isCharge = true) ∧ out.2.2.calls = body.2.2.calls ++ rollback ∧
        match body.1 with
        | .error _ =>
          rollback = (charges.filterMap ProviderCall.owed?).reverse.map (.refund · (.ok ()))
        | .ok _ => rollback = [] :=
  transaction_saga (P := sampleProvider) rfl (fun _ _ => rfl) "org_test" "trc_1" sampleBody
    sampleWorld

end Intellibiz.Commerce
