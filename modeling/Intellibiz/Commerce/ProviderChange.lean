import Mathlib.Data.List.Forall2
import Intellibiz.Commerce.Concurrent

/-!
# Transactions while the payment provider changes

`_provider` is one variable of the module, read when a charge starts and again when a compensating
action runs.  Any number of transactions run beside calls of `setPaymentProvider`; each is a
`Flight`, with the provider of every charge and the charge behind every compensating action noted
along.

* `TaggedFlight` / `Shop` — a transaction with these notes, all transactions with `_provider`.
* `IssuedRefund.Routed` — a refund went to the provider whose charge returned its payment id.
* `TaggedFlight.outstanding` — the providers of the charges that a rollback may still refund.
* `Steady` — no change of the provider leaves such a charge behind.

Principal results: `step_aligned` and `step_outstanding` (what a step of a transaction does to the
notes), `issued_spec`, and `refunds_routed`.
-/

namespace Intellibiz.Commerce

variable {P Err : Type}

/-- A transaction; its closures are known by the charge that pushed them. -/
structure TaggedFlight (P Err : Type) where
  flight : Flight Err
  /-- The provider that each started charge was called on. -/
  takenBy : List P
  /-- The charge behind each action on the stack, if it is one of a charge. -/
  stack : List (Option Nat)
  /-- The same for what is left of the rollback. -/
  remaining : List (Option Nat)

structure IssuedRefund (P : Type) where
  transaction : Nat
  charge : Option Nat
  paymentId : String
  sentTo : P
  deriving DecidableEq

structure Shop (P Err : Type) where
  provider : P
  transactions : List (TaggedFlight P Err)
  /-- The calls of `refund`, on any provider. -/
  refunds : List (IssuedRefund P)

inductive ShopEvent (P Err : Type) where
  | setPaymentProvider (provider : P)
  | transaction (journalId : String)
  | inside (k : Nat) (e : FlightEvent Err)

/-! ## Steps -/

section Steps

variable (refundable : P → Bool) (provider : P)

/-- A step of a transaction under the current provider; without a `refund` of the provider an action
completes and asks for nothing. -/
def flightStep (f : Flight Err) : FlightEvent Err → Option (Flight Err)
  | .compensate outcome =>
    if refundable provider then f.step (.compensate outcome)
    else
      match outcome with
      | .ok _ => (f.step (.compensate outcome)).map fun f' => { f' with refunded := f.refunded }
      | .error _ => none
  | e => f.step e

def TaggedFlight.note (t : TaggedFlight P Err) (f : Flight Err) :
    FlightEvent Err → TaggedFlight P Err
  | .startCharge => { t with flight := f, takenBy := t.takenBy ++ [provider] }
  | .chargeSettles i _ => { t with flight := f, stack := t.stack ++ [some i] }
  | .issue _ => { t with flight := f, stack := t.stack ++ [none] }
  | .bodyRejects _ => { t with flight := f, remaining := t.stack.reverse }
  | .compensate _ => { t with flight := f, remaining := t.remaining.tail }
  | _ => { t with flight := f }

def TaggedFlight.step (t : TaggedFlight P Err) (e : FlightEvent Err) :
    Option (TaggedFlight P Err) :=
  (flightStep refundable provider t.flight e).map fun f => t.note provider f e

/-- The refund that an event of transaction `k` asks the current provider for. -/
def TaggedFlight.issued (t : TaggedFlight P Err) (k : Nat) (e : FlightEvent Err) :
    Option (IssuedRefund P) :=
  match e, t.flight.phase with
  | .compensate _, .rollingBack (action :: _) _ =>
    if refundable provider then
      action.refund?.map fun params => ⟨k, t.remaining.head?.join, params.paymentId, provider⟩
    else none
  | _, _ => none

def Shop.step (s : Shop P Err) : ShopEvent P Err → Option (Shop P Err)
  | .setPaymentProvider provider => some { s with provider }
  | .transaction journalId =>
    some { s with
      transactions := s.transactions ++ [⟨(flight journalId).init, [], [], []⟩] }
  | .inside k e =>
    s.transactions[k]?.bind fun t =>
      (t.step refundable s.provider e).map fun t' =>
        { s with
          transactions := s.transactions.set k t'
          refunds := s.refunds ++ (t.issued refundable s.provider k e).toList }

/-- The module with its first provider. -/
def shop : Machine (Shop P Err) (ShopEvent P Err) where
  init := ⟨provider, [], []⟩
  step := Shop.step refundable

end Steps

/-! ## Where refunds belong -/

/-- The refund was sent to the provider whose charge returned its payment id. -/
def IssuedRefund.Routed (r : IssuedRefund P) (s : Shop P Err) : Prop :=
  ∃ t i result, s.transactions[r.transaction]? = some t ∧ r.charge = some i ∧
    t.takenBy[i]? = some r.sentTo ∧ t.flight.charges[i]? = some (.settled result) ∧
    result.id = r.paymentId

/-- A rollback may still refund the charge. -/
def ChargeProgress.mayRefund : ChargeProgress → Bool
  | .inFlight => true
  | c => c.owed?.isSome

/-- The providers of the charges that a rollback may still refund. -/
def TaggedFlight.outstanding (t : TaggedFlight P Err) : List P :=
  match t.flight.phase with
  | .running => ((t.flight.charges.zip t.takenBy).filter fun c => c.1.mayRefund).map Prod.snd
  | .rollingBack remaining _ =>
    (remaining.zip t.remaining).filterMap fun a =>
      if a.1.refund?.isSome then a.2.bind (t.takenBy[·]?) else none
  | _ => []

/-- A new provider that can refund has taken every charge that a rollback may still refund. -/
def Steady (refundable : P → Bool) (s : Shop P Err) : ShopEvent P Err → Prop
  | .setPaymentProvider provider =>
    refundable provider = true → ∀ t ∈ s.transactions, ∀ q ∈ t.outstanding, q = provider
  | _ => True

/-! ## The notes are right -/

/-- The note of an action names the charge that pushed it. -/
def Tag (charges : List ChargeProgress) : CompensatingAction → Option Nat → Prop
  | .refundCharge result, tag => ∃ i, tag = some i ∧ charges[i]? = some (.settled result)
  | .revokeLicense _, tag => tag = none

structure TaggedFlight.Aligned (t : TaggedFlight P Err) : Prop where
  takenBy : t.takenBy.length = t.flight.charges.length
  stack : List.Forall₂ (Tag t.flight.charges) t.flight.txn.compensation t.stack
  remaining : ∀ actions err, t.flight.phase = .rollingBack actions err →
    List.Forall₂ (Tag t.flight.charges) actions t.remaining

/-- Settled charges stay as they are. -/
def KeepsSettled (cs cs' : List ChargeProgress) : Prop :=
  ∀ (i : Nat) (result : ChargeResult), cs[i]? = some (.settled result) →
    cs'[i]? = some (.settled result)

theorem KeepsSettled.refl (cs : List ChargeProgress) : KeepsSettled cs cs := fun _ _ h => h

theorem KeepsSettled.append (cs : List ChargeProgress) (c : ChargeProgress) :
    KeepsSettled cs (cs ++ [c]) := by
  intro i result h
  rw [List.getElem?_append_left (List.getElem?_eq_some_iff.1 h).1]
  exact h

theorem KeepsSettled.set {cs : List ChargeProgress} {i : Nat} (hi : cs[i]? = some .inFlight)
    (c : ChargeProgress) : KeepsSettled cs (cs.set i c) := by
  intro j result h
  by_cases hij : i = j
  · subst hij
    rw [hi] at h
    cases h
  · rw [List.getElem?_set_ne hij]
    exact h

theorem KeepsSettled.forall₂ {cs cs' : List ChargeProgress} (h : KeepsSettled cs cs')
    {actions : List CompensatingAction} {tags : List (Option Nat)}
    (hactions : List.Forall₂ (Tag cs) actions tags) : List.Forall₂ (Tag cs') actions tags := by
  refine hactions.imp ?_
  rintro (result | licenseId) tag htag
  · obtain ⟨i, rfl, hi⟩ := htag
    exact ⟨i, rfl, h i result hi⟩
  · exact htag

theorem forall₂_snoc {α β : Type} {R : α → β → Prop} {as : List α} {bs : List β} {a : α} {b : β}
    (h : List.Forall₂ R as bs) (hab : R a b) : List.Forall₂ R (as ++ [a]) (bs ++ [b]) :=
  List.rel_append h (.cons hab .nil)

section Notes

variable {refundable : P → Bool} {provider : P}

theorem compensateStep_cases {f f' : Flight Err} {outcome : Except Err Unit}
    (h : compensateStep f outcome = some f') :
    f'.charges = f.charges ∧ f'.txn.compensation = f.txn.compensation ∧
      ((∃ err, f'.phase = .rejected err) ∨
        ∃ action rest err, f.phase = .rollingBack (action :: rest) err ∧
          f'.phase = .rollingBack rest err) := by
  cases compensated_of_step h with
  | finished => exact ⟨rfl, rfl, .inl ⟨_, rfl⟩⟩
  | nothing hphase | refunded hphase => exact ⟨rfl, rfl, .inr ⟨_, _, _, hphase, rfl⟩⟩
  | failed => exact ⟨rfl, rfl, .inl ⟨_, rfl⟩⟩

/-- A round of a rollback, whether the provider can refund or not. -/
theorem compensate_cases {f f' : Flight Err} {outcome : Except Err Unit}
    (h : flightStep refundable provider f (.compensate outcome) = some f') :
    f'.charges = f.charges ∧ f'.txn.compensation = f.txn.compensation ∧
      ((∃ err, f'.phase = .rejected err) ∨
        ∃ action rest err, f.phase = .rollingBack (action :: rest) err ∧
          f'.phase = .rollingBack rest err) := by
  simp only [flightStep] at h
  split at h
  · exact compensateStep_cases h
  · split at h
    · rename_i x
      obtain ⟨f₁, hf₁, rfl⟩ := Option.map_eq_some_iff.1 h
      change compensateStep f (.ok x) = some f₁ at hf₁
      have hcases := compensateStep_cases hf₁
      exact hcases
    · cases h

/-- **A step keeps the notes right.** -/
theorem step_aligned {t t' : TaggedFlight P Err} {e : FlightEvent Err} (ht : t.Aligned)
    (h : t.step refundable provider e = some t') :
    t'.Aligned ∧ KeepsSettled t.flight.charges t'.flight.charges ∧
      ∃ rest, t'.takenBy = t.takenBy ++ rest := by
  obtain ⟨f', hf, rfl⟩ := Option.map_eq_some_iff.1 h
  cases e with
  | startCharge =>
    cases hf
    have hkeeps := KeepsSettled.append t.flight.charges .inFlight
    refine ⟨⟨?_, hkeeps.forall₂ ht.stack, ?_⟩, hkeeps, _, rfl⟩
    · simp [TaggedFlight.note, ht.takenBy]
    · intro actions err hphase
      exact hkeeps.forall₂ (ht.remaining actions err hphase)
  | chargeSettles i result =>
    obtain ⟨hi, rfl⟩ := Flight.step_chargeSettles hf
    have hkeeps := KeepsSettled.set hi (.settled result)
    refine ⟨⟨?_, ?_, ?_⟩, hkeeps, [], (List.append_nil _).symm⟩
    · simp [TaggedFlight.note, ht.takenBy]
    · have hlt := (List.getElem?_eq_some_iff.1 hi).1
      have htag : (t.flight.charges.set i (.settled result))[i]? = some (.settled result) :=
        List.getElem?_set_self hlt
      exact forall₂_snoc (hkeeps.forall₂ ht.stack) ⟨i, rfl, htag⟩
    · intro actions err hphase
      exact hkeeps.forall₂ (ht.remaining actions err hphase)
  | chargeRejects i =>
    obtain ⟨hi, rfl⟩ := Flight.step_chargeRejects hf
    have hkeeps := KeepsSettled.set hi .rejected
    refine ⟨⟨?_, hkeeps.forall₂ ht.stack, ?_⟩, hkeeps, [], (List.append_nil _).symm⟩
    · simp [TaggedFlight.note, ht.takenBy]
    · intro actions err hphase
      exact hkeeps.forall₂ (ht.remaining actions err hphase)
  | issue licenseId =>
    cases hf
    exact ⟨⟨ht.takenBy, forall₂_snoc ht.stack rfl, ht.remaining⟩, .refl _, [],
      (List.append_nil _).symm⟩
  | bodyResolves =>
    obtain ⟨-, rfl⟩ := Flight.step_bodyResolves hf
    refine ⟨⟨ht.takenBy, ht.stack, ?_⟩, .refl _, [], (List.append_nil _).symm⟩
    rintro actions err ⟨⟩
  | bodyRejects err =>
    obtain ⟨-, rfl⟩ := Flight.step_bodyRejects hf
    refine ⟨⟨ht.takenBy, ht.stack, ?_⟩, .refl _, [], (List.append_nil _).symm⟩
    rintro actions err ⟨⟩
    exact List.rel_reverse ht.stack
  | compensate outcome =>
    obtain ⟨hcharges, hstack, hphase⟩ := compensate_cases hf
    have hkeeps : KeepsSettled t.flight.charges f'.charges := by
      rw [hcharges]
      exact .refl _
    refine ⟨⟨?_, ?_, ?_⟩, hkeeps, [], (List.append_nil _).symm⟩
    · show t.takenBy.length = f'.charges.length
      rw [hcharges]
      exact ht.takenBy
    · show List.Forall₂ (Tag f'.charges) f'.txn.compensation t.stack
      rw [hcharges, hstack]
      exact ht.stack
    · intro actions err hnew
      change f'.phase = .rollingBack actions err at hnew
      show List.Forall₂ (Tag f'.charges) actions t.remaining.tail
      rcases hphase with ⟨err', hrejected⟩ | ⟨action, rest, err', hold, hrest⟩
      · rw [hrejected] at hnew
        cases hnew
      · rw [hrest] at hnew
        cases hnew
        have hall := ht.remaining _ _ hold
        rw [hcharges]
        cases htags : t.remaining with
        | nil =>
          rw [htags] at hall
          cases hall
        | cons tag tags =>
          rw [htags] at hall
          cases hall with
          | cons _ hall => exact hall

/-! ## Charges that may be refunded -/

theorem mem_zip_iff {α β : Type} {as : List α} {bs : List β} {a : α} {b : β} :
    (a, b) ∈ as.zip bs ↔ ∃ i : Nat, as[i]? = some a ∧ bs[i]? = some b := by
  rw [List.mem_iff_getElem?]
  simp only [List.getElem?_zip_eq_some]

theorem outstanding_running {t : TaggedFlight P Err} (h : t.flight.phase = .running) {q : P} :
    q ∈ t.outstanding ↔ ∃ (i : Nat) (c : ChargeProgress), t.flight.charges[i]? = some c ∧
      t.takenBy[i]? = some q ∧ c.mayRefund = true := by
  simp only [TaggedFlight.outstanding, h, List.mem_map, List.mem_filter, Prod.exists, mem_zip_iff]
  constructor
  · rintro ⟨c, q', ⟨⟨i, hc, hq⟩, hmay⟩, rfl⟩
    exact ⟨i, c, hc, hq, hmay⟩
  · rintro ⟨i, c, hc, hq, hmay⟩
    exact ⟨c, q, ⟨⟨i, hc, hq⟩, hmay⟩, rfl⟩

theorem outstanding_rollingBack {t : TaggedFlight P Err} {actions : List CompensatingAction}
    {err : Err} (h : t.flight.phase = .rollingBack actions err) {q : P} :
    q ∈ t.outstanding ↔ ∃ (action : CompensatingAction) (i : Nat),
      (action, some i) ∈ actions.zip t.remaining ∧ action.refund?.isSome = true ∧
        t.takenBy[i]? = some q := by
  simp only [TaggedFlight.outstanding, h, List.mem_filterMap, Prod.exists]
  constructor
  · rintro ⟨action, tag, hmem, hq⟩
    split at hq
    · rename_i hrefund
      obtain ⟨i, rfl, hi⟩ := Option.bind_eq_some_iff.1 hq
      exact ⟨action, i, hmem, hrefund, hi⟩
    · cases hq
  · rintro ⟨action, i, hmem, hrefund, hq⟩
    exact ⟨action, some i, hmem, by rw [if_pos hrefund]; exact hq⟩

/-- An action of the list that asks for a refund is that of a successful charge. -/
theorem tag_of_mem_zip {charges : List ChargeProgress} {actions : List CompensatingAction}
    {tags : List (Option Nat)} (h : List.Forall₂ (Tag charges) actions tags)
    {action : CompensatingAction} {tag : Option Nat} (hmem : (action, tag) ∈ actions.zip tags) :
    Tag charges action tag := by
  have hall := List.forall₂_iff_zip.1 h
  exact hall.2 hmem

theorem charge_of_refund {charges : List ChargeProgress} {action : CompensatingAction} {i : Nat}
    (h : Tag charges action (some i)) {params : RefundParams}
    (hrefund : action.refund? = some params) :
    ∃ result : ChargeResult, charges[i]? = some (.settled result) ∧
      result.id = params.paymentId ∧ (ChargeProgress.settled result).mayRefund = true := by
  cases action with
  | refundCharge result =>
    obtain ⟨j, hj, hresult⟩ := h
    cases hj
    refine ⟨result, hresult, ?_, ?_⟩
    · simp only [CompensatingAction.refund?] at hrefund
      split at hrefund
      · cases hrefund
        rfl
      · cases hrefund
    · show (CompensatingAction.refundCharge result).refund?.isSome = true
      rw [hrefund]
      rfl
  | revokeLicense licenseId => cases hrefund

theorem outstanding_charge {t : TaggedFlight P Err} (ht : t.Aligned) {i : Nat}
    {c : ChargeProgress} (hc : t.flight.charges[i]? = some c) (rest : List P) {q : P}
    (hq : (t.takenBy ++ rest)[i]? = some q) : t.takenBy[i]? = some q := by
  have hlt : i < t.takenBy.length := by
    rw [ht.takenBy]
    exact (List.getElem?_eq_some_iff.1 hc).1
  rw [List.getElem?_append_left hlt] at hq
  exact hq

theorem outstanding_start {t t' : TaggedFlight P Err} {q : P} (ht : t.Aligned)
    (hq : q ∈ t'.outstanding)
    (hcharges : t'.flight.charges = t.flight.charges ++ [.inFlight])
    (hphase : t'.flight.phase = t.flight.phase) (htaken : t'.takenBy = t.takenBy ++ [provider])
    (hremaining : t'.remaining = t.remaining) : q ∈ t.outstanding ∨ q = provider := by
  cases hold : t.flight.phase with
  | running =>
    rw [outstanding_running (hphase.trans hold), hcharges, htaken] at hq
    rw [outstanding_running hold]
    obtain ⟨i, c, hc, hi, hmay⟩ := hq
    by_cases hlt : i < t.takenBy.length
    · left
      rw [List.getElem?_append_left hlt] at hi
      rw [List.getElem?_append_left (ht.takenBy ▸ hlt)] at hc
      exact ⟨i, c, hc, hi, hmay⟩
    · right
      rw [List.getElem?_append_right (Nat.le_of_not_lt hlt)] at hi
      exact List.mem_singleton.1 (List.mem_of_getElem? hi)
  | rollingBack actions err =>
    left
    rw [outstanding_rollingBack (hphase.trans hold), htaken, hremaining] at hq
    rw [outstanding_rollingBack hold]
    obtain ⟨action, i, hmem, hrefund, hi⟩ := hq
    obtain ⟨params, hparams⟩ := Option.isSome_iff_exists.1 hrefund
    obtain ⟨result, hresult, -⟩ :=
      charge_of_refund (tag_of_mem_zip (ht.remaining _ _ hold) hmem) hparams
    exact ⟨action, i, hmem, hrefund, outstanding_charge ht hresult _ hi⟩
  | resolved | rejected => simp [TaggedFlight.outstanding, hphase, hold] at hq

/-- A charge that was in flight may be refunded. -/
theorem outstanding_set {t t' : TaggedFlight P Err} {i : Nat} {c : ChargeProgress} {q : P}
    (hq : q ∈ t'.outstanding) (hi : t.flight.charges[i]? = some .inFlight)
    (hcharges : t'.flight.charges = t.flight.charges.set i c)
    (hphase : t'.flight.phase = t.flight.phase) (htaken : t'.takenBy = t.takenBy)
    (hremaining : t'.remaining = t.remaining) : q ∈ t.outstanding := by
  cases hold : t.flight.phase with
  | running =>
    rw [outstanding_running (hphase.trans hold), hcharges, htaken] at hq
    rw [outstanding_running hold]
    obtain ⟨j, d, hd, hj, hmay⟩ := hq
    by_cases hij : i = j
    · subst hij
      exact ⟨i, .inFlight, hi, hj, rfl⟩
    · rw [List.getElem?_set_ne hij] at hd
      exact ⟨j, d, hd, hj, hmay⟩
  | rollingBack actions err =>
    rw [outstanding_rollingBack (hphase.trans hold), htaken, hremaining] at hq
    rw [outstanding_rollingBack hold]
    exact hq
  | resolved | rejected => simp [TaggedFlight.outstanding, hphase, hold] at hq

/-- Every action on the stack is that of a settled charge. -/
theorem outstanding_reject {t t' : TaggedFlight P Err} {err : Err} {q : P} (ht : t.Aligned)
    (hq : q ∈ t'.outstanding) (hold : t.flight.phase = .running)
    (hphase : t'.flight.phase = .rollingBack t.flight.txn.compensation.reverse err)
    (htaken : t'.takenBy = t.takenBy) (hremaining : t'.remaining = t.stack.reverse) :
    q ∈ t.outstanding := by
  rw [outstanding_rollingBack hphase, htaken, hremaining] at hq
  rw [outstanding_running hold]
  obtain ⟨action, i, hmem, hrefund, hi⟩ := hq
  obtain ⟨params, hparams⟩ := Option.isSome_iff_exists.1 hrefund
  obtain ⟨result, hresult, -, hmay⟩ :=
    charge_of_refund (tag_of_mem_zip (List.rel_reverse ht.stack) hmem) hparams
  exact ⟨i, .settled result, hresult, hi, hmay⟩

theorem outstanding_compensate {t t' : TaggedFlight P Err} {action : CompensatingAction}
    {rest : List CompensatingAction} {err : Err} {q : P} (hq : q ∈ t'.outstanding)
    (hold : t.flight.phase = .rollingBack (action :: rest) err)
    (hphase : t'.flight.phase = .rollingBack rest err) (htaken : t'.takenBy = t.takenBy)
    (hremaining : t'.remaining = t.remaining.tail) : q ∈ t.outstanding := by
  rw [outstanding_rollingBack hphase, htaken, hremaining] at hq
  rw [outstanding_rollingBack hold]
  obtain ⟨action', i, hmem, hrefund, hi⟩ := hq
  refine ⟨action', i, ?_, hrefund, hi⟩
  cases htags : t.remaining with
  | nil => simp [htags] at hmem
  | cons tag tags =>
    rw [htags] at hmem
    exact List.mem_cons_of_mem _ hmem

/-- **A step adds no charge that may be refunded but one of the current provider.** -/
theorem step_outstanding {t t' : TaggedFlight P Err} {e : FlightEvent Err} (ht : t.Aligned)
    (h : t.step refundable provider e = some t') :
    ∀ q ∈ t'.outstanding, q ∈ t.outstanding ∨ q = provider := by
  obtain ⟨f', hf, rfl⟩ := Option.map_eq_some_iff.1 h
  cases e with
  | startCharge =>
    cases hf
    intro q hq
    exact outstanding_start ht hq rfl rfl rfl rfl
  | chargeSettles i result =>
    obtain ⟨hi, rfl⟩ := Flight.step_chargeSettles hf
    intro q hq
    exact .inl (outstanding_set hq hi rfl rfl rfl rfl)
  | chargeRejects i =>
    obtain ⟨hi, rfl⟩ := Flight.step_chargeRejects hf
    intro q hq
    exact .inl (outstanding_set hq hi rfl rfl rfl rfl)
  | issue licenseId =>
    cases hf
    intro q hq
    exact .inl hq
  | bodyResolves =>
    obtain ⟨-, rfl⟩ := Flight.step_bodyResolves hf
    intro q hq
    simp [TaggedFlight.outstanding, TaggedFlight.note] at hq
  | bodyRejects err =>
    obtain ⟨hphase, rfl⟩ := Flight.step_bodyRejects hf
    intro q hq
    exact .inl (outstanding_reject ht hq hphase rfl rfl rfl)
  | compensate outcome =>
    intro q hq
    obtain ⟨-, -, ⟨err, hphase⟩ | ⟨action, rest, err, hold, hphase⟩⟩ := compensate_cases hf
    · simp [TaggedFlight.outstanding, TaggedFlight.note, hphase] at hq
    · exact .inl (outstanding_compensate hq hold hphase rfl rfl)

/-- **What a refund is for**: a charge that may be refunded; it goes to the current provider. -/
theorem issued_spec {t : TaggedFlight P Err} (ht : t.Aligned) {k : Nat} {e : FlightEvent Err}
    {r : IssuedRefund P} (h : t.issued refundable provider k e = some r) :
    refundable provider = true ∧ r.transaction = k ∧ r.sentTo = provider ∧
      ∃ i result, r.charge = some i ∧ t.flight.charges[i]? = some (.settled result) ∧
        result.id = r.paymentId ∧ ∃ q ∈ t.outstanding, t.takenBy[i]? = some q := by
  unfold TaggedFlight.issued at h
  split at h
  · rename_i action rest err hphase
    split at h
    · rename_i hrefundable
      obtain ⟨params, hparams, rfl⟩ := Option.map_eq_some_iff.1 h
      refine ⟨hrefundable, rfl, rfl, ?_⟩
      have hall := ht.remaining _ _ hphase
      cases htags : t.remaining with
      | nil =>
        rw [htags] at hall
        cases hall
      | cons tag tags =>
        have hmem : (action, tag) ∈ (action :: rest).zip t.remaining := by
          rw [htags]
          exact List.mem_cons_self
        have htag := tag_of_mem_zip hall hmem
        cases tag with
        | none =>
          cases action with
          | refundCharge result =>
            obtain ⟨i, hi, -⟩ := htag
            cases hi
          | revokeLicense licenseId => cases hparams
        | some i =>
          obtain ⟨result, hresult, hid, -⟩ := charge_of_refund htag hparams
          have hlt : i < t.takenBy.length := by
            rw [ht.takenBy]
            exact (List.getElem?_eq_some_iff.1 hresult).1
          refine ⟨i, result, rfl, hresult, hid, _, ?_, List.getElem?_eq_getElem hlt⟩
          rw [outstanding_rollingBack hphase]
          exact ⟨action, i, hmem, by rw [hparams]; rfl, List.getElem?_eq_getElem hlt⟩
    · cases h
  · cases h

end Notes

/-! ## Whole runs -/

section Runs

variable {refundable : P → Bool} {noop : P}

/-- In a steady run every charge that may be refunded is one of the current provider. -/
structure ShopInv (refundable : P → Bool) (s : Shop P Err) : Prop where
  aligned : ∀ t ∈ s.transactions, t.Aligned
  current : refundable s.provider = true → ∀ t ∈ s.transactions, ∀ q ∈ t.outstanding,
    q = s.provider
  routed : ∀ r ∈ s.refunds, r.Routed s

theorem IssuedRefund.Routed.later {r : IssuedRefund P} {s : Shop P Err} {k : Nat}
    {t t' : TaggedFlight P Err} {provider : P} {refunds : List (IssuedRefund P)}
    (hk : s.transactions[k]? = some t)
    (hkeeps : KeepsSettled t.flight.charges t'.flight.charges) {rest : List P}
    (htaken : t'.takenBy = t.takenBy ++ rest) (h : r.Routed s) :
    r.Routed ⟨provider, s.transactions.set k t', refunds⟩ := by
  obtain ⟨u, i, result, hu, hi, hsent, hresult, hid⟩ := h
  by_cases hkr : k = r.transaction
  · rw [hkr, hu] at hk
    cases hk
    refine ⟨t', i, result, ?_, hi, ?_, hkeeps i result hresult, hid⟩
    · rw [hkr]
      exact List.getElem?_set_self (List.getElem?_eq_some_iff.1 hu).1
    · rw [htaken, List.getElem?_append_left (List.getElem?_eq_some_iff.1 hsent).1]
      exact hsent
  · exact ⟨u, i, result, by rw [List.getElem?_set_ne hkr]; exact hu, hi, hsent, hresult, hid⟩

theorem ShopInv.inside {s : Shop P Err} (hs : ShopInv refundable s) {k : Nat}
    {e : FlightEvent Err} {t t' : TaggedFlight P Err} (hk : s.transactions[k]? = some t)
    (ht : t.step refundable s.provider e = some t') :
    ShopInv refundable
      { s with
        transactions := s.transactions.set k t'
        refunds := s.refunds ++ (t.issued refundable s.provider k e).toList } := by
  have hmem := List.mem_of_getElem? hk
  have haligned := hs.aligned t hmem
  obtain ⟨haligned', hkeeps, rest, htaken⟩ := step_aligned haligned ht
  refine ⟨?_, ?_, ?_⟩
  · intro u hu
    rcases List.mem_or_eq_of_mem_set hu with hu | rfl
    · exact hs.aligned u hu
    · exact haligned'
  · intro hrefundable u hu q hq
    rcases List.mem_or_eq_of_mem_set hu with hu | rfl
    · exact hs.current hrefundable u hu q hq
    · rcases step_outstanding haligned ht q hq with hq | hq
      · exact hs.current hrefundable t hmem q hq
      · exact hq
  · intro r hr
    rcases List.mem_append.1 hr with hr | hr
    · exact (hs.routed r hr).later hk hkeeps htaken
    · obtain ⟨hrefundable, hkr, hsent, i, result, hi, hresult, hid, q, hq, htakenBy⟩ :=
        issued_spec haligned (Option.mem_toList.1 hr)
      -- the provider of the charge is still the current one
      have hprovider := hs.current hrefundable t hmem q hq
      have hrouted : r.Routed s :=
        ⟨t, i, result, by rw [hkr]; exact hk, hi, by rw [hsent, ← hprovider]; exact htakenBy,
          hresult, hid⟩
      exact hrouted.later hk hkeeps htaken

theorem ShopInv.step {s s' : Shop P Err} {e : ShopEvent P Err} (hs : ShopInv refundable s)
    (hsteady : Steady refundable s e) (h : s.step refundable e = some s') :
    ShopInv refundable s' := by
  cases e with
  | setPaymentProvider provider =>
    cases h
    exact ⟨hs.aligned, hsteady, hs.routed⟩
  | transaction journalId =>
    cases h
    refine ⟨?_, ?_, ?_⟩
    · intro t ht
      rcases List.mem_append.1 ht with ht | ht
      · exact hs.aligned t ht
      · rw [List.mem_singleton.1 ht]
        refine ⟨rfl, .nil, ?_⟩
        rintro actions err ⟨⟩
    · intro hrefundable t ht q hq
      rcases List.mem_append.1 ht with ht | ht
      · exact hs.current hrefundable t ht q hq
      · rw [List.mem_singleton.1 ht] at hq
        simp [TaggedFlight.outstanding, flight] at hq
    · intro r hr
      obtain ⟨t, i, result, ht, hrest⟩ := hs.routed r hr
      refine ⟨t, i, result, ?_, hrest⟩
      rw [List.getElem?_append_left (List.getElem?_eq_some_iff.1 ht).1]
      exact ht
  | inside k e =>
    obtain ⟨t, hk, hstep⟩ := Option.bind_eq_some_iff.1 h
    obtain ⟨t', ht', rfl⟩ := Option.map_eq_some_iff.1 hstep
    exact hs.inside hk ht'

/-- **While no change of the provider leaves a charge behind that may be refunded, every refund goes
to the provider whose charge returned its payment id**, whatever the order of the steps. -/
theorem refunds_routed {es : List (ShopEvent P Err)} {s : Shop P Err}
    (hrun : (shop refundable noop).run es = some s)
    (hsteady : (shop refundable noop).Along (Steady refundable) es) :
    ∀ r ∈ s.refunds, r.Routed s := by
  have hinit : ShopInv refundable (shop refundable noop : Machine (Shop P Err) _).init := by
    refine ⟨?_, ?_, ?_⟩ <;> simp [shop]
  have hinv : ShopInv refundable s :=
    Machine.run_induction_along (M := shop refundable noop) (C := Steady refundable)
      (P := fun _ s => ShopInv refundable s) hinit
      (fun _ _ _ _ _ hs hsteady h => hs.step hsteady h) hsteady hrun
  exact hinv.routed

end Runs

/-! ### Concrete runs -/

inductive SampleProvider where
  | noop
  | stripe
  | payfast
  deriving DecidableEq

def SampleProvider.refundable : SampleProvider → Bool
  | .noop => false
  | _ => true

/-- A charge on stripe, rolled back; the provider changes after that. -/
def settledChangeRun : List (ShopEvent SampleProvider String) :=
  [.setPaymentProvider .stripe, .transaction "ibiz_txn_org_trc_1", .inside 0 .startCharge,
    .inside 0 (.chargeSettles 0 ⟨"pi_1", .succeeded⟩), .inside 0 (.bodyRejects "out of stock"),
    .inside 0 (.compensate (.ok ())), .inside 0 (.compensate (.ok ())),
    .setPaymentProvider .payfast]

instance (refundable : P → Bool) [DecidableEq P] (s : Shop P Err) (e : ShopEvent P Err) :
    Decidable (Steady refundable s e) := by
  cases e <;> unfold Steady <;> infer_instance

theorem refunds_routed_settledChangeRun :
    ∃ s, (shop SampleProvider.refundable .noop).run settledChangeRun = some s ∧
      s.refunds = [⟨0, some 0, "pi_1", .stripe⟩] ∧ ∀ r ∈ s.refunds, r.Routed s := by
  have hsteady : (shop SampleProvider.refundable .noop).Along (Steady SampleProvider.refundable)
      settledChangeRun := Machine.along_iff_from.2 (by decide)
  have hrun : ∃ s, (shop SampleProvider.refundable .noop).run settledChangeRun = some s ∧
      s.refunds = [⟨0, some 0, "pi_1", .stripe⟩] := ⟨_, rfl, rfl⟩
  obtain ⟨s, hs, hrefunds⟩ := hrun
  exact ⟨s, hs, hrefunds, refunds_routed hs hsteady⟩

/-- The same with the change right after the charge. -/
def earlyChangeRun : List (ShopEvent SampleProvider String) :=
  [.setPaymentProvider .stripe, .transaction "ibiz_txn_org_trc_1", .inside 0 .startCharge,
    .inside 0 (.chargeSettles 0 ⟨"pi_1", .succeeded⟩), .setPaymentProvider .payfast,
    .inside 0 (.bodyRejects "out of stock"), .inside 0 (.compensate (.ok ()))]

/-- The refund of a charge on stripe is sent to payfast. -/
theorem earlyChangeRun_misrouted :
    ∃ s, (shop SampleProvider.refundable .noop).run earlyChangeRun = some s ∧
      s.refunds = [⟨0, some 0, "pi_1", .payfast⟩] ∧ ¬ ∀ r ∈ s.refunds, r.Routed s := by
  refine ⟨_, rfl, rfl, ?_⟩
  intro hrouted
  obtain ⟨t, i, result, ht, hi, hsent, -⟩ := hrouted _ List.mem_cons_self
  cases hi
  cases ht
  cases hsent

end Intellibiz.Commerce
