import Mathlib
import Intellibiz.JsMap
import Intellibiz.Machine

/-!
# The event bus

Model of `packages/core/src/events/bus.ts`.  A call of `emit` is an `Emission`, known by its place
in the list of all of them; the body of its `fns.map(async fn => ...)` is one `Delivery` for each
listener.

* `Delivery` — where the retry loop of a listener stands, with the attempts it made and how each
  settled.
* `Emission.advance` — one step of one retry loop; `Act` is what lets it happen.
* `Bus` / `BusEvent` / `bus` — registrations, emissions and the dead letter queue, their steps in
  any order.

Principal results: `advance_cases` (what a step of a retry loop does), `Delivery.Inv`,
`Emission.Inv` and `BusInv` with their step lemmas, and `emit_accounted`.
-/

namespace Intellibiz.Core

/-! ## Envelopes and retries -/

/-- What `emit` reads of the request context. -/
structure Context where
  traceId : String
  tenantId : String
  userId : Option String
  origin : String

structure EventEnvelope (P : Type) where
  eventId : String
  event : String
  payload : P
  traceId : String
  tenantId : String
  userId : Option String
  source : String
  timestamp : Nat
  deliveryAttempt : Nat

/-- A call of `emit`, with the ids and the clock it reads. -/
structure EmitCall (P : Type) where
  event : String
  payload : P
  ctx : Option Context
  eventId : String
  newTraceId : String
  timestamp : Nat

def EmitCall.envelope {P : Type} (c : EmitCall P) : EventEnvelope P where
  eventId := c.eventId
  event := c.event
  payload := c.payload
  traceId := (c.ctx.map Context.traceId).getD c.newTraceId
  tenantId := (c.ctx.map Context.tenantId).getD "system"
  userId := c.ctx.bind Context.userId
  source := (c.ctx.map Context.origin).getD "unknown"
  timestamp := c.timestamp
  deliveryAttempt := 1

/-- `reason` is the message of an `Error`, else `String(err)`. -/
structure DeadLetteredEvent (P : Type) where
  envelope : EventEnvelope P
  reason : String
  failedAt : Nat
  attempts : Nat

structure EventDeliveryResult where
  eventId : String
  delivered : Nat
  failed : Nat
  deadLettered : Nat

def DEFAULT_MAX_RETRIES : Nat := 3

def BASE_BACKOFF_MS : Nat := 1000

def backoffMs (attempt : Nat) : Nat := min (BASE_BACKOFF_MS * 2 ^ (attempt - 1)) 30000

/-! ## The retry loop of a listener -/

inductive Outcome where
  | resolved
  | rejected
  deriving DecidableEq

inductive Phase where
  | waiting
  | running
  | sleeping (ms : Nat)
  | finished
  deriving DecidableEq

/-- `invoked` are the `deliveryAttempt`s the listener was called with, `outcomes` how the calls
settled. -/
structure Delivery (L : Type) where
  fn : L
  maxRetries : Nat
  attempt : Nat
  phase : Phase
  invoked : List Nat
  outcomes : List Outcome

variable {L P : Type}

def Delivery.new (fn : L) : Delivery L := ⟨fn, 0, 0, .waiting, [], []⟩

/-- `while (attempt <= maxRetries)` up to the `await`. -/
def Delivery.loopHead (d : Delivery L) : Delivery L :=
  if d.attempt ≤ d.maxRetries then
    { d with phase := .running, invoked := d.invoked ++ [d.attempt + 1] }
  else { d with phase := .finished }

/-- `let attempt = 0` and the first round of the loop. -/
def Delivery.start (maxRetries : Nat) (d : Delivery L) : Delivery L :=
  { d with maxRetries, attempt := 0 }.loopHead

def Delivery.resolve (d : Delivery L) : Delivery L :=
  { d with phase := .finished, outcomes := d.outcomes ++ [Outcome.resolved] }

/-- The `catch` block: out of attempts, or the backoff before the next one. -/
def Delivery.reject (d : Delivery L) : Delivery L :=
  let d := { d with attempt := d.attempt + 1, outcomes := d.outcomes ++ [Outcome.rejected] }
  if d.attempt > d.maxRetries then { d with phase := .finished }
  else { d with phase := .sleeping (backoffMs d.attempt) }

structure Emission (L P : Type) where
  envelope : EventEnvelope P
  deliveries : List (Delivery L)
  delivered : Nat
  failed : Nat
  deadLettered : Nat

def Emission.new (c : EmitCall P) (fns : List L) : Emission L P :=
  ⟨c.envelope, fns.map .new, 0, 0, 0⟩

def Emission.setDelivery (j : Nat) (d : Delivery L) (em : Emission L P) : Emission L P :=
  { em with deliveries := em.deliveries.set j d }

/-- `Promise.all` has resolved. -/
def Emission.settled (em : Emission L P) : Bool := em.deliveries.all (·.phase = .finished)

def Emission.result (em : Emission L P) : EventDeliveryResult :=
  ⟨em.envelope.eventId, em.delivered, em.failed, em.deadLettered⟩

/-- What moves a retry loop: the fan-out reaches it, its listener settles, its backoff is over. -/
inductive Act where
  | start
  | resolves
  | rejects (reason : String) (now : Nat)
  | wakes

/-- The bookkeeping of the `catch` block for a loop that is now `d`. -/
def Emission.caught (j : Nat) (d : Delivery L) (reason : String) (now : Nat) (em : Emission L P) :
    Emission L P × Option (DeadLetteredEvent P) :=
  if d.attempt > d.maxRetries then
    ({ em.setDelivery j d with deadLettered := em.deadLettered + 1, failed := em.failed + 1 },
      some { envelope := em.envelope, reason, failedAt := now, attempts := d.attempt })
  else (em.setDelivery j d, none)

/-- One step of the `j`-th retry loop, and the dead letter it leaves. -/
def Emission.advance (maxRetriesOf : L → Nat) (j : Nat) (em : Emission L P) (act : Act) :
    Option (Emission L P × Option (DeadLetteredEvent P)) :=
  match em.deliveries[j]? with
  | none => none
  | some d =>
    match act, d.phase with
    | .start, .waiting =>
      -- `map` calls the async functions one after another
      if (em.deliveries.take j).all (·.phase ≠ .waiting) then
        some (em.setDelivery j (d.start (maxRetriesOf d.fn)), none)
      else none
    | .resolves, .running =>
      some ({ em.setDelivery j d.resolve with delivered := em.delivered + 1 }, none)
    | .rejects reason now, .running => some (em.caught j d.reject reason now)
    | .wakes, .sleeping _ => some (em.setDelivery j d.loopHead, none)
    | _, _ => none

/-! ## One retry loop -/

/-- The attempts end at the first success, or with the last one that the budget allows. -/
def Stopped (maxRetries : Nat) (outcomes : List Outcome) : Prop :=
  (∃ k ≤ maxRetries, outcomes = List.replicate k .rejected ++ [.resolved]) ∨
    outcomes = List.replicate (maxRetries + 1) .rejected

def Delivery.succeeded (d : Delivery L) : Bool := .resolved ∈ d.outcomes

def Delivery.exhausted (d : Delivery L) : Bool :=
  d.outcomes = List.replicate (d.maxRetries + 1) .rejected

/-- The steps a retry loop has made. -/
def Delivery.steps (d : Delivery L) : Nat := d.invoked.length + d.outcomes.length

def Delivery.Inv (d : Delivery L) : Prop :=
  match d.phase with
  | .waiting => d.invoked = [] ∧ d.outcomes = []
  | .running =>
    d.attempt ≤ d.maxRetries ∧ d.outcomes = List.replicate d.attempt .rejected ∧
      d.invoked = List.range' 1 (d.attempt + 1)
  | .sleeping _ =>
    d.attempt ≤ d.maxRetries ∧ d.outcomes = List.replicate d.attempt .rejected ∧
      d.invoked = List.range' 1 d.attempt
  | .finished => Stopped d.maxRetries d.outcomes ∧ d.invoked = List.range' 1 d.outcomes.length

theorem Stopped.length_le {m : Nat} {outcomes : List Outcome} (h : Stopped m outcomes) :
    outcomes.length ≤ m + 1 := by
  rcases h with ⟨k, hk, rfl⟩ | rfl
  · simpa using hk
  · simp

theorem Delivery.Inv.invoked_eq {d : Delivery L} (h : d.Inv) :
    d.invoked = List.range' 1 d.invoked.length := by
  unfold Inv at h
  split at h
  · rw [h.1]; rfl
  · rw [h.2.2]; simp
  · rw [h.2.2]; simp
  · rw [h.2]; simp

theorem Delivery.Inv.invoked_le {d : Delivery L} (h : d.Inv) :
    d.invoked.length ≤ d.maxRetries + 1 := by
  unfold Inv at h
  split at h
  · simp [h.1]
  · simpa [h.2.2] using h.1
  · simp [h.2.2]; omega
  · simpa [h.2] using h.1.length_le

theorem Delivery.Inv.outcomes_le {d : Delivery L} (h : d.Inv) :
    d.outcomes.length ≤ d.maxRetries + 1 := by
  unfold Inv at h
  split at h
  · simp [h.2]
  · simp [h.2.1]; omega
  · simp [h.2.1]; omega
  · exact h.1.length_le

theorem Delivery.Inv.steps_le {d : Delivery L} (h : d.Inv) : d.steps ≤ 2 * (d.maxRetries + 1) := by
  have hi := h.invoked_le
  have ho := h.outcomes_le
  unfold steps
  omega

/-- An unfinished loop has neither delivered nor given up. -/
theorem Delivery.Inv.unfinished {d : Delivery L} (h : d.Inv) (hd : d.phase ≠ .finished) :
    d.succeeded = false ∧ d.exhausted = false := by
  have hrej : ∃ k ≤ d.maxRetries, d.outcomes = List.replicate k .rejected := by
    unfold Inv at h
    split at h
    · exact ⟨0, by omega, h.2⟩
    · exact ⟨d.attempt, h.1, h.2.1⟩
    · exact ⟨d.attempt, h.1, h.2.1⟩
    · rename_i hphase
      exact absurd hphase hd
  obtain ⟨k, hk, houtcomes⟩ := hrej
  constructor
  · simp [succeeded, houtcomes]
  · simp only [exhausted, houtcomes, decide_eq_false_iff_not]
    intro heq
    have hlen := congrArg List.length heq
    simp at hlen
    omega

/-- A finished loop has done one of the two. -/
theorem Delivery.Inv.finished {d : Delivery L} (h : d.Inv) (hd : d.phase = .finished) :
    Stopped d.maxRetries d.outcomes ∧ d.exhausted = !d.succeeded := by
  have hstop : Stopped d.maxRetries d.outcomes := by
    simp only [Inv, hd] at h
    exact h.1
  refine ⟨hstop, ?_⟩
  rcases hstop with ⟨k, hk, houtcomes⟩ | houtcomes
  · have hsucc : d.succeeded = true := by simp [succeeded, houtcomes]
    rw [hsucc]
    simp only [exhausted, Bool.not_true, decide_eq_false_iff_not]
    intro hrej
    have hmem : Outcome.resolved ∈ d.outcomes := by simp [houtcomes]
    rw [hrej] at hmem
    cases List.eq_of_mem_replicate hmem
  · simp [succeeded, exhausted, houtcomes]

/-! ## One step of an emission -/

/-- What a step of the `j`-th retry loop does. -/
structure Advanced (maxRetriesOf : L → Nat) (j : Nat) (em em' : Emission L P) (d d' : Delivery L)
    (letter : Option (DeadLetteredEvent P)) : Prop where
  before : em.deliveries[j]? = some d
  unfinished : d.phase ≠ .finished
  deliveries_eq : em'.deliveries = em.deliveries.set j d'
  envelope_eq : em'.envelope = em.envelope
  fn_eq : d'.fn = d.fn
  maxRetries_eq : d'.maxRetries = if d.phase = .waiting then maxRetriesOf d.fn else d.maxRetries
  started : d'.phase ≠ .waiting
  steps_eq : d'.steps = d.steps + 1
  inv : d'.Inv
  delivered_eq : em'.delivered = em.delivered + d'.succeeded.toNat
  deadLettered_eq : em'.deadLettered = em.deadLettered + d'.exhausted.toNat
  failed_eq : em'.failed = em.failed + d'.exhausted.toNat
  letter_eq : letter.toList.map (·.attempts) = if d'.exhausted then [d'.maxRetries + 1] else []

theorem loopHead_eq {d : Delivery L} (h : d.attempt ≤ d.maxRetries) :
    d.loopHead = { d with phase := .running, invoked := d.invoked ++ [d.attempt + 1] } :=
  if_pos h

theorem start_spec {d : Delivery L} (h : d.Inv) (hd : d.phase = .waiting) (m : Nat) :
    (d.start m).Inv ∧ (d.start m).phase = .running ∧ (d.start m).maxRetries = m ∧
      (d.start m).fn = d.fn ∧ (d.start m).steps = d.steps + 1 := by
  simp only [Delivery.Inv, hd] at h
  unfold Delivery.start
  rw [loopHead_eq (Nat.zero_le _)]
  refine ⟨by simp [Delivery.Inv, h], rfl, rfl, rfl, ?_⟩
  simp only [Delivery.steps, List.length_append, List.length_singleton]
  omega

theorem loopHead_spec {d : Delivery L} (h : d.Inv) {ms : Nat} (hd : d.phase = .sleeping ms) :
    d.loopHead.Inv ∧ d.loopHead.phase = .running ∧ d.loopHead.maxRetries = d.maxRetries ∧
      d.loopHead.fn = d.fn ∧ d.loopHead.steps = d.steps + 1 := by
  simp only [Delivery.Inv, hd] at h
  obtain ⟨hattempt, houtcomes, hinvoked⟩ := h
  rw [loopHead_eq hattempt]
  refine ⟨⟨hattempt, houtcomes, ?_⟩, rfl, rfl, rfl, ?_⟩
  · show d.invoked ++ [d.attempt + 1] = List.range' 1 (d.attempt + 1)
    rw [hinvoked, List.range'_concat, Nat.one_mul, Nat.add_comm 1]
  · simp only [Delivery.steps, List.length_append, List.length_singleton]
    omega

theorem resolve_spec {d : Delivery L} (h : d.Inv) (hd : d.phase = .running) :
    d.resolve.Inv ∧ d.resolve.succeeded = true ∧ d.resolve.steps = d.steps + 1 := by
  simp only [Delivery.Inv, hd] at h
  obtain ⟨hattempt, houtcomes, hinvoked⟩ := h
  refine ⟨⟨.inl ⟨d.attempt, hattempt, ?_⟩, ?_⟩, ?_, ?_⟩
  · show d.outcomes ++ [Outcome.resolved] = _
    rw [houtcomes]
  · show d.invoked = List.range' 1 (d.outcomes ++ [Outcome.resolved]).length
    rw [hinvoked, houtcomes]
    simp
  · simp [Delivery.succeeded, Delivery.resolve]
  · simp only [Delivery.steps, Delivery.resolve, List.length_append, List.length_singleton]
    omega

theorem reject_spec {d : Delivery L} (h : d.Inv) (hd : d.phase = .running) :
    d.reject.Inv ∧ d.reject.phase ≠ .waiting ∧ d.reject.maxRetries = d.maxRetries ∧
      d.reject.fn = d.fn ∧ d.reject.steps = d.steps + 1 ∧ d.reject.attempt = d.attempt + 1 ∧
      d.reject.succeeded = false ∧ (d.reject.exhausted = true ↔ d.attempt + 1 > d.maxRetries) := by
  simp only [Delivery.Inv, hd] at h
  obtain ⟨hattempt, houtcomes, hinvoked⟩ := h
  have hrej : d.outcomes ++ [Outcome.rejected] = List.replicate (d.attempt + 1) .rejected := by
    rw [houtcomes, List.replicate_succ']
  unfold Delivery.reject
  simp only
  split
  · rename_i hlast
    have heq : d.attempt = d.maxRetries := by omega
    refine ⟨⟨.inr ?_, ?_⟩, by simp, rfl, rfl, ?_, rfl, ?_, ?_⟩
    · show d.outcomes ++ [Outcome.rejected] = List.replicate (d.maxRetries + 1) .rejected
      rw [hrej, heq]
    · show d.invoked = List.range' 1 (d.outcomes ++ [Outcome.rejected]).length
      rw [hrej, hinvoked, List.length_replicate]
    · simp only [Delivery.steps, List.length_append, List.length_singleton]
      omega
    · simp [Delivery.succeeded, hrej]
    · simp [Delivery.exhausted, hrej, heq]
  · rename_i hmore
    refine ⟨⟨by simp only; omega, hrej, hinvoked⟩, by simp, rfl, rfl, ?_, rfl, ?_, ?_⟩
    · simp only [Delivery.steps, List.length_append, List.length_singleton]
      omega
    · simp [Delivery.succeeded, hrej]
    · simp only [Delivery.exhausted, hrej, decide_eq_true_eq]
      constructor
      · intro heq
        have hlen := congrArg List.length heq
        simp only [List.length_replicate] at hlen
        omega
      · omega

/-- A step after which the loop is still running or sleeping touches no counter. -/
theorem advanced_running {maxRetriesOf : L → Nat} {j : Nat} {em : Emission L P} {d d' : Delivery L}
    (hd : em.deliveries[j]? = some d) (hphase : d.phase ≠ .finished) (hinv : d'.Inv)
    (hrun : d'.phase = .running) (hfn : d'.fn = d.fn)
    (hmax : d'.maxRetries = if d.phase = .waiting then maxRetriesOf d.fn else d.maxRetries)
    (hsteps : d'.steps = d.steps + 1) :
    Advanced maxRetriesOf j em (em.setDelivery j d') d d' none := by
  obtain ⟨hs, he⟩ := hinv.unfinished (by simp [hrun])
  exact ⟨hd, hphase, rfl, rfl, hfn, hmax, by simp [hrun], hsteps, hinv,
    by simp [hs, Emission.setDelivery], by simp [he, Emission.setDelivery],
    by simp [he, Emission.setDelivery], by simp [he]⟩

theorem advance_cases {maxRetriesOf : L → Nat} {j : Nat} {em em' : Emission L P} {act : Act}
    {letter : Option (DeadLetteredEvent P)} (hinv : ∀ d ∈ em.deliveries, d.Inv)
    (h : em.advance maxRetriesOf j act = some (em', letter)) :
    ∃ d d', Advanced maxRetriesOf j em em' d d' letter := by
  unfold Emission.advance at h
  split at h
  · cases h
  · rename_i d hd
    have hd_inv := hinv d (List.mem_of_getElem? hd)
    split at h
    · rename_i hphase
      split at h
      · cases h
        obtain ⟨hi, hrun, hmax, hfn, hsteps⟩ := start_spec hd_inv hphase (maxRetriesOf d.fn)
        exact ⟨d, _, advanced_running hd (by simp [hphase]) hi hrun hfn (by simp [hmax, hphase])
          hsteps⟩
      · cases h
    · rename_i hphase
      cases h
      obtain ⟨hi, hs, hsteps⟩ := resolve_spec hd_inv hphase
      have he : d.resolve.exhausted = false := by
        rw [(hi.finished rfl).2, hs]
        rfl
      exact ⟨d, _, hd, by simp [hphase], rfl, rfl, rfl, by simp [hphase, Delivery.resolve],
        by simp [Delivery.resolve], hsteps, hi, by simp [hs], by simp [he, Emission.setDelivery],
        by simp [he, Emission.setDelivery], by simp [he]⟩
    · rename_i reason now hphase
      obtain ⟨hi, hwait, hmax, hfn, hsteps, hattempt, hs, he⟩ := reject_spec hd_inv hphase
      have h := Option.some.inj h
      have hmax' : d.reject.maxRetries =
          if d.phase = .waiting then maxRetriesOf d.fn else d.maxRetries := by
        simp [hmax, hphase]
      unfold Emission.caught at h
      rw [hattempt, hmax] at h
      split at h
      · rename_i hlast
        cases h
        have hex := he.2 hlast
        have heq : d.attempt + 1 = d.reject.maxRetries + 1 := by
          simp only [Delivery.Inv, hphase] at hd_inv
          omega
        exact ⟨d, _, hd, by simp [hphase], rfl, rfl, hfn, hmax', hwait, hsteps, hi,
          by simp [hs, Emission.setDelivery], by simp [hex], by simp [hex], by simp [hex, heq]⟩
      · rename_i hmore
        cases h
        have hex : d.reject.exhausted = false := by
          rw [Bool.eq_false_iff]
          exact fun hex => hmore (he.1 hex)
        exact ⟨d, _, hd, by simp [hphase], rfl, rfl, hfn, hmax', hwait, hsteps, hi,
          by simp [hs, Emission.setDelivery], by simp [hex, Emission.setDelivery],
          by simp [hex, Emission.setDelivery], by simp [hex]⟩
    · rename_i ms hphase
      cases h
      obtain ⟨hi, hrun, hmax, hfn, hsteps⟩ := loopHead_spec hd_inv hphase
      exact ⟨d, _, advanced_running hd (by simp [hphase]) hi hrun hfn (by simp [hmax, hphase])
        hsteps⟩
    · cases h

/-! ### The counters of an emission -/

structure Emission.Inv (em : Emission L P) : Prop where
  loops : ∀ d ∈ em.deliveries, d.Inv
  delivered_eq : em.delivered = em.deliveries.countP Delivery.succeeded
  deadLettered_eq : em.deadLettered = em.deliveries.countP Delivery.exhausted
  failed_eq : em.failed = em.deadLettered

theorem Emission.Inv.new (c : EmitCall P) (fns : List L) : (Emission.new c fns).Inv := by
  have hloops : ∀ d ∈ (Emission.new c fns).deliveries, d.Inv ∧ d.phase ≠ .finished := by
    intro d hd
    obtain ⟨fn, _, rfl⟩ := List.mem_map.1 hd
    exact ⟨⟨rfl, rfl⟩, by simp [Delivery.new]⟩
  have hcount := fun d hd => (hloops d hd).1.unfinished (hloops d hd).2
  refine ⟨fun d hd => (hloops d hd).1, ?_, ?_, rfl⟩
  · show 0 = _
    rw [eq_comm, List.countP_eq_zero]
    exact fun d hd => by simp [(hcount d hd).1]
  · show 0 = _
    rw [eq_comm, List.countP_eq_zero]
    exact fun d hd => by simp [(hcount d hd).2]

theorem countP_set_unfinished {p : Delivery L → Bool} {ds : List (Delivery L)} {j : Nat}
    {d d' : Delivery L} (hd : ds[j]? = some d) (hp : p d = false) :
    (ds.set j d').countP p = ds.countP p + (p d').toNat := by
  obtain ⟨hj, rfl⟩ := List.getElem?_eq_some_iff.1 hd
  rw [List.countP_set hj, hp]
  cases p d' <;> simp

theorem map_fn_set {ds : List (Delivery L)} {j : Nat} {d d' : Delivery L} (hd : ds[j]? = some d)
    (hfn : d'.fn = d.fn) : (ds.set j d').map Delivery.fn = ds.map Delivery.fn := by
  obtain ⟨hj, rfl⟩ := List.getElem?_eq_some_iff.1 hd
  have hj' : j < (ds.map Delivery.fn).length := by rwa [List.length_map]
  have hat : (ds.map Delivery.fn)[j] = ds[j].fn := List.getElem_map ..
  rw [List.map_set, hfn, ← hat, List.set_getElem_self hj']

theorem sum_steps_set {ds : List (Delivery L)} {j : Nat} {d d' : Delivery L}
    (hd : ds[j]? = some d) (hsteps : d'.steps = d.steps + 1) :
    ((ds.set j d').map Delivery.steps).sum = (ds.map Delivery.steps).sum + 1 := by
  induction ds generalizing j with
  | nil => cases hd
  | cons x ds ih =>
    cases j with
    | zero =>
      cases hd
      simp only [List.set_cons_zero, List.map_cons, List.sum_cons]
      omega
    | succ j =>
      have ih := ih hd
      simp only [List.set_cons_succ, List.map_cons, List.sum_cons]
      omega

theorem Advanced.emission_inv {maxRetriesOf : L → Nat} {j : Nat} {em em' : Emission L P}
    {d d' : Delivery L} {letter : Option (DeadLetteredEvent P)}
    (h : Advanced maxRetriesOf j em em' d d' letter) (hem : em.Inv) : em'.Inv := by
  obtain ⟨hs, he⟩ := (hem.loops d (List.mem_of_getElem? h.before)).unfinished h.unfinished
  refine ⟨fun x hx => ?_, ?_, ?_, ?_⟩
  · rw [h.deliveries_eq] at hx
    rcases List.mem_or_eq_of_mem_set hx with hx | rfl
    · exact hem.loops x hx
    · exact h.inv
  · rw [h.delivered_eq, h.deliveries_eq, countP_set_unfinished h.before hs, hem.delivered_eq]
  · rw [h.deadLettered_eq, h.deliveries_eq, countP_set_unfinished h.before he,
      hem.deadLettered_eq]
  · rw [h.failed_eq, h.deadLettered_eq, hem.failed_eq]

/-- Once `emit` has settled, every listener was delivered to or dead-lettered. -/
theorem Emission.Inv.settled {em : Emission L P} (h : em.Inv) (hs : em.settled = true) :
    em.result.delivered + em.result.deadLettered = em.deliveries.length ∧
      em.result.failed = em.result.deadLettered := by
  refine ⟨?_, h.failed_eq⟩
  have hboth : em.deliveries.countP Delivery.exhausted =
      em.deliveries.countP fun d => !d.succeeded := by
    refine List.countP_congr fun d hd => ?_
    have hphase : d.phase = .finished := by simpa using List.all_eq_true.1 hs d hd
    rw [((h.loops d hd).finished hphase).2]
  show em.delivered + em.deadLettered = _
  rw [h.delivered_eq, h.deadLettered_eq, hboth,
    List.length_eq_countP_add_countP Delivery.succeeded]
  simp

/-- An emission that has not settled can take a step. -/
theorem advance_enabled (maxRetriesOf : L → Nat) {em : Emission L P} (h : em.settled = false) :
    ∃ j act, (em.advance maxRetriesOf j act).isSome := by
  obtain ⟨d, hd, hphase⟩ : ∃ d ∈ em.deliveries, d.phase ≠ .finished := by
    simpa [Emission.settled] using h
  obtain ⟨j, hj⟩ := List.mem_iff_getElem?.1 hd
  cases hp : d.phase with
  | running => exact ⟨j, .resolves, by simp [Emission.advance, hj, hp]⟩
  | sleeping ms => exact ⟨j, .wakes, by simp [Emission.advance, hj, hp]⟩
  | finished => exact absurd hp hphase
  | waiting =>
    -- the fan-out reaches the first of the waiting ones next
    have hsome : (em.deliveries.find? (·.phase = .waiting)).isSome := by
      rw [List.find?_isSome]
      exact ⟨d, hd, by simp [hp]⟩
    obtain ⟨x, hx⟩ := Option.isSome_iff_exists.1 hsome
    obtain ⟨hwait, before, after, heq, hbefore⟩ := List.find?_eq_some_iff_append.1 hx
    have hall : ∀ y ∈ before, y.phase ≠ .waiting := fun y hy => by simpa using hbefore y hy
    exact ⟨before.length, .start, by simpa [Emission.advance, heq, of_decide_eq_true hwait]
      using hall⟩

/-! ## The bus -/

/-- `pushes` is the history of the dead letter queue: every entry with the emission and the
delivery it came from. -/
structure Bus (L P : Type) where
  listeners : JsMap String (List L)
  listenerMaxRetries : JsMap L Nat
  deadLetterQueue : List (DeadLetteredEvent P)
  emissions : List (Emission L P)
  pushes : List (Nat × Nat × DeadLetteredEvent P)

inductive BusEvent (L P : Type) where
  | on (event : String) (listener : L) (maxRetries : Option Nat)
  | off (event : String)
  | clearAllListeners
  | clearDeadLetterQueue
  | emit (call : EmitCall P)
  | advance (e j : Nat) (act : Act)

variable [DecidableEq L]

def Bus.listenersOf (event : String) (s : Bus L P) : List L := (s.listeners.get event).getD []

def Bus.maxRetriesOf (s : Bus L P) (fn : L) : Nat :=
  (s.listenerMaxRetries.get fn).getD DEFAULT_MAX_RETRIES

def on (event : String) (listener : L) (maxRetries : Option Nat) (s : Bus L P) : Bus L P where
  listeners := s.listeners.set event (s.listenersOf event ++ [listener])
  listenerMaxRetries :=
    match maxRetries with
    | some m => s.listenerMaxRetries.set listener m
    | none => s.listenerMaxRetries
  deadLetterQueue := s.deadLetterQueue
  emissions := s.emissions
  pushes := s.pushes

def Bus.step (s : Bus L P) : BusEvent L P → Option (Bus L P)
  | .on event listener maxRetries => some (on event listener maxRetries s)
  | .off event => some { s with listeners := s.listeners.delete event }
  | .clearAllListeners => some { s with listeners := .empty }
  | .clearDeadLetterQueue => some { s with deadLetterQueue := [] }
  | .emit call =>
    some { s with emissions := s.emissions ++ [.new call (s.listenersOf call.event)] }
  | .advance e j act =>
    match s.emissions[e]? with
    | none => none
    | some em =>
      (em.advance s.maxRetriesOf j act).map fun (em, letter) =>
        { s with
          emissions := s.emissions.set e em
          deadLetterQueue := s.deadLetterQueue ++ letter.toList
          pushes := s.pushes ++ letter.toList.map fun l => (e, j, l) }

def bus (L P : Type) [DecidableEq L] : Machine (Bus L P) (BusEvent L P) where
  init := ⟨.empty, .empty, [], [], []⟩
  step := Bus.step

/-! ## Runs of the bus -/

/-- The dead letters that the `j`-th delivery of the emission `e` has left. -/
def Bus.lettersOf (e j : Nat) (s : Bus L P) : List (DeadLetteredEvent P) :=
  (s.pushes.filter fun p => p.1 = e ∧ p.2.1 = j).map (·.2.2)

def Bus.delivery (e j : Nat) (s : Bus L P) : Option (Delivery L) :=
  s.emissions[e]?.bind (·.deliveries[j]?)

def BusEvent.advances (e : Nat) : BusEvent L P → Bool
  | .advance e' _ _ => e' = e
  | _ => false

def BusEvent.setsBudget : BusEvent L P → Bool
  | .on _ _ (some _) => true
  | _ => false

def BusEvent.clears : BusEvent L P → Bool
  | .clearDeadLetterQueue => true
  | _ => false

def Bus.stepsOf (e : Nat) (s : Bus L P) : Nat :=
  (s.emissions[e]?.map fun em => (em.deliveries.map Delivery.steps).sum).getD 0

/-- What a step of the bus does to the emissions. -/
theorem step_cases {s s' : Bus L P} {ev : BusEvent L P} (hinv : ∀ em ∈ s.emissions, em.Inv)
    (h : s.step ev = some s') :
    ((∀ e, ev.advances e = false) ∧ s'.emissions = s.emissions ∧ s'.pushes = s.pushes ∧
      (ev.clears = false → s'.deadLetterQueue = s.deadLetterQueue)) ∨
    (∃ call, ev = .emit call ∧
      s' = { s with emissions := s.emissions ++ [.new call (s.listenersOf call.event)] }) ∨
    ∃ e j act em em' d d' letter, ev = .advance e j act ∧ s.emissions[e]? = some em ∧
      Advanced s.maxRetriesOf j em em' d d' letter ∧ s' = { s with
        emissions := s.emissions.set e em'
        deadLetterQueue := s.deadLetterQueue ++ letter.toList
        pushes := s.pushes ++ letter.toList.map fun l => (e, j, l) } := by
  cases ev with
  | advance e j act =>
    simp only [Bus.step] at h
    split at h
    · cases h
    · rename_i em hem
      obtain ⟨⟨em', letter⟩, hadv, heq⟩ := Option.map_eq_some_iff.1 h
      cases heq
      obtain ⟨d, d', hd⟩ := advance_cases (hinv em (List.mem_of_getElem? hem)).loops hadv
      exact .inr (.inr ⟨e, j, act, em, em', d, d', letter, rfl, hem, hd, rfl⟩)
  | emit call =>
    cases h
    exact .inr (.inl ⟨call, rfl, rfl⟩)
  | on event listener maxRetries =>
    cases h
    exact .inl ⟨fun _ => rfl, rfl, rfl, fun _ => rfl⟩
  | off event | clearAllListeners | clearDeadLetterQueue =>
    cases h
    exact .inl ⟨fun _ => rfl, rfl, rfl, by simp [BusEvent.clears]⟩

structure BusInv (es : List (BusEvent L P)) (s : Bus L P) : Prop where
  emissions : ∀ em ∈ s.emissions, em.Inv
  letters : ∀ e j, (s.lettersOf e j).map (·.attempts) =
    match s.delivery e j with
    | some d => if d.exhausted then [d.maxRetries + 1] else []
    | none => []
  steps : ∀ e, es.countP (·.advances e) = s.stepsOf e
  queue : es.any BusEvent.clears = false → s.deadLetterQueue = s.pushes.map (·.2.2)

theorem BusInv.init : BusInv [] (bus L P).init := by
  refine ⟨fun em hem => ?_, fun _ _ => rfl, fun _ => rfl, fun _ => rfl⟩
  cases hem

section Updates

variable {s : Bus L P} {e : Nat} {em : Emission L P}

omit [DecidableEq L]

theorem delivery_eq (h : s.emissions[e]? = some em) (j : Nat) :
    s.delivery e j = em.deliveries[j]? := by
  simp [Bus.delivery, h]

theorem stepsOf_eq (h : s.emissions[e]? = some em) :
    s.stepsOf e = (em.deliveries.map Delivery.steps).sum := by
  simp [Bus.stepsOf, h]

/-- A new emission has made no step and left no letter. -/
theorem emit_frame (call : EmitCall P) (fns : List L) (e j : Nat) :
    let s' := { s with emissions := s.emissions ++ [Emission.new call fns] }
    s'.stepsOf e = s.stepsOf e ∧
      (s'.delivery e j = s.delivery e j ∨
        s.delivery e j = none ∧ ∀ d, s'.delivery e j = some d → d.exhausted = false) := by
  intro s'
  have hinv := Emission.Inv.new call fns
  by_cases he : e < s.emissions.length
  · have hget : s'.emissions[e]? = s.emissions[e]? := List.getElem?_append_left he
    simp [Bus.stepsOf, Bus.delivery, hget]
  · have hnone : s.emissions[e]? = none := List.getElem?_eq_none (by omega)
    by_cases heq : e = s.emissions.length
    · have hget : s'.emissions[e]? = some (.new call fns) := by
        simp [s', heq]
      refine ⟨?_, .inr ⟨by simp [Bus.delivery, hnone], fun d hd => ?_⟩⟩
      · simp [Bus.stepsOf, hnone, hget, Emission.new, Delivery.steps, Delivery.new,
          Function.comp_def]
      · rw [delivery_eq hget] at hd
        have hmem := List.mem_of_getElem? hd
        obtain ⟨fn, _, rfl⟩ := List.mem_map.1 hmem
        exact ((hinv.loops _ hmem).unfinished (by simp [Delivery.new])).2
    · have hget : s'.emissions[e]? = none := List.getElem?_eq_none (by simp [s']; omega)
      simp [Bus.stepsOf, Bus.delivery, hget, hnone]

/-- A step of the delivery `j` of the emission `e` touches no other. -/
theorem advance_frame {maxRetriesOf : L → Nat} {j : Nat} {em' : Emission L P} {d d' : Delivery L}
    {letter : Option (DeadLetteredEvent P)} (hem : s.emissions[e]? = some em)
    (hadv : Advanced maxRetriesOf j em em' d d' letter)
    {queue : List (DeadLetteredEvent P)} {pushes : List (Nat × Nat × DeadLetteredEvent P)}
    (e₁ j₁ : Nat) :
    let s' := { s with
      emissions := s.emissions.set e em', deadLetterQueue := queue, pushes := pushes }
    s'.delivery e₁ j₁ = (if e₁ = e ∧ j₁ = j then some d' else s.delivery e₁ j₁) ∧
      s'.stepsOf e₁ = s.stepsOf e₁ + if e₁ = e then 1 else 0 := by
  intro s'
  have hlt : e < s.emissions.length := (List.getElem?_eq_some_iff.1 hem).1
  have hjlt : j < em.deliveries.length := (List.getElem?_eq_some_iff.1 hadv.before).1
  by_cases he : e₁ = e
  · subst he
    have hget : s'.emissions[e₁]? = some em' := List.getElem?_set_self hlt
    refine ⟨?_, ?_⟩
    · rw [delivery_eq hget, delivery_eq hem, hadv.deliveries_eq]
      by_cases hj : j₁ = j
      · subst hj
        simp [hjlt]
      · simp [hj, List.getElem?_set_ne (Ne.symm hj)]
    · rw [stepsOf_eq hget, stepsOf_eq hem, hadv.deliveries_eq,
        sum_steps_set hadv.before hadv.steps_eq, if_pos rfl]
  · have hget : s'.emissions[e₁]? = s.emissions[e₁]? := List.getElem?_set_ne (Ne.symm he)
    simp [Bus.delivery, Bus.stepsOf, hget, he]

end Updates

theorem BusInv.step {es : List (BusEvent L P)} {s s' : Bus L P} {ev : BusEvent L P}
    (hs : BusInv es s) (h : s.step ev = some s') : BusInv (es ++ [ev]) s' := by
  have hqueue : (es ++ [ev]).any BusEvent.clears = false →
      s.deadLetterQueue = s.pushes.map (·.2.2) ∧ ev.clears = false := by
    intro hany
    simp only [List.any_append, List.any_cons, List.any_nil, Bool.or_false,
      Bool.or_eq_false_iff] at hany
    exact ⟨hs.queue hany.1, hany.2⟩
  rcases step_cases hs.emissions h with ⟨hev, hem, hpush, hclear⟩ | ⟨call, rfl, rfl⟩ |
    ⟨e, j, act, em, em', d, d', letter, rfl, hem, hadv, rfl⟩
  · refine ⟨by rw [hem]; exact hs.emissions, fun e j => ?_, fun e => ?_, fun hany => ?_⟩
    · have hletters := hs.letters e j
      simpa only [Bus.lettersOf, Bus.delivery, hem, hpush] using hletters
    · have hsteps := hs.steps e
      simpa [Bus.stepsOf, hem, hev] using hsteps
    · rw [hclear (hqueue hany).2, hpush, (hqueue hany).1]
  · refine ⟨fun em hmem => ?_, fun e j => ?_, fun e => ?_, fun hany => (hqueue hany).1⟩
    · rcases List.mem_append.1 hmem with hmem | hmem
      · exact hs.emissions em hmem
      · rw [List.mem_singleton.1 hmem]
        exact .new call _
    · have hletters := hs.letters e j
      rcases (emit_frame call (s.listenersOf call.event) e j).2 with heq | ⟨hnone, hnew⟩
      · rw [heq]
        exact hletters
      · rw [hnone] at hletters
        split
        · rename_i d hd
          rw [hnew d hd]
          exact hletters
        · exact hletters
    · rw [(emit_frame call (s.listenersOf call.event) e 0).1, ← hs.steps e]
      simp [BusEvent.advances]
  · have hem_inv := hs.emissions em (List.mem_of_getElem? hem)
    refine ⟨fun x hx => ?_, fun e₁ j₁ => ?_, fun e₁ => ?_, fun hany => ?_⟩
    · rcases List.mem_or_eq_of_mem_set hx with hx | rfl
      · exact hs.emissions x hx
      · exact hadv.emission_inv hem_inv
    · have hletters := hs.letters e₁ j₁
      rw [(advance_frame hem hadv e₁ j₁).1]
      by_cases hej : e₁ = e ∧ j₁ = j
      · obtain ⟨rfl, rfl⟩ := hej
        rw [delivery_eq hem, hadv.before] at hletters
        have hex := ((hem_inv.loops d (List.mem_of_getElem? hadv.before)).unfinished
          hadv.unfinished).2
        simp only [hex] at hletters
        rw [if_pos ⟨rfl, rfl⟩]
        simp only [Bus.lettersOf, List.filter_append, List.map_append] at hletters ⊢
        rw [hletters, ← hadv.letter_eq]
        cases letter <;> simp
      · rw [if_neg hej, ← hletters]
        have hother : ¬ (e = e₁ ∧ j = j₁) := fun h => hej ⟨h.1.symm, h.2.symm⟩
        simp only [Bus.lettersOf, List.filter_append, List.map_append]
        cases letter <;> simp [hother]
    · rw [(advance_frame hem hadv e₁ 0).2, ← hs.steps e₁, List.countP_append]
      by_cases he : e₁ = e
      · simp [BusEvent.advances, he]
      · simp [BusEvent.advances, he, Ne.symm he]
    · show s.deadLetterQueue ++ letter.toList =
        (s.pushes ++ letter.toList.map fun l => (e, j, l)).map (·.2.2)
      rw [(hqueue hany).1, List.map_append, List.map_map]
      simp [Function.comp_def]

theorem run_busInv {es : List (BusEvent L P)} {s : Bus L P} (h : (bus L P).run es = some s) :
    BusInv es s :=
  Machine.run_induction (P := BusInv) .init (fun _ _ _ _ _ hs hstep => hs.step hstep) h

/-- What the run after a call of `emit` keeps of it; `s₀` is the state before the call. -/
structure Emitted (s₀ s : Bus L P) (call : EmitCall P) (post : List (BusEvent L P))
    (em : Emission L P) : Prop where
  fns_eq : em.deliveries.map Delivery.fn = s₀.listenersOf call.event
  envelope_eq : em.envelope = call.envelope
  budgets : post.any BusEvent.setsBudget = false → s.maxRetriesOf = s₀.maxRetriesOf ∧
    ∀ d ∈ em.deliveries, d.phase ≠ .waiting → d.maxRetries = s₀.maxRetriesOf d.fn

theorem step_budgets {s s' : Bus L P} {ev : BusEvent L P} (h : s.step ev = some s')
    (hev : ev.setsBudget = false) : s'.maxRetriesOf = s.maxRetriesOf := by
  cases ev with
  | on event listener maxRetries =>
    cases maxRetries with
    | none => cases h; rfl
    | some m => cases hev
  | advance e j act =>
    simp only [Bus.step] at h
    split at h
    · cases h
    · obtain ⟨⟨em', letter⟩, _, rfl⟩ := Option.map_eq_some_iff.1 h
      rfl
  | off event | clearAllListeners | clearDeadLetterQueue | emit call =>
    cases h
    rfl

theorem run_emitted {pre post : List (BusEvent L P)} {call : EmitCall P} {s₀ s : Bus L P}
    (hpre : (bus L P).run pre = some s₀) (h : (bus L P).run (pre ++ .emit call :: post) = some s) :
    ∃ em, s.emissions[s₀.emissions.length]? = some em ∧ Emitted s₀ s call post em := by
  induction post using List.reverseRecOn generalizing s with
  | nil =>
    obtain ⟨t, ht, hstep⟩ := Machine.run_snoc_some h
    obtain rfl : s₀ = t := Option.some.inj (hpre.symm.trans ht)
    cases hstep
    refine ⟨.new call (s₀.listenersOf call.event), by simp, ?_, rfl, fun _ => ⟨rfl, ?_⟩⟩
    · simp [Emission.new, Delivery.new, Function.comp_def]
    · intro d hd hphase
      obtain ⟨fn, _, rfl⟩ := List.mem_map.1 hd
      exact absurd rfl hphase
  | append_singleton post ev ih =>
    rw [← List.cons_append, ← List.append_assoc] at h
    obtain ⟨t, ht, hstep⟩ := Machine.run_snoc_some h
    obtain ⟨em, hem, hemitted⟩ := ih ht
    have hinv := (run_busInv ht).emissions
    have hlt := (List.getElem?_eq_some_iff.1 hem).1
    have hbudgets : ∀ em' : Emission L P,
        (∀ d' ∈ em'.deliveries, d'.phase ≠ .waiting → ∃ d ∈ em.deliveries, d'.fn = d.fn ∧
          (d.phase ≠ .waiting ∧ d'.maxRetries = d.maxRetries ∨
            d'.maxRetries = t.maxRetriesOf d.fn)) →
        (post ++ [ev]).any BusEvent.setsBudget = false →
          s.maxRetriesOf = s₀.maxRetriesOf ∧
          ∀ d ∈ em'.deliveries, d.phase ≠ .waiting → d.maxRetries = s₀.maxRetriesOf d.fn := by
      intro em' hkeep hany
      simp only [List.any_append, List.any_cons, List.any_nil, Bool.or_false,
        Bool.or_eq_false_iff] at hany
      obtain ⟨htb, hdb⟩ := hemitted.budgets hany.1
      refine ⟨(step_budgets hstep hany.2).trans htb, fun d' hd' hphase => ?_⟩
      obtain ⟨d, hd, hfn, ⟨hd_phase, hmax⟩ | hmax⟩ := hkeep d' hd' hphase
      · rw [hmax, hfn, hdb d hd hd_phase]
      · rw [hmax, hfn, htb]
    have hsame : ∀ d' ∈ em.deliveries, d'.phase ≠ .waiting → ∃ d ∈ em.deliveries, d'.fn = d.fn ∧
        (d.phase ≠ .waiting ∧ d'.maxRetries = d.maxRetries ∨ d'.maxRetries = t.maxRetriesOf d.fn) :=
      fun d' hd' hphase => ⟨d', hd', rfl, .inl ⟨hphase, rfl⟩⟩
    rcases step_cases hinv hstep with ⟨_, heq, _, _⟩ | ⟨call', rfl, rfl⟩ |
      ⟨e, j, act, em₁, em', d, d', letter, rfl, hem₁, hadv, rfl⟩
    · exact ⟨em, by rw [heq]; exact hem, hemitted.fns_eq, hemitted.envelope_eq,
        hbudgets em hsame⟩
    · refine ⟨em, ?_, hemitted.fns_eq, hemitted.envelope_eq, hbudgets em hsame⟩
      show (t.emissions ++ _)[_]? = _
      rw [List.getElem?_append_left hlt, hem]
    · by_cases he : e = s₀.emissions.length
      · subst he
        obtain rfl : em₁ = em := Option.some.inj (hem₁.symm.trans hem)
        refine ⟨em', List.getElem?_set_self hlt, ?_, ?_, hbudgets em' fun x hx hphase => ?_⟩
        · rw [hadv.deliveries_eq, map_fn_set hadv.before hadv.fn_eq, hemitted.fns_eq]
        · rw [hadv.envelope_eq, hemitted.envelope_eq]
        · rw [hadv.deliveries_eq] at hx
          rcases List.mem_or_eq_of_mem_set hx with hx | rfl
          · exact hsame x hx hphase
          · refine ⟨d, List.mem_of_getElem? hadv.before, hadv.fn_eq, ?_⟩
            have hmax := hadv.maxRetries_eq
            split at hmax
            · exact .inr hmax
            · rename_i hwait
              exact .inl ⟨hwait, hmax⟩
      · refine ⟨em, ?_, hemitted.fns_eq, hemitted.envelope_eq, hbudgets em hsame⟩
        show (t.emissions.set e em')[_]? = _
        rw [List.getElem?_set_ne he, hem]

/-- The account of an emission: its counters once it has settled, the attempts of every listener
and the dead letters it leaves, and that it goes on until it has settled. -/
structure Accounted (s : Bus L P) (e : Nat) (em : Emission L P) : Prop where
  counters : em.settled = true →
    em.result.delivered + em.result.deadLettered = em.deliveries.length ∧
      em.result.failed = em.result.deadLettered
  attempts : ∀ d ∈ em.deliveries, d.invoked = List.range' 1 d.invoked.length ∧
    d.invoked.length ≤ d.maxRetries + 1
  stopped : ∀ d ∈ em.deliveries, d.phase = .finished →
    Stopped d.maxRetries d.outcomes ∧ d.invoked.length = d.outcomes.length
  letters : ∀ j d, em.deliveries[j]? = some d → (s.lettersOf e j).map (·.attempts) =
    if d.outcomes = List.replicate (d.maxRetries + 1) .rejected then [d.maxRetries + 1] else []
  goes_on : em.settled = false → ∃ j act, (s.step (.advance e j act)).isSome

theorem BusInv.accounted {es : List (BusEvent L P)} {s : Bus L P} (hs : BusInv es s) {e : Nat}
    {em : Emission L P} (hem : s.emissions[e]? = some em) : Accounted s e em := by
  have hinv := hs.emissions em (List.mem_of_getElem? hem)
  refine ⟨hinv.settled, fun d hd => ?_, fun d hd hphase => ?_, fun j d hd => ?_, fun hopen => ?_⟩
  · exact ⟨(hinv.loops d hd).invoked_eq, (hinv.loops d hd).invoked_le⟩
  · have hd_inv := hinv.loops d hd
    refine ⟨(hd_inv.finished hphase).1, ?_⟩
    simp only [Delivery.Inv, hphase] at hd_inv
    rw [hd_inv.2, List.length_range']
  · have hletters := hs.letters e j
    rw [delivery_eq hem, hd] at hletters
    simpa [Delivery.exhausted] using hletters
  · obtain ⟨j, act, hadv⟩ := advance_enabled s.maxRetriesOf hopen
    refine ⟨j, act, ?_⟩
    simpa [Bus.step, hem] using hadv

/-- **Delivery accounting.**  In every run, a call of `emit` reaches the listeners registered at
the call, with the account above; it makes at most `2 (r + 1)` steps for a listener of budget
`r`, and the budgets are those at the call unless `on` changes them meanwhile. -/
theorem emit_accounted {pre post : List (BusEvent L P)} {call : EmitCall P} {s₀ s : Bus L P}
    (hpre : (bus L P).run pre = some s₀)
    (h : (bus L P).run (pre ++ .emit call :: post) = some s) :
    ∃ em, s.emissions[s₀.emissions.length]? = some em ∧ Emitted s₀ s call post em ∧
      Accounted s s₀.emissions.length em ∧
      ((pre ++ .emit call :: post).any BusEvent.clears = false →
        s.deadLetterQueue = s.pushes.map (·.2.2)) ∧
      (pre ++ .emit call :: post).countP (·.advances s₀.emissions.length) ≤
        (em.deliveries.map fun d => 2 * (d.maxRetries + 1)).sum := by
  obtain ⟨em, hem, hemitted⟩ := run_emitted hpre h
  have hs := run_busInv h
  refine ⟨em, hem, hemitted, hs.accounted hem, hs.queue, ?_⟩
  have hloops := (hs.emissions em (List.mem_of_getElem? hem)).loops
  rw [hs.steps, stepsOf_eq hem]
  exact List.sum_le_sum fun d hd => (hloops d hd).steps_le

/-- Two listeners, the first without retries; it fails while the second succeeds on its retry. -/
def sampleCall : EmitCall Unit := ⟨"order.placed", (), none, "ibiz_evt_1", "ibiz_trc_1", 5⟩

def samplePost : List (BusEvent String Unit) :=
  [.advance 0 0 .start, .advance 0 1 .start, .advance 0 1 (.rejects "temporary failure" 6),
    .advance 0 0 (.rejects "permanent failure" 7), .advance 0 1 .wakes, .advance 0 1 .resolves]

theorem emit_accounted_sample : ∃ s em,
    (bus String Unit).run ([.on "order.placed" "a" (some 0), .on "order.placed" "b" none] ++
      .emit sampleCall :: samplePost) = some s ∧ s.emissions[0]? = some em ∧
      Accounted s 0 em ∧ em.settled = true ∧ em.result = ⟨"ibiz_evt_1", 1, 1, 1⟩ := by
  cases hrun : (bus String Unit).run ([.on "order.placed" "a" (some 0),
      .on "order.placed" "b" none] ++ .emit sampleCall :: samplePost) with
  | none => cases hrun
  | some s =>
    obtain ⟨em, hem, _, haccounted, _⟩ := emit_accounted rfl hrun
    cases hrun
    cases hem
    exact ⟨_, _, rfl, rfl, haccounted, rfl, rfl⟩

end Intellibiz.Core
