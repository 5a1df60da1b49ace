import Intellibiz.Core.Events

/-!
# Whose retry budget a listener has

`packages/core/src/events/bus.ts` keeps the retry budgets in `listenerMaxRetries`, keyed by the
listener function; `emit` reads the budget of a function when it starts to deliver to it.

* `Registered` — a registration with its options; `inForce` are those that no `off` or
  `clearAllListeners` has removed.
* `lastStated` — the `maxRetries` stated last for a function among some registrations.
* `Kept` — every registration that stated a budget for the function is still in force.

Principal results: `run_listenersOf` and `run_maxRetries` (what the two maps hold after a run) and
`retries_by_function`.
-/

namespace Intellibiz.Core

variable {L P : Type} [DecidableEq L]

/-! ## Registrations -/

/-- A call of `on`. -/
structure Registered (L : Type) where
  event : String
  listener : L
  maxRetries : Option Nat

def BusEvent.registered : BusEvent L P → Option (Registered L)
  | .on event listener maxRetries => some ⟨event, listener, maxRetries⟩
  | _ => none

/-- What an event of the bus does to the registrations in force. -/
def inForceAfter (rs : List (Registered L)) : BusEvent L P → List (Registered L)
  | .on event listener maxRetries => rs ++ [⟨event, listener, maxRetries⟩]
  | .off event => rs.filter fun r => r.event ≠ event
  | .clearAllListeners => []
  | _ => rs

def inForce (es : List (BusEvent L P)) : List (Registered L) := es.foldl inForceAfter []

/-- The registrations of an event that are in force, in order. -/
def registrations (event : String) (es : List (BusEvent L P)) : List (Registered L) :=
  (inForce es).filter fun r => r.event = event

/-- The budgets stated for a function, in order. -/
def stated (fn : L) (rs : List (Registered L)) : List Nat :=
  rs.filterMap fun r => if r.listener = fn then r.maxRetries else none

def lastStated (fn : L) (rs : List (Registered L)) : Option Nat := (stated fn rs).getLast?

/-- No registration that stated a budget for the function was removed. -/
def Kept (fn : L) (es : List (BusEvent L P)) : Prop :=
  ∀ before event m after, es = before ++ .on event fn (some m) :: after →
    .off event ∉ after ∧ .clearAllListeners ∉ after

omit [DecidableEq L] in
theorem inForce_snoc (es : List (BusEvent L P)) (ev : BusEvent L P) :
    inForce (es ++ [ev]) = inForceAfter (inForce es) ev := by
  simp [inForce, List.foldl_append]

theorem stated_append (fn : L) (rs more : List (Registered L)) :
    stated fn (rs ++ more) = stated fn rs ++ stated fn more :=
  List.filterMap_append

omit [DecidableEq L] in
theorem mem_of_inForce {es : List (BusEvent L P)} {r : Registered L} (h : r ∈ inForce es) :
    .on r.event r.listener r.maxRetries ∈ es := by
  induction es using List.reverseRecOn with
  | nil => cases h
  | append_singleton es ev ih =>
    rw [inForce_snoc] at h
    cases ev with
    | on event listener maxRetries =>
      rcases List.mem_append.1 h with h | h
      · exact List.mem_append_left _ (ih h)
      · rw [List.mem_singleton.1 h]
        simp
    | off event => exact List.mem_append_left _ (ih (List.mem_of_mem_filter h))
    | clearAllListeners => cases h
    | clearDeadLetterQueue | emit call | advance e j act => exact List.mem_append_left _ (ih h)

omit [DecidableEq L] in
theorem Kept.of_append {fn : L} {es more : List (BusEvent L P)} (h : Kept fn (es ++ more)) :
    Kept fn es := by
  rintro before event m after rfl
  obtain ⟨hoff, hclear⟩ := h before event m (after ++ more) (by simp)
  rw [List.mem_append, not_or] at hoff hclear
  exact ⟨hoff.1, hclear.1⟩

omit [DecidableEq L] in
/-- The last event removes no registration that stated a budget for the function. -/
theorem Kept.last {fn : L} {es : List (BusEvent L P)} {ev : BusEvent L P} {r : Registered L}
    {m : Nat} (h : Kept fn (es ++ [ev])) (hr : r ∈ inForce es) (hfn : r.listener = fn)
    (hm : r.maxRetries = some m) : ev ≠ .off r.event ∧ ev ≠ .clearAllListeners := by
  have hmem := mem_of_inForce hr
  rw [hfn, hm] at hmem
  obtain ⟨before, after, rfl⟩ := List.append_of_mem hmem
  obtain ⟨hoff, hclear⟩ := h before r.event m (after ++ [ev]) (by simp)
  constructor
  · rintro rfl
    exact hoff (by simp)
  · rintro rfl
    exact hclear (by simp)

/-- **Budgets whose registrations were kept** are those of the registrations in force. -/
theorem stated_inForce {fn : L} {es : List (BusEvent L P)} (h : Kept fn es) :
    stated fn (inForce es) = stated fn (es.filterMap BusEvent.registered) := by
  induction es using List.reverseRecOn with
  | nil => rfl
  | append_singleton es ev ih =>
    rw [inForce_snoc, List.filterMap_append, stated_append, ← ih h.of_append]
    cases ev with
    | on event listener maxRetries =>
      rw [inForceAfter, stated_append]
      rfl
    | off event =>
      have hfilter : stated fn ((inForce es).filter fun r => r.event ≠ event) =
          stated fn (inForce es) := by
        rw [stated, stated, List.filterMap_filter]
        refine List.filterMap_congr fun r hr => ?_
        by_cases hfn : r.listener = fn
        · cases hm : r.maxRetries with
          | none => simp
          | some m =>
            have hne : r.event ≠ event := by
              rintro rfl
              exact (h.last hr hfn hm).1 rfl
            simp [hne]
        · simp [hfn]
      rw [inForceAfter, hfilter]
      exact (List.append_nil _).symm
    | clearAllListeners =>
      have hnone : stated fn (inForce es) = [] := by
        rw [stated, List.filterMap_eq_nil_iff]
        intro r hr
        split
        · rename_i hfn
          cases hm : r.maxRetries with
          | none => rfl
          | some m => exact absurd rfl (h.last hr hfn hm).2
        · rfl
      rw [hnone]
      rfl
    | clearDeadLetterQueue | emit call | advance e j act => exact (List.append_nil _).symm

/-! ## The two maps after a run -/

omit [DecidableEq L] in
theorem registrations_snoc (event : String) (es : List (BusEvent L P)) (ev : BusEvent L P) :
    registrations event (es ++ [ev]) =
      (inForceAfter (inForce es) ev).filter fun r => r.event = event := by
  rw [registrations, inForce_snoc]

theorem advance_maps {s s' : Bus L P} {e j : Nat} {act : Act}
    (h : s.step (.advance e j act) = some s') :
    s'.listeners = s.listeners ∧ s'.listenerMaxRetries = s.listenerMaxRetries := by
  simp only [Bus.step] at h
  split at h
  · cases h
  · obtain ⟨_, _, rfl⟩ := Option.map_eq_some_iff.1 h
    exact ⟨rfl, rfl⟩

/-- **The listeners of an event** are those of its registrations in force. -/
theorem run_listenersOf {es : List (BusEvent L P)} {s : Bus L P} (h : (bus L P).run es = some s)
    (event : String) : s.listenersOf event = (registrations event es).map (·.listener) := by
  refine Machine.run_induction
    (P := fun es s => s.listenersOf event = (registrations event es).map (·.listener))
    rfl ?_ h
  intro es s ev s' _ ih hstep
  rw [registrations_snoc]
  cases ev with
  | on event' listener maxRetries =>
    cases hstep
    show ((s.listeners.set event' (s.listenersOf event' ++ [listener])).get event).getD [] = _
    rw [JsMap.get_set, inForceAfter, List.filter_append, List.map_append]
    by_cases heq : event = event'
    · subst heq
      rw [if_pos rfl, Option.getD_some, ih]
      simp [registrations]
    · rw [if_neg heq, ← Bus.listenersOf, ih]
      simp [registrations, Ne.symm heq]
  | off event' =>
    cases hstep
    rw [Bus.listenersOf, JsMap.get_delete, inForceAfter, List.filter_filter]
    by_cases heq : event = event'
    · subst heq
      simp
    · rw [if_neg heq, ← Bus.listenersOf, ih, registrations]
      congr 1
      refine List.filter_congr fun r _ => ?_
      by_cases hr : r.event = event
      · simp [hr, heq]
      · simp [hr]
  | clearAllListeners =>
    cases hstep
    rfl
  | clearDeadLetterQueue | emit call =>
    cases hstep
    exact ih
  | advance e j act =>
    rw [Bus.listenersOf, (advance_maps hstep).1]
    exact ih

/-- **The budget of a function** is the last one that any registration stated for it, in force or
not. -/
theorem run_maxRetries {es : List (BusEvent L P)} {s : Bus L P} (h : (bus L P).run es = some s)
    (fn : L) :
    s.listenerMaxRetries.get fn = lastStated fn (es.filterMap BusEvent.registered) := by
  refine Machine.run_induction
    (P := fun es s => s.listenerMaxRetries.get fn =
      lastStated fn (es.filterMap BusEvent.registered)) rfl ?_ h
  intro es s ev s' _ ih hstep
  rw [List.filterMap_append, lastStated, stated_append]
  have hsame : stated fn ([ev].filterMap BusEvent.registered) = [] →
      s'.listenerMaxRetries = s.listenerMaxRetries →
      s'.listenerMaxRetries.get fn = (stated fn (es.filterMap BusEvent.registered) ++
        stated fn ([ev].filterMap BusEvent.registered)).getLast? := by
    intro hnone hmaps
    rw [hnone, List.append_nil, hmaps]
    exact ih
  cases ev with
  | on event listener maxRetries =>
    cases hstep
    cases maxRetries with
    | none => exact hsame (by simp [stated, BusEvent.registered]) rfl
    | some m =>
      show (s.listenerMaxRetries.set listener m).get fn = _
      rw [JsMap.get_set]
      by_cases heq : fn = listener
      · subst heq
        simp [stated, BusEvent.registered]
      · rw [if_neg heq, ih]
        simp [stated, BusEvent.registered, Ne.symm heq, lastStated]
  | off event | clearAllListeners | clearDeadLetterQueue | emit call =>
    cases hstep
    exact hsame rfl rfl
  | advance e j act => exact hsame rfl (advance_maps hstep).2

/-! ## The budget of a delivery -/

/-- A delivery that has begun with the budget `m` for `fn`. -/
def Began (fn : L) (m : Nat) (s : Bus L P) (e j : Nat) : Prop :=
  ∃ d, s.delivery e j = some d ∧ d.fn = fn ∧ d.phase ≠ .waiting ∧ d.maxRetries = m

omit [DecidableEq L] in
/-- Only a waiting delivery starts. -/
theorem advance_start_waiting {maxRetriesOf : L → Nat} {j : Nat} {em : Emission L P}
    {next : Emission L P × Option (DeadLetteredEvent P)} {d : Delivery L}
    (hd : em.deliveries[j]? = some d) (h : em.advance maxRetriesOf j .start = some next) :
    d.phase = .waiting := by
  rw [Emission.advance, hd] at h
  dsimp only at h
  cases hphase : d.phase with
  | waiting => rfl
  | running =>
    rw [hphase] at h
    cases h
  | sleeping ms =>
    rw [hphase] at h
    cases h
  | finished =>
    rw [hphase] at h
    cases h

theorem began_of_start {s s' : Bus L P} {e j : Nat} (hinv : ∀ em ∈ s.emissions, em.Inv)
    (h : s.step (.advance e j .start) = some s') :
    ∃ d, s.delivery e j = some d ∧ Began d.fn (s.maxRetriesOf d.fn) s' e j := by
  rcases step_cases hinv h with ⟨hev, _⟩ | ⟨call, hev, _⟩ |
    ⟨e₁, j₁, act, em, em', d, d', letter, hev, hem, hadv, rfl⟩
  · simpa [BusEvent.advances] using hev e
  · cases hev
  · cases hev
    have hwait : d.phase = .waiting := by
      simp only [Bus.step, hem] at h
      obtain ⟨next, hsome, _⟩ := Option.map_eq_some_iff.1 h
      exact advance_start_waiting hadv.before hsome
    refine ⟨d, by rw [delivery_eq hem, hadv.before], d', ?_, hadv.fn_eq, hadv.started, ?_⟩
    · rw [(advance_frame hem hadv e j).1, if_pos ⟨rfl, rfl⟩]
    · rw [hadv.maxRetries_eq, if_pos hwait]

theorem Began.step {fn : L} {m : Nat} {s s' : Bus L P} {e j : Nat} {ev : BusEvent L P}
    (hinv : ∀ em ∈ s.emissions, em.Inv) (hbegan : Began fn m s e j) (h : s.step ev = some s') :
    Began fn m s' e j := by
  obtain ⟨d, hd, hfn, hphase, hmax⟩ := hbegan
  rcases step_cases hinv h with ⟨_, heq, _⟩ | ⟨call, rfl, rfl⟩ |
    ⟨e₁, j₁, act, em, em', d₁, d', letter, rfl, hem, hadv, rfl⟩
  · refine ⟨d, ?_, hfn, hphase, hmax⟩
    rw [Bus.delivery, heq]
    exact hd
  · refine ⟨d, ?_, hfn, hphase, hmax⟩
    rcases (emit_frame call (s.listenersOf call.event) e j).2 with hsame | ⟨hnone, _⟩
    · rw [hsame, hd]
    · rw [hd] at hnone
      cases hnone
  · by_cases hej : e = e₁ ∧ j = j₁
    · obtain ⟨rfl, rfl⟩ := hej
      rw [delivery_eq hem, hadv.before] at hd
      cases hd
      refine ⟨d', ?_, hadv.fn_eq.trans hfn, hadv.started, ?_⟩
      · rw [(advance_frame hem hadv e j).1, if_pos ⟨rfl, rfl⟩]
      · rw [hadv.maxRetries_eq, if_neg hphase, hmax]
    · refine ⟨d, ?_, hfn, hphase, hmax⟩
      rw [(advance_frame hem hadv e j).1, if_neg hej, hd]

/-- **The budget of every delivery**: the last one stated for its function before it began, by any
registration. -/
theorem started_maxRetries {pre mid post : List (BusEvent L P)} {call : EmitCall P}
    {s₀ s : Bus L P} {j : Nat} (hpre : (bus L P).run pre = some s₀)
    (h : (bus L P).run ((pre ++ .emit call :: mid) ++
      .advance s₀.emissions.length j .start :: post) = some s) :
    ∃ r, (registrations call.event pre)[j]? = some r ∧
      Began r.listener ((lastStated r.listener
        ((pre ++ .emit call :: mid).filterMap BusEvent.registered)).getD DEFAULT_MAX_RETRIES)
        s s₀.emissions.length j := by
  rw [List.append_cons (pre ++ .emit call :: mid)] at h
  obtain ⟨t', ht'⟩ := Machine.run_prefix h
  obtain ⟨t, ht, hstep⟩ := Machine.run_snoc_some ht'
  obtain ⟨d, hd, hbegan⟩ := began_of_start (run_busInv ht).emissions hstep
  obtain ⟨em, hem, hemitted⟩ := run_emitted hpre ht
  -- the `j`-th delivery is to the `j`-th listener
  have hlistener : ((registrations call.event pre).map (·.listener))[j]? = some d.fn := by
    rw [delivery_eq hem] at hd
    rw [← run_listenersOf hpre, ← hemitted.fns_eq, List.getElem?_map, hd]
    rfl
  rw [List.getElem?_map, Option.map_eq_some_iff] at hlistener
  obtain ⟨r, hr, hfn⟩ := hlistener
  refine ⟨r, hr, ?_⟩
  rw [Bus.maxRetriesOf, run_maxRetries ht, ← hfn] at hbegan
  exact Machine.run_append_induction ht' (P := fun _ s => Began _ _ s _ j) hbegan
    (fun post t₁ ev t₂ hrun ih he => ih.step (run_busInv hrun).emissions he) h

/-- **Retry budgets belong to listener functions.**  A listener of an emitted event is retried
with the budget stated last for its function among the registrations in force, by default 3: unless
a registration that had stated a budget for it was removed. -/
theorem retries_by_function {pre mid post : List (BusEvent L P)} {call : EmitCall P}
    {s₀ s : Bus L P} {j : Nat} (hpre : (bus L P).run pre = some s₀)
    (h : (bus L P).run ((pre ++ .emit call :: mid) ++
      .advance s₀.emissions.length j .start :: post) = some s) :
    ∃ r d, (registrations call.event pre)[j]? = some r ∧
      s.delivery s₀.emissions.length j = some d ∧ d.fn = r.listener ∧
      (Kept r.listener (pre ++ .emit call :: mid) → d.maxRetries =
        (lastStated r.listener (inForce (pre ++ .emit call :: mid))).getD DEFAULT_MAX_RETRIES) ∧
      d.invoked.length ≤ d.maxRetries + 1 ∧
      (d.phase = .finished → Stopped d.maxRetries d.outcomes) := by
  obtain ⟨r, hr, d, hd, hfn, _, hmax⟩ := started_maxRetries hpre h
  have hinv : d.Inv := by
    obtain ⟨em, hem, hdem⟩ := Option.bind_eq_some_iff.1 hd
    exact ((run_busInv h).emissions em (List.mem_of_getElem? hem)).loops d
      (List.mem_of_getElem? hdem)
  refine ⟨r, d, hr, hd, hfn, fun hkept => ?_, hinv.invoked_le, fun hphase => (hinv.finished hphase).1⟩
  rw [hmax, lastStated, lastStated, stated_inForce hkept]

/-- The same function for two events: the budget stated with the second registration is the one of
the first as well. -/
def sharedFunction : List (BusEvent String Unit) :=
  [.on "order.placed" "notify" none, .on "order.paid" "notify" (some 0)]

/-- The listener of `order.placed` was registered without options and is not retried. -/
theorem shared_budget_differs : ∃ s r d,
    (bus String Unit).run ((sharedFunction ++ .emit sampleCall :: []) ++
      .advance 0 0 .start :: []) = some s ∧
      (registrations sampleCall.event sharedFunction)[0]? = some r ∧ r.maxRetries = none ∧
      s.delivery 0 0 = some d ∧ d.fn = r.listener ∧
      d.maxRetries ≠ r.maxRetries.getD DEFAULT_MAX_RETRIES :=
  ⟨_, _, _, rfl, rfl, rfl, rfl, rfl, by decide⟩

theorem retries_by_function_shared : ∃ s d,
    (bus String Unit).run ((sharedFunction ++ .emit sampleCall :: []) ++
      .advance 0 0 .start :: []) = some s ∧ s.delivery 0 0 = some d ∧ d.fn = "notify" ∧
      d.maxRetries = 0 := by
  obtain ⟨r, d, hr, hd, hfn, hbudget, _⟩ :=
    @retries_by_function String Unit _ sharedFunction [] [] sampleCall _ _ 0 rfl rfl
  cases hr
  refine ⟨_, d, rfl, hd, hfn, hbudget ?_⟩
  intro before event m after heq
  rcases before with _ | ⟨_, _ | ⟨_, _ | ⟨_, before⟩⟩⟩
  · cases heq
  · cases heq
    simp
  · cases heq
  · simp [sharedFunction] at heq

end Intellibiz.Core
