import Intellibiz.Commerce.BankRetry

/-!
# The retry registry and the live pollers

`activeRetries` is keyed by payment id, while timers and status checks belong to a registration.

* `Retries.LiveFor` — the registration `i` of a payment has a poller that is live: its timer is
  armed, or its status check is in flight and may still re-arm it.
* `Retries.Mirrors` — `isRetrying` holds exactly for the payments with exactly one live poller.
* `Retries.Tracks` — `activeRetries` maps a payment to its live poller, the inductive form of it.
* `KeepsRegistry` — the steps that keep a payment tracked.

Principal results: `Tracks.step`, `not_mirrors_of_step` (any other step loses track at once) and
`registry_mirrors_iff`.
-/

namespace Intellibiz.Commerce

/-! ## Live pollers -/

def BankStatus.decisive : BankStatus → Bool
  | .succeeded | .failed => true
  | .pending | .unknown => false

/-- The timer is armed, or the check in flight may still re-arm it. -/
def RetryEntry.live (e : RetryEntry) : Bool :=
  e.poller = .armed || (e.poller = .checking && !e.resolved)

def isRetrying (paymentId : String) (s : Retries) : Bool := s.activeRetries.has paymentId

def Retries.LiveFor (s : Retries) (paymentId : String) (i : Nat) : Prop :=
  ∃ e, s.entries[i]? = some e ∧ e.paymentId = paymentId ∧ e.live = true

def Retries.Mirrors (s : Retries) : Prop :=
  ∀ paymentId, isRetrying paymentId s = true ↔ ∃! i, s.LiveFor paymentId i

def Retries.Tracks (s : Retries) (paymentId : String) : Prop :=
  ∀ i, s.activeRetries.get paymentId = some i ↔ s.LiveFor paymentId i

/-- A `cancelAllRetries` finds no status check of the payment in flight, and a decisive status of a
resolved registration finds the payment unregistered. -/
def KeepsRegistry (paymentId : String) (s : Retries) : RetryEvent → Prop
  | .cancelAllRetries => ∀ i e, s.activeRetries.get paymentId = some i →
    s.entries[i]? = some e → e.poller ≠ .checking
  | .statusReturns i status onPollThrows _ => onPollThrows = false → status.decisive = true →
    ∀ e, s.entries[i]? = some e → e.paymentId = paymentId → e.resolved = true →
      isRetrying paymentId s = false
  | _ => True

/-- Armed timers belong to unresolved registrations, awaited resolutions to resolved ones. -/
structure RetryEntry.Coherent (e : RetryEntry) : Prop where
  armed : e.poller = .armed → e.resolved = false
  resolving : e.poller = .resolving → e.resolved = true

/-- Every registration satisfies `p`. -/
def Retries.Each (p : RetryEntry → Prop) (s : Retries) : Prop := ∀ e ∈ s.entries, p e

def PollInv (s : Retries) : Prop := s.Each RetryEntry.Coherent

theorem isRetrying_eq_false {s : Retries} {paymentId : String} :
    isRetrying paymentId s = false ↔ s.activeRetries.get paymentId = none := by
  simp [isRetrying, JsMap.has]

theorem Retries.Tracks.mirrors {s : Retries} (h : ∀ paymentId, s.Tracks paymentId) : s.Mirrors := by
  intro paymentId
  unfold isRetrying JsMap.has
  rw [Option.isSome_iff_exists]
  constructor
  · rintro ⟨i, hi⟩
    refine ⟨i, (h paymentId i).1 hi, fun j (hj : s.LiveFor paymentId j) => ?_⟩
    rw [← h paymentId j, hi] at hj
    exact (Option.some.inj hj).symm
  · rintro ⟨i, hi, _⟩
    exact ⟨i, (h paymentId i).2 hi⟩

theorem liveFor_set {s s' : Retries} {i : Nat} {e e' : RetryEntry} (he : s.entries[i]? = some e)
    (hs' : s'.entries = s.entries.set i e') (paymentId : String) (j : Nat) :
    s'.LiveFor paymentId j ↔
      if j = i then e'.paymentId = paymentId ∧ e'.live = true else s.LiveFor paymentId j := by
  have hlt : i < s.entries.length := (List.getElem?_eq_some_iff.1 he).1
  unfold Retries.LiveFor
  rw [hs', List.getElem?_set]
  by_cases hij : j = i
  · subst hij
    simp [hlt]
  · rw [if_neg (Ne.symm hij), if_neg hij]

theorem liveFor_append {s s' : Retries} {e : RetryEntry} (hs' : s'.entries = s.entries ++ [e])
    {paymentId : String} {j : Nat} :
    s'.LiveFor paymentId j ↔
      if j = s.entries.length then e.paymentId = paymentId ∧ e.live = true
      else s.LiveFor paymentId j := by
  unfold Retries.LiveFor
  rw [hs', List.getElem?_append]
  split
  · rename_i hj
    rw [if_neg (by omega)]
  · rename_i hj
    split
    · rename_i heq
      simp [heq]
    · have hnone : [e][j - s.entries.length]? = none := by
        rw [List.getElem?_eq_none]
        simp only [List.length_cons, List.length_nil]
        omega
      have hnone' : s.entries[j]? = none := List.getElem?_eq_none (by omega)
      rw [hnone, hnone']

/-- A call for a registered payment does nothing; another call registers it, and resolves the
registration at once if the clock says so. -/
theorem startBankRetry_cases (paymentId : String) (startTime now : Nat) (s : Retries) :
    isRetrying paymentId s = true ∧ startBankRetry paymentId startTime now s = s ∨
    isRetrying paymentId s = false ∧
      (MAX_POLL_DURATION_MS ≤ now - startTime ∧ startBankRetry paymentId startTime now s =
        { entries := s.entries ++ [⟨paymentId, startTime, 0, .idle, true⟩]
          activeRetries := (s.activeRetries.set paymentId s.entries.length).delete paymentId
          calls := s.calls ++ [(s.entries.length, .onResolved paymentId .manualReview)] } ∨
      now - startTime < MAX_POLL_DURATION_MS ∧ startBankRetry paymentId startTime now s =
        { entries := s.entries ++ [⟨paymentId, startTime, 1, .armed, false⟩]
          activeRetries := s.activeRetries.set paymentId s.entries.length
          calls := s.calls }) := by
  unfold startBankRetry
  split
  · rename_i hold
    exact .inl ⟨hold, rfl⟩
  · rename_i hnew
    refine .inr ⟨by simpa [isRetrying] using hnew, ?_⟩
    simp only [Retries.schedulePoll, Bool.false_eq_true, if_false]
    have hattempt : ¬ (0 ≥ MAX_POLL_ATTEMPTS) := by decide
    split
    · rename_i hlimit
      exact .inl ⟨hlimit.resolve_right hattempt, by simp [Retries.resolve, List.set_append_right]⟩
    · rename_i hlimit
      refine .inr ⟨?_, by simp [Retries.setEntry, List.set_append_right]⟩
      omega

/-! ### What keeps a payment tracked -/

section Steps

variable {s : Retries} {paymentId : String} {i : Nat} {e e' : RetryEntry}

theorem Retries.Tracks.setEntry (h : s.Tracks paymentId) (he : s.entries[i]? = some e)
    (hid : e'.paymentId = e.paymentId) (hlive : e'.live = e.live) :
    (s.setEntry i e').Tracks paymentId := by
  intro j
  rw [liveFor_set he rfl]
  show s.activeRetries.get paymentId = some j ↔ _
  rw [h j]
  split
  · rename_i hj
    subst hj
    simp [Retries.LiveFor, he, hid, hlive]
  · rfl

theorem live_of_resolved {poller : Poller} (hpoller : poller ≠ .armed) :
    ({ e with resolved := true, poller } : RetryEntry).live = false := by
  simp [RetryEntry.live, hpoller]

/-- Resolving a live registration removes it; resolving another one must find the payment
unregistered. -/
theorem Retries.Tracks.resolve (h : s.Tracks paymentId) (he : s.entries[i]? = some e)
    {poller : Poller} (hpoller : poller ≠ .armed) (finalState : TransactionState)
    (hdead : e.paymentId = paymentId → e.live = false → isRetrying paymentId s = false) :
    (s.resolve i e poller finalState).Tracks paymentId := by
  intro j
  have hset : (s.resolve i e poller finalState).entries =
      s.entries.set i { e with resolved := true, poller } := rfl
  rw [liveFor_set he hset, live_of_resolved hpoller]
  show (s.activeRetries.delete e.paymentId).get paymentId = some j ↔ _
  rw [JsMap.get_delete]
  by_cases hp : paymentId = e.paymentId
  · have hnot : j ≠ i → ¬ s.LiveFor paymentId j := by
      intro hj hlive
      have hget := (h j).2 hlive
      cases hl : e.live with
      | true =>
        have hget' := (h i).2 ⟨e, he, hp.symm, hl⟩
        rw [hget] at hget'
        exact hj (Option.some.inj hget')
      | false =>
        rw [isRetrying_eq_false.1 (hdead hp.symm hl)] at hget
        cases hget
    by_cases hj : j = i
    · simp [hp, hj]
    · simp [← hp, hj, hnot hj]
  · rw [if_neg hp, h j]
    by_cases hj : j = i
    · subst hj
      simp [Retries.LiveFor, he, Ne.symm hp]
    · rw [if_neg hj]

theorem Retries.Tracks.schedulePoll (h : s.Tracks paymentId) (he : s.entries[i]? = some e)
    (hlive : e.live = !e.resolved) (now : Nat) : (s.schedulePoll i e now).Tracks paymentId := by
  unfold Retries.schedulePoll
  split
  · rename_i hres
    refine h.setEntry he rfl ?_
    rw [hlive, hres]
    rfl
  · rename_i hres
    rw [Bool.not_eq_true] at hres
    rw [hres] at hlive
    split
    · exact h.resolve he (by decide) _ fun _ hdead => by rw [hlive] at hdead; cases hdead
    · exact h.setEntry he rfl (by rw [hlive]; rfl)

theorem Retries.Tracks.startBankRetry (h : s.Tracks paymentId) (newId : String)
    (startTime now : Nat) : (startBankRetry newId startTime now s).Tracks paymentId := by
  rcases startBankRetry_cases newId startTime now s with ⟨-, hs'⟩ | ⟨hnew, ⟨-, hs'⟩ | ⟨-, hs'⟩⟩
  · rw [hs']
    exact h
  · -- the limit is reached at once: the new registration is never live
    intro j
    rw [hs', liveFor_append rfl]
    show ((s.activeRetries.set newId s.entries.length).delete newId).get paymentId = some j ↔ _
    rw [JsMap.get_delete, JsMap.get_set]
    split
    · rename_i hp
      subst hp
      rw [isRetrying_eq_false] at hnew
      have hnone : ¬ s.LiveFor paymentId j := by
        rw [← h j, hnew]
        simp
      simp [hnone, RetryEntry.live]
    · rw [h j]
      split
      · rename_i hj
        subst hj
        simp [Retries.LiveFor, RetryEntry.live]
      · rfl
  · intro j
    rw [hs', liveFor_append rfl]
    show (s.activeRetries.set newId s.entries.length).get paymentId = some j ↔ _
    rw [JsMap.get_set]
    split
    · rename_i hp
      subst hp
      rw [isRetrying_eq_false] at hnew
      have hnone : ¬ s.LiveFor paymentId j := by
        rw [← h j, hnew]
        simp
      simp [hnone, RetryEntry.live, eq_comm]
    · rename_i hp
      rw [h j]
      split
      · rename_i hj
        subst hj
        simp [Retries.LiveFor, Ne.symm hp]
      · rfl

theorem clearTimeout_live (e : RetryEntry) : e.clearTimeout.live = true ↔
    e.live = true ∧ e.poller ≠ .armed := by
  unfold RetryEntry.clearTimeout
  split
  · rename_i hp
    simp [RetryEntry.live, hp]
  · rename_i hp
    simp [hp]

theorem Retries.Tracks.cancelAllRetries (h : s.Tracks paymentId)
    (hkeeps : KeepsRegistry paymentId s .cancelAllRetries) :
    (cancelAllRetries s).Tracks paymentId := by
  intro j
  constructor
  · intro hj
    cases hj
  · rintro ⟨e', he', hid, hlive⟩
    simp only [Commerce.cancelAllRetries, List.getElem?_mapIdx, Option.map_eq_some_iff] at he'
    obtain ⟨e, he, rfl⟩ := he'
    split at hid
    · rename_i hmem
      rw [if_pos hmem, clearTimeout_live] at hlive
      rw [(clearTimeout_record e).1] at hid
      -- a live poller that is not armed is checking, which `hkeeps` excludes
      have hchecking : e.poller = .checking := by
        have := hlive.1
        simp only [RetryEntry.live, Bool.or_eq_true, decide_eq_true_eq, Bool.and_eq_true] at this
        exact (this.resolve_left hlive.2).1
      exact absurd hchecking (hkeeps j e ((h j).2 ⟨e, he, hid, hlive.1⟩) he)
    · rename_i hmem
      rw [if_neg hmem] at hlive
      have hget := (h j).2 ⟨e, he, hid, hlive⟩
      exact absurd (List.mem_map.2 ⟨_, JsMap.mem_of_get hget, rfl⟩) hmem

end Steps

/-! ### Timers and resolutions -/

section Coherence

variable {s : Retries} {i : Nat} {e e' : RetryEntry}

theorem Retries.Each.of_set {p : RetryEntry → Prop} {s' : Retries} (h : s.Each p)
    (hs' : s'.entries = s.entries.set i e') (he' : p e') : s'.Each p := by
  intro x hx
  rw [hs'] at hx
  rcases List.mem_or_eq_of_mem_set hx with hx | rfl
  · exact h x hx
  · exact he'

theorem Retries.Each.of_append {p : RetryEntry → Prop} {s' : Retries} (h : s.Each p)
    (hs' : s'.entries = s.entries ++ [e']) (he' : p e') : s'.Each p := by
  intro x hx
  rw [hs', List.mem_append, List.mem_singleton] at hx
  rcases hx with hx | rfl
  · exact h x hx
  · exact he'

/-- `cancelAllRetries` clears timers and changes nothing else in a registration. -/
theorem Retries.Each.cancelAllRetries {p : RetryEntry → Prop} (h : s.Each p)
    (hclear : ∀ e, p e → p e.clearTimeout) : (Commerce.cancelAllRetries s).Each p := by
  intro x hx
  simp only [Commerce.cancelAllRetries, List.mem_mapIdx] at hx
  obtain ⟨j, hj, rfl⟩ := hx
  split
  · exact hclear _ (h _ (List.getElem_mem hj))
  · exact h _ (List.getElem_mem hj)

theorem PollInv.resolve (h : PollInv s) {poller : Poller} (hpoller : poller ≠ .armed)
    (finalState : TransactionState) : PollInv (s.resolve i e poller finalState) :=
  Retries.Each.of_set h rfl ⟨fun hp => absurd hp hpoller, fun _ => rfl⟩

theorem PollInv.schedulePoll (h : PollInv s) (now : Nat) : PollInv (s.schedulePoll i e now) := by
  unfold Retries.schedulePoll
  split
  · exact Retries.Each.of_set h rfl ⟨by simp, by simp⟩
  · rename_i hres
    split
    · exact h.resolve (by decide) _
    · exact Retries.Each.of_set h rfl ⟨fun _ => by simpa using hres, by simp⟩

theorem clearTimeout_poller (e : RetryEntry) : e.clearTimeout.poller ≠ .armed := by
  unfold RetryEntry.clearTimeout
  split
  · simp
  · assumption

theorem RetryEntry.Coherent.clearTimeout (h : e.Coherent) : e.clearTimeout.Coherent := by
  refine ⟨fun hp => absurd hp (clearTimeout_poller e), ?_⟩
  unfold RetryEntry.clearTimeout
  split
  · simp
  · exact h.resolving

theorem PollInv.step {s s' : Retries} {ev : RetryEvent} (h : PollInv s)
    (hstep : s.step ev = some s') : PollInv s' := by
  cases ev with
  | startBankRetry paymentId startTime now =>
    cases hstep
    rcases startBankRetry_cases paymentId startTime now s with ⟨-, hs'⟩ | ⟨-, ⟨-, hs'⟩ | ⟨-, hs'⟩⟩
    · rw [hs']
      exact h
    · rw [hs']
      exact Retries.Each.of_append h rfl ⟨by simp, by simp⟩
    · rw [hs']
      exact Retries.Each.of_append h rfl ⟨by simp, by simp⟩
  | timerFires i =>
    obtain ⟨e, he, -, rfl⟩ := atPoller_some hstep
    unfold timerFires
    split
    · exact Retries.Each.of_set h rfl ⟨by simp, by simp⟩
    · exact Retries.Each.of_set h rfl ⟨by simp, by simp⟩
  | statusReturns i status onPollThrows now =>
    obtain ⟨e, he, -, rfl⟩ := atPoller_some hstep
    unfold statusReturns
    have hcall : PollInv (s.call i (.onPoll e.paymentId e.attempt status)) := h
    dsimp only
    split
    · exact hcall.schedulePoll now
    · cases status with
      | succeeded | failed => exact hcall.resolve (by decide) _
      | pending | unknown => exact hcall.schedulePoll now
  | statusRejects i now =>
    obtain ⟨e, he, -, rfl⟩ := atPoller_some hstep
    exact h.schedulePoll now
  | resolvedSettles i rejected now =>
    obtain ⟨e, he, -, rfl⟩ := atPoller_some hstep
    unfold resolvedSettles
    split
    · exact h.schedulePoll now
    · exact Retries.Each.of_set h rfl ⟨by simp, by simp⟩
  | forceResolve paymentId finalState =>
    cases hstep
    unfold forceResolve
    split
    · exact h
    · split
      · exact h
      · exact h.resolve (clearTimeout_poller _) _
  | cancelAllRetries =>
    cases hstep
    exact Retries.Each.cancelAllRetries h fun e he => he.clearTimeout

end Coherence

theorem run_pollInv {es : List RetryEvent} {s : Retries} (hrun : retries.run es = some s) :
    PollInv s := by
  refine Machine.run_induction (M := retries) (P := fun _ s => PollInv s) ?_ ?_ hrun
  · simp [PollInv, Retries.Each, retries]
  · intro es s ev s' _ h hstep
    exact h.step hstep

/-! ## Steps that keep track, and steps that lose it -/

theorem live_of_checking {e : RetryEntry} (hp : e.poller = .checking) : e.live = !e.resolved := by
  simp [RetryEntry.live, hp]

/-- **A step that meets the condition keeps the payment tracked.** -/
theorem Retries.Tracks.step {s s' : Retries} {paymentId : String} {ev : RetryEvent}
    (h : s.Tracks paymentId) (hinv : RetryInv s) (hpoll : PollInv s)
    (hkeeps : KeepsRegistry paymentId s ev) (hstep : s.step ev = some s') :
    s'.Tracks paymentId := by
  cases ev with
  | startBankRetry newId startTime now =>
    cases hstep
    exact h.startBankRetry newId startTime now
  | timerFires i =>
    obtain ⟨e, he, hp, rfl⟩ := atPoller_some hstep
    have hres : e.resolved = false := (hpoll e (List.mem_of_getElem? he)).armed hp
    unfold timerFires
    rw [if_neg (by simp [hres])]
    refine h.setEntry he rfl ?_
    simp [RetryEntry.live, hp, hres]
  | statusReturns i status onPollThrows now =>
    obtain ⟨e, he, hp, rfl⟩ := atPoller_some hstep
    have hlive := live_of_checking hp
    have hcall : (s.call i (.onPoll e.paymentId e.attempt status)).Tracks paymentId := h
    have hdead : onPollThrows = false → status.decisive = true →
        e.paymentId = paymentId → e.live = false → isRetrying paymentId s = false := by
      intro hthrows hdecisive hid hdead
      refine hkeeps hthrows hdecisive e he hid ?_
      simpa [hlive] using hdead
    unfold statusReturns
    dsimp only
    split
    · exact hcall.schedulePoll he hlive now
    · rename_i hthrows
      rw [Bool.not_eq_true] at hthrows
      cases status with
      | succeeded | failed => exact hcall.resolve he (by decide) _ (hdead hthrows rfl)
      | pending | unknown => exact hcall.schedulePoll he hlive now
  | statusRejects i now =>
    obtain ⟨e, he, hp, rfl⟩ := atPoller_some hstep
    exact h.schedulePoll he (live_of_checking hp) now
  | resolvedSettles i rejected now =>
    obtain ⟨e, he, hp, rfl⟩ := atPoller_some hstep
    have hres : e.resolved = true := (hpoll e (List.mem_of_getElem? he)).resolving hp
    have hlive : e.live = false := by simp [RetryEntry.live, hp]
    unfold resolvedSettles
    split
    · exact h.schedulePoll he (by rw [hlive, hres]; rfl) now
    · exact h.setEntry he rfl (by rw [hlive]; rfl)
  | forceResolve forcedId finalState =>
    cases hstep
    unfold forceResolve
    split
    · exact h
    · rename_i i hi
      split
      · exact h
      · rename_i e he
        refine h.resolve he (clearTimeout_poller e) finalState fun hid hdead => ?_
        -- the registered entry is live, so it is not dead
        have hactive := hinv.active forcedId i hi
        rw [record_of_entry he] at hactive
        have hforced : e.paymentId = forcedId := congrArg Prod.fst (Option.some.inj hactive)
        rw [← hforced, hid] at hi
        obtain ⟨e', he', -, hlive⟩ := (h i).1 hi
        obtain rfl : e = e' := Option.some.inj (he.symm.trans he')
        rw [hdead] at hlive
        cases hlive
  | cancelAllRetries =>
    cases hstep
    exact h.cancelAllRetries hkeeps

theorem not_mirrors {s : Retries} (paymentId : String) (i : Nat)
    (hnot : isRetrying paymentId s = false) (hlive : ∀ j, s.LiveFor paymentId j ↔ j = i) :
    ¬ s.Mirrors := by
  intro h
  have hretrying := (h paymentId).2 ⟨i, (hlive i).2 rfl, fun j hj => (hlive j).1 hj⟩
  rw [hnot] at hretrying
  cases hretrying

/-- A check in flight survives `cancelAllRetries`, unregistered. -/
theorem not_mirrors_cancelAllRetries {s : Retries} {paymentId : String}
    (h : s.Tracks paymentId) (hloses : ¬ KeepsRegistry paymentId s .cancelAllRetries) :
    ¬ (cancelAllRetries s).Mirrors := by
  simp only [KeepsRegistry, not_forall, not_not] at hloses
  obtain ⟨i, e, hi, he, hchecking⟩ := hloses
  obtain ⟨e', he', hid, hlive⟩ := (h i).1 hi
  obtain rfl : e = e' := Option.some.inj (he.symm.trans he')
  have hclear : e.clearTimeout = e := by simp [RetryEntry.clearTimeout, hchecking]
  refine not_mirrors paymentId i rfl fun j => ?_
  simp only [Retries.LiveFor, cancelAllRetries, List.getElem?_mapIdx, Option.map_eq_some_iff]
  constructor
  · rintro ⟨x, ⟨y, hy, rfl⟩, hxid, hxlive⟩
    have hyj : s.LiveFor paymentId j := by
      split at hxid
      · rename_i hmem
        rw [if_pos hmem, clearTimeout_live] at hxlive
        rw [(clearTimeout_record y).1] at hxid
        exact ⟨y, hy, hxid, hxlive.1⟩
      · rename_i hmem
        rw [if_neg hmem] at hxlive
        exact ⟨y, hy, hxid, hxlive⟩
    have hj := (h j).2 hyj
    rw [hi] at hj
    exact (Option.some.inj hj).symm
  · rintro rfl
    exact ⟨_, ⟨e, he, rfl⟩, by split <;> simp [hclear, hid], by split <;> simp [hclear, hlive]⟩

/-- A late verdict on an old registration removes the new one by its payment id. -/
theorem not_mirrors_resolve {s : Retries} {i : Nat} {e : RetryEntry}
    (h : s.Tracks e.paymentId) (he : s.entries[i]? = some e) (hdead : e.live = false)
    (hretrying : isRetrying e.paymentId s = true) {poller : Poller} (hpoller : poller ≠ .armed)
    (finalState : TransactionState) : ¬ (s.resolve i e poller finalState).Mirrors := by
  obtain ⟨j, hj⟩ := Option.isSome_iff_exists.1 hretrying
  have hji : j ≠ i := by
    rintro rfl
    obtain ⟨e', he', -, hlive⟩ := (h j).1 hj
    obtain rfl : e = e' := Option.some.inj (he.symm.trans he')
    rw [hdead] at hlive
    cases hlive
  refine not_mirrors e.paymentId j ?_ fun k => ?_
  · rw [isRetrying_eq_false]
    show (s.activeRetries.delete e.paymentId).get e.paymentId = none
    rw [JsMap.get_delete, if_pos rfl]
  · have hset : (s.resolve i e poller finalState).entries =
        s.entries.set i { e with resolved := true, poller } := rfl
    rw [liveFor_set he hset, live_of_resolved hpoller]
    split
    · rename_i hk
      simp [hk, Ne.symm hji]
    · rw [← h k, hj]
      simp [eq_comm]

/-- **Any other step loses track at once.** -/
theorem not_mirrors_of_step {s s' : Retries} {paymentId : String} {ev : RetryEvent}
    (h : ∀ paymentId, s.Tracks paymentId) (hloses : ¬ KeepsRegistry paymentId s ev)
    (hstep : s.step ev = some s') : ¬ s'.Mirrors := by
  cases ev with
  | cancelAllRetries =>
    cases hstep
    exact not_mirrors_cancelAllRetries (h paymentId) hloses
  | statusReturns i status onPollThrows now =>
    obtain ⟨e, he, hp, rfl⟩ := atPoller_some hstep
    simp only [KeepsRegistry, not_forall, Bool.not_eq_false] at hloses
    obtain ⟨rfl, hdecisive, e', he', rfl, hres, hretrying⟩ := hloses
    obtain rfl : e = e' := Option.some.inj (he.symm.trans he')
    have hdead : e.live = false := by rw [live_of_checking hp, hres]; rfl
    have hcall : (s.call i (.onPoll e.paymentId e.attempt status)).Tracks e.paymentId :=
      h e.paymentId
    cases status with
    | succeeded | failed => exact not_mirrors_resolve hcall he hdead hretrying (by decide) _
    | pending | unknown => cases hdecisive
  | startBankRetry | timerFires | statusRejects | resolvedSettles | forceResolve =>
    exact absurd trivial hloses

/-! ## What a registration calls -/

/-- The calls made for the registration at `i`, in order. -/
def Retries.callsOf (s : Retries) (i : Nat) : List Callback :=
  (s.calls.filter fun c => c.1 == i).map Prod.snd

@[simp] theorem callsOf_setEntry (s : Retries) (j : Nat) (e : RetryEntry) (i : Nat) :
    (s.setEntry j e).callsOf i = s.callsOf i := rfl

theorem callsOf_call (s : Retries) (j : Nat) (callback : Callback) (i : Nat) :
    (s.call j callback).callsOf i = s.callsOf i ++ if j = i then [callback] else [] := by
  unfold Retries.callsOf Retries.call
  rw [List.filter_append, List.map_append]
  congr 1
  by_cases hj : j = i <;> simp [hj]

theorem callsOf_resolve (s : Retries) (j : Nat) (e : RetryEntry) (poller : Poller)
    (finalState : TransactionState) (i : Nat) :
    (s.resolve j e poller finalState).callsOf i =
      s.callsOf i ++ if j = i then [.onResolved e.paymentId finalState] else [] :=
  callsOf_call s j (.onResolved e.paymentId finalState) i

/-- The event concerns the registration at `i`. -/
def RetryEvent.touches (s : Retries) (i : Nat) : RetryEvent → Prop
  | .startBankRetry _ _ _ => False
  | .timerFires j | .statusReturns j _ _ _ | .statusRejects j _ | .resolvedSettles j _ _ => j = i
  | .forceResolve paymentId _ => s.activeRetries.get paymentId = some i
  | .cancelAllRetries => ∃ paymentId, s.activeRetries.get paymentId = some i

/-- The registration at `i` is overwritten, its payment may be removed from the registry, and calls
may be made for it; nothing else changes. -/
structure Overwrites (i : Nat) (s s' : Retries) : Prop where
  lt : i < s.entries.length
  entries_eq : ∃ e, s'.entries = s.entries.set i e
  active_eq : s'.activeRetries = s.activeRetries ∨
    ∃ paymentId, s'.activeRetries = s.activeRetries.delete paymentId
  calls_eq : ∃ cs : List Callback, s'.calls = s.calls ++ cs.map (Prod.mk i)

/-- A payment that was not registered gets a new registration, which calls may be made for and
which may be ended at once. -/
structure Registers (paymentId : String) (s s' : Retries) : Prop where
  unregistered : isRetrying paymentId s = false
  entries_eq : ∃ e, s'.entries = s.entries ++ [e]
  active_eq : ∀ regId j, s'.activeRetries.get regId = some j →
    s.activeRetries.get regId = some j ∨ regId = paymentId
  calls_eq : ∃ cs : List Callback, s'.calls = s.calls ++ cs.map (Prod.mk s.entries.length)

section Shape

variable {s s' : Retries} {i : Nat}

theorem Overwrites.of_call {callback : Callback} (h : Overwrites i (s.call i callback) s') :
    Overwrites i s s' := by
  refine ⟨h.lt, h.entries_eq, h.active_eq, ?_⟩
  obtain ⟨cs, hcs⟩ := h.calls_eq
  exact ⟨callback :: cs, by simp [hcs, Retries.call]⟩

theorem Overwrites.call (h : Overwrites i s s') (callback : Callback) :
    Overwrites i s (s'.call i callback) := by
  refine ⟨h.lt, h.entries_eq, h.active_eq, ?_⟩
  obtain ⟨cs, hcs⟩ := h.calls_eq
  exact ⟨cs ++ [callback], by simp [hcs, Retries.call]⟩

theorem overwrites_setEntry (hi : i < s.entries.length) (e : RetryEntry) :
    Overwrites i s (s.setEntry i e) :=
  ⟨hi, ⟨e, rfl⟩, .inl rfl, ⟨[], by simp [Retries.setEntry]⟩⟩

theorem overwrites_resolve (hi : i < s.entries.length) (e : RetryEntry) (poller : Poller)
    (finalState : TransactionState) : Overwrites i s (s.resolve i e poller finalState) :=
  ⟨hi, ⟨_, rfl⟩, .inr ⟨_, rfl⟩, ⟨[.onResolved e.paymentId finalState], rfl⟩⟩

theorem overwrites_schedulePoll (hi : i < s.entries.length) (e : RetryEntry) (now : Nat) :
    Overwrites i s (s.schedulePoll i e now) := by
  unfold Retries.schedulePoll
  split
  · exact overwrites_setEntry hi _
  · split
    · exact overwrites_resolve hi _ _ _
    · exact overwrites_setEntry hi _

theorem startBankRetry_registers (paymentId : String) (startTime now : Nat) (s : Retries) :
    startBankRetry paymentId startTime now s = s ∨
      Registers paymentId s (startBankRetry paymentId startTime now s) := by
  rcases startBankRetry_cases paymentId startTime now s with
    ⟨-, hs'⟩ | ⟨hnew, ⟨-, hs'⟩ | ⟨-, hs'⟩⟩
  · exact .inl hs'
  · rw [hs']
    refine .inr ⟨hnew, ⟨_, rfl⟩, fun regId j hj => ?_, ⟨[_], rfl⟩⟩
    simp only [JsMap.get_delete, JsMap.get_set] at hj
    split at hj
    · cases hj
    · exact .inl hj
  · rw [hs']
    refine .inr ⟨hnew, ⟨_, rfl⟩, fun regId j hj => ?_, ⟨[], by simp⟩⟩
    simp only [JsMap.get_set] at hj
    split at hj
    · rename_i hid
      exact .inr hid
    · exact .inl hj

/-- **What a step can do**: nothing, overwrite a registration that the event concerns, make a new
one, or cancel them all. -/
theorem step_shape {ev : RetryEvent} (hstep : s.step ev = some s') :
    s' = s ∨ (∃ i, ev.touches s i ∧ Overwrites i s s') ∨
      (∃ paymentId startTime now, ev = .startBankRetry paymentId startTime now ∧
        Registers paymentId s s') ∨
      ev = .cancelAllRetries ∧ s' = cancelAllRetries s := by
  cases ev with
  | startBankRetry paymentId startTime now =>
    cases hstep
    rcases startBankRetry_registers paymentId startTime now s with hs' | hs'
    · exact .inl hs'
    · exact .inr (.inr (.inl ⟨paymentId, startTime, now, rfl, hs'⟩))
  | timerFires i =>
    obtain ⟨e, he, -, rfl⟩ := atPoller_some hstep
    have hi := (List.getElem?_eq_some_iff.1 he).1
    refine .inr (.inl ⟨i, rfl, ?_⟩)
    unfold timerFires
    split
    · exact overwrites_setEntry hi _
    · exact (overwrites_setEntry hi _).call _
  | statusReturns i status onPollThrows now =>
    obtain ⟨e, he, -, rfl⟩ := atPoller_some hstep
    have hi := (List.getElem?_eq_some_iff.1 he).1
    refine .inr (.inl ⟨i, rfl, ?_⟩)
    unfold statusReturns
    dsimp only
    split
    · exact (overwrites_schedulePoll (s := s.call i _) hi e now).of_call
    · cases status with
      | succeeded | failed => exact (overwrites_resolve (s := s.call i _) hi _ _ _).of_call
      | pending | unknown => exact (overwrites_schedulePoll (s := s.call i _) hi e now).of_call
  | statusRejects i now =>
    obtain ⟨e, he, -, rfl⟩ := atPoller_some hstep
    have hi := (List.getElem?_eq_some_iff.1 he).1
    exact .inr (.inl ⟨i, rfl, overwrites_schedulePoll hi e now⟩)
  | resolvedSettles i rejected now =>
    obtain ⟨e, he, -, rfl⟩ := atPoller_some hstep
    have hi := (List.getElem?_eq_some_iff.1 he).1
    refine .inr (.inl ⟨i, rfl, ?_⟩)
    unfold resolvedSettles
    split
    · exact overwrites_schedulePoll hi e now
    · exact overwrites_setEntry hi _
  | forceResolve paymentId finalState =>
    cases hstep
    unfold forceResolve
    split
    · exact .inl rfl
    · rename_i i hi
      split
      · exact .inl rfl
      · rename_i e he
        exact .inr (.inl ⟨i, hi, overwrites_resolve (List.getElem?_eq_some_iff.1 he).1 _ _ _⟩)
  | cancelAllRetries =>
    cases hstep
    exact .inr (.inr (.inr ⟨rfl, rfl⟩))

theorem calls_step {ev : RetryEvent} (hstep : s.step ev = some s') : s.calls <+: s'.calls := by
  rcases step_shape hstep with rfl | ⟨i, -, hover⟩ | ⟨paymentId, _, _, -, hnew⟩ | ⟨-, rfl⟩
  · exact List.prefix_rfl
  · obtain ⟨cs, hcs⟩ := hover.calls_eq
    rw [hcs]
    exact List.prefix_append _ _
  · obtain ⟨cs, hcs⟩ := hnew.calls_eq
    rw [hcs]
    exact List.prefix_append _ _
  · exact List.prefix_rfl

/-- The registration at `i` is as it was, and nothing was called for it. -/
structure SameAt (i : Nat) (s s' : Retries) : Prop where
  entry_eq : s'.entries[i]? = s.entries[i]?
  callsOf_eq : s'.callsOf i = s.callsOf i

theorem Overwrites.sameAt {j : Nat} (h : Overwrites j s s') (hj : j ≠ i) : SameAt i s s' := by
  obtain ⟨e, he⟩ := h.entries_eq
  obtain ⟨cs, hcs⟩ := h.calls_eq
  refine ⟨by rw [he, List.getElem?_set_ne hj], ?_⟩
  simp [Retries.callsOf, hcs, hj]

theorem Registers.sameAt {paymentId : String} (h : Registers paymentId s s')
    (hi : i < s.entries.length) : SameAt i s s' := by
  obtain ⟨e, he⟩ := h.entries_eq
  obtain ⟨cs, hcs⟩ := h.calls_eq
  have hne : s.entries.length ≠ i := by omega
  refine ⟨by rw [he, List.getElem?_append_left hi], ?_⟩
  simp [Retries.callsOf, hcs, hne]

/-- **Frame rule.**  An event that does not concern a registration leaves it alone. -/
theorem step_frame {ev : RetryEvent} (hi : i < s.entries.length) (hstep : s.step ev = some s')
    (hnot : ¬ ev.touches s i) : SameAt i s s' := by
  rcases step_shape hstep with rfl | ⟨j, htouch, hover⟩ | ⟨paymentId, _, _, -, hnew⟩ | ⟨rfl, rfl⟩
  · exact ⟨rfl, rfl⟩
  · refine hover.sameAt ?_
    rintro rfl
    exact hnot htouch
  · exact hnew.sameAt hi
  · refine ⟨?_, rfl⟩
    have hmem : i ∉ s.activeRetries.entries.map Prod.snd := by
      intro hmem
      obtain ⟨⟨paymentId, k⟩, hk, rfl⟩ := List.mem_map.1 hmem
      exact hnot ⟨paymentId, JsMap.get_of_mem hk⟩
    simp [cancelAllRetries, hmem]

end Shape

/-! ## Silence after `cancelAllRetries` -/

def Callback.isOnPoll : Callback → Bool
  | .onPoll _ _ _ => true
  | _ => false

/-- The calls of `checkStatus` and `onResolved` made for the registration at `i`. -/
def Retries.effects (s : Retries) (i : Nat) : List Callback :=
  (s.callsOf i).filter fun c => !c.isOnPoll

/-- No registration made before a `cancelAllRetries` calls `checkStatus` or `onResolved` again. -/
def SilentAfterCancel (es : List RetryEvent) (s : Retries) : Prop :=
  ∀ pre post s₀, es = pre ++ .cancelAllRetries :: post →
    retries.run (pre ++ [.cancelAllRetries]) = some s₀ →
    ∀ i < s₀.entries.length, s.effects i = s₀.effects i

/-- No registration made before a `cancelAllRetries` receives a decisive status after it. -/
def NoLateAfterCancel (es : List RetryEvent) : Prop :=
  ∀ pre post s₀, es = pre ++ .cancelAllRetries :: post →
    retries.run (pre ++ [.cancelAllRetries]) = some s₀ →
    ∀ i < s₀.entries.length, ∀ status now, status.decisive = true →
      .statusReturns i status false now ∉ post

/-- The registration at `i` exists and is not live. -/
def Retries.DeadAt (s : Retries) (i : Nat) : Prop :=
  ∃ e, s.entries[i]? = some e ∧ e.live = false

theorem deadAt_setEntry {s s' : Retries} {i : Nat} {e e' : RetryEntry}
    (he : s.entries[i]? = some e) (hs' : s'.entries = s.entries.set i e')
    (hdead : e'.live = false) : s'.DeadAt i := by
  have hlt : i < s.entries.length := (List.getElem?_eq_some_iff.1 he).1
  exact ⟨e', by rw [hs', List.getElem?_set_self hlt], hdead⟩

theorem schedulePoll_of_resolved {s : Retries} {i : Nat} {e : RetryEntry}
    (hres : e.resolved = true) (now : Nat) :
    s.schedulePoll i e now = s.setEntry i { e with poller := .idle } := by
  unfold Retries.schedulePoll
  rw [if_pos hres]

/-- A tracked payment is not registered through a dead registration. -/
theorem Retries.DeadAt.not_registered {s : Retries} {paymentId : String} {i : Nat}
    (h : s.DeadAt i) (htracks : s.Tracks paymentId) : s.activeRetries.get paymentId ≠ some i := by
  intro hi
  obtain ⟨e, he, hdead⟩ := h
  obtain ⟨e', he', -, hlive⟩ := (htracks i).1 hi
  obtain rfl : e = e' := Option.some.inj (he.symm.trans he')
  rw [hdead] at hlive
  cases hlive

/-- A dead registration stays dead and silent, as long as no decisive status reaches it. -/
theorem Retries.DeadAt.step {s s' : Retries} {i : Nat} {ev : RetryEvent} (h : s.DeadAt i)
    (hregistered : ∀ paymentId, s.activeRetries.get paymentId ≠ some i) (hpoll : PollInv s)
    (hlate : ∀ status now, status.decisive = true → ev ≠ .statusReturns i status false now)
    (hstep : s.step ev = some s') : s'.DeadAt i ∧ s'.effects i = s.effects i := by
  obtain ⟨e, he, hdead⟩ := h
  by_cases htouch : ev.touches s i
  · have hidle : ({ e with poller := .idle } : RetryEntry).live = false := by
      simp [RetryEntry.live]
    cases ev with
    | startBankRetry => exact htouch.elim
    | timerFires j =>
      obtain rfl : j = i := htouch
      obtain ⟨e', he', hp, rfl⟩ := atPoller_some hstep
      obtain rfl : e = e' := Option.some.inj (he.symm.trans he')
      simp [RetryEntry.live, hp] at hdead
    | statusReturns j status onPollThrows now =>
      obtain rfl : j = i := htouch
      obtain ⟨e', he', hp, rfl⟩ := atPoller_some hstep
      obtain rfl : e = e' := Option.some.inj (he.symm.trans he')
      have hres : e.resolved = true := by simpa [live_of_checking hp] using hdead
      have hrest : statusReturns j e status onPollThrows now s =
          (s.call j (.onPoll e.paymentId e.attempt status)).setEntry j
            { e with poller := .idle } := by
        unfold statusReturns
        dsimp only
        split
        · exact schedulePoll_of_resolved hres now
        · rename_i hthrows
          rw [Bool.not_eq_true] at hthrows
          subst hthrows
          cases status with
          | succeeded | failed => exact absurd rfl (hlate _ now rfl)
          | pending | unknown => exact schedulePoll_of_resolved hres now
      rw [hrest]
      refine ⟨deadAt_setEntry he rfl hidle, ?_⟩
      show ((s.call j _).callsOf j).filter _ = _
      rw [callsOf_call, if_pos rfl, List.filter_append]
      simp [Retries.effects, Callback.isOnPoll]
    | statusRejects j now =>
      obtain rfl : j = i := htouch
      obtain ⟨e', he', hp, rfl⟩ := atPoller_some hstep
      obtain rfl : e = e' := Option.some.inj (he.symm.trans he')
      have hres : e.resolved = true := by simpa [live_of_checking hp] using hdead
      rw [schedulePoll_of_resolved hres]
      exact ⟨deadAt_setEntry he rfl hidle, rfl⟩
    | resolvedSettles j rejected now =>
      obtain rfl : j = i := htouch
      obtain ⟨e', he', hp, rfl⟩ := atPoller_some hstep
      obtain rfl : e = e' := Option.some.inj (he.symm.trans he')
      have hres : e.resolved = true := (hpoll e (List.mem_of_getElem? he)).resolving hp
      unfold resolvedSettles
      rw [schedulePoll_of_resolved hres, ite_self]
      exact ⟨deadAt_setEntry he rfl hidle, rfl⟩
    | forceResolve paymentId finalState => exact absurd htouch (hregistered paymentId)
    | cancelAllRetries =>
      obtain ⟨paymentId, hi⟩ := htouch
      exact absurd hi (hregistered paymentId)
  · have hsame := step_frame (List.getElem?_eq_some_iff.1 he).1 hstep htouch
    refine ⟨⟨e, by rw [hsame.entry_eq, he], hdead⟩, ?_⟩
    unfold Retries.effects
    rw [hsame.callsOf_eq]

/-- A decisive status that arrives calls `onResolved`. -/
theorem effects_statusReturns {s s' : Retries} {i : Nat} {status : BankStatus} {now : Nat}
    (hdecisive : status.decisive = true)
    (hstep : s.step (.statusReturns i status false now) = some s') :
    (s'.effects i).length = (s.effects i).length + 1 := by
  obtain ⟨e, -, -, rfl⟩ := atPoller_some hstep
  unfold Retries.effects
  cases status with
  | succeeded | failed =>
    simp [statusReturns, callsOf_resolve, callsOf_call, Callback.isOnPoll]
  | pending | unknown => cases hdecisive

theorem effects_run {pre post : List RetryEvent} {s₀ s : Retries}
    (hpre : retries.run pre = some s₀) (hrun : retries.run (pre ++ post) = some s) (i : Nat) :
    (s₀.effects i).length ≤ (s.effects i).length := by
  have hcalls : s₀.calls <+: s.calls := by
    refine Machine.run_append_induction (M := retries) hpre (P := fun _ s => s₀.calls <+: s.calls)
      List.prefix_rfl ?_ hrun
    intro post s ev s' _ h hstep
    exact h.trans (calls_step hstep)
  exact (((hcalls.filter _).map _).filter _).length_le

/-! ## Runs -/

/-- Every payment stays tracked along the runs whose steps meet the condition. -/
theorem run_tracks {es : List RetryEvent} {s : Retries} {paymentId : String}
    (halong : retries.Along (KeepsRegistry paymentId) es) (hrun : retries.run es = some s) :
    s.Tracks paymentId := by
  refine Machine.run_induction_along (M := retries) (P := fun _ s => s.Tracks paymentId)
    ?_ ?_ halong hrun
  · intro i
    simp [retries, Retries.LiveFor]
  · intro es s ev s' hs h hkeeps hstep
    exact h.step (run_retryInv hs) (run_pollInv hs) hkeeps hstep

/-- The condition on a step, for every payment. -/
def KeepsRegistries (s : Retries) (ev : RetryEvent) : Prop :=
  ∀ paymentId, KeepsRegistry paymentId s ev

theorem run_tracks_all {es : List RetryEvent} {s : Retries}
    (halong : retries.Along KeepsRegistries es) (hrun : retries.run es = some s)
    (paymentId : String) : s.Tracks paymentId :=
  run_tracks (fun pre ev post s₀ hes hs₀ => halong pre ev post s₀ hes hs₀ paymentId) hrun

/-- The registry mirrors the live pollers throughout a run exactly if every step keeps track. -/
theorem throughout_mirrors_iff {es : List RetryEvent} {s : Retries}
    (hrun : retries.run es = some s) :
    retries.Throughout Retries.Mirrors es ↔ retries.Along KeepsRegistries es := by
  refine Machine.run_induction (M := retries)
    (P := fun es _ => retries.Throughout Retries.Mirrors es ↔ retries.Along KeepsRegistries es)
    ?_ ?_ hrun
  · refine iff_of_true (Machine.throughout_nil.2 ?_) (Machine.along_nil _)
    exact Retries.Tracks.mirrors (run_tracks_all (Machine.along_nil _) rfl)
  · intro es s ev s' hs ih hstep
    have hrun' : retries.run (es ++ [ev]) = some s' := by
      rw [Machine.run_snoc, hs]
      exact hstep
    rw [Machine.throughout_snoc, Machine.along_snoc, ih]
    refine and_congr_right fun halong => ?_
    have htracks := run_tracks_all halong hs
    constructor
    · intro hmirrors t ht
      obtain rfl : s = t := Option.some.inj (hs.symm.trans ht)
      intro paymentId
      by_contra hloses
      exact not_mirrors_of_step htracks hloses hstep (hmirrors s' hrun')
    · intro hkeeps t ht
      obtain rfl : s' = t := Option.some.inj (hrun'.symm.trans ht)
      exact Retries.Tracks.mirrors fun paymentId =>
        (htracks paymentId).step (run_retryInv hs) (run_pollInv hs) (hkeeps s hs paymentId) hstep

theorem noLate_of_silent {es : List RetryEvent} {s : Retries} (hrun : retries.run es = some s)
    (hsilent : SilentAfterCancel es s) : NoLateAfterCancel es := by
  intro pre post s₀ hes hs₀ i hi status now hdecisive hmem
  obtain ⟨a, b, rfl⟩ := List.append_of_mem hmem
  have heq := hsilent pre _ s₀ hes hs₀ i hi
  have hsplit : es = (pre ++ [.cancelAllRetries] ++ a ++ [.statusReturns i status false now]) ++ b := by
    simp [hes]
  rw [hsplit] at hrun
  obtain ⟨s₂, hs₂⟩ := Machine.run_prefix hrun
  obtain ⟨s₁, hs₁, hstep⟩ := Machine.run_snoc_some hs₂
  have h₁ := effects_run hs₀ hs₁ i
  have h₂ := effects_statusReturns hdecisive hstep
  have h₃ := effects_run hs₂ hrun i
  rw [heq] at h₃
  omega

theorem silent_of_noLate {es : List RetryEvent} {s : Retries} (hrun : retries.run es = some s)
    (halong : retries.Along KeepsRegistries es) (hlate : NoLateAfterCancel es) :
    SilentAfterCancel es s := by
  intro pre post s₀ hes hs₀ i hi
  have hes' : es = (pre ++ [.cancelAllRetries]) ++ post := by simp [hes]
  have hsub : ∀ a b, post = a ++ b →
      retries.Along KeepsRegistries (pre ++ [.cancelAllRetries] ++ a) := by
    rintro a b rfl
    rw [hes', ← List.append_assoc] at halong
    exact halong.of_append
  have hlate' := hlate pre post s₀ hes hs₀ i hi
  -- right after `cancelAllRetries` nothing is registered, so nothing is live
  have hdead : s₀.DeadAt i := by
    refine ⟨s₀.entries[i], List.getElem?_eq_getElem hi, ?_⟩
    obtain ⟨t, -, hstep⟩ := Machine.run_snoc_some hs₀
    have htracks := run_tracks_all (hsub [] post rfl) (by simpa using hs₀)
      s₀.entries[i].paymentId
    by_contra hlive
    rw [Bool.not_eq_false] at hlive
    have hget := (htracks i).2 ⟨_, List.getElem?_eq_getElem hi, rfl, hlive⟩
    cases hstep
    cases hget
  rw [hes'] at hrun
  suffices h : ∀ rest, post ++ rest = post → s.DeadAt i ∧ s.effects i = s₀.effects i from
    (h [] (by simp)).2
  refine Machine.run_append_induction (M := retries) hs₀
    (P := fun a s => ∀ rest, a ++ rest = post → s.DeadAt i ∧ s.effects i = s₀.effects i)
    (fun _ _ => ⟨hdead, rfl⟩) ?_ hrun
  intro a t ev t' ht ih hstep rest hrest
  have hrest' : a ++ (ev :: rest) = post := by simpa using hrest
  obtain ⟨hdead, heffects⟩ := ih _ hrest'
  have htracks := run_tracks_all (hsub a _ hrest'.symm) ht
  obtain ⟨hdead', heffects'⟩ := hdead.step (fun paymentId => hdead.not_registered (htracks paymentId))
    (run_pollInv ht) (fun status now hdecisive heq => by
      refine hlate' status now hdecisive ?_
      rw [← hrest', ← heq]
      simp) hstep
  exact ⟨hdead', heffects'.trans heffects⟩

/-- **The registry mirrors the live pollers in every state of a run, and every registration is
silent after a `cancelAllRetries`, exactly when every step keeps track and no decisive status
arrives for a cancelled registration.** -/
theorem registry_mirrors_iff {es : List RetryEvent} {s : Retries}
    (hrun : retries.run es = some s) :
    retries.Throughout Retries.Mirrors es ∧ SilentAfterCancel es s ↔
      retries.Along KeepsRegistries es ∧ NoLateAfterCancel es := by
  rw [throughout_mirrors_iff hrun]
  exact and_congr_right fun halong =>
    ⟨noLate_of_silent hrun, silent_of_noLate hrun halong⟩

/-! ### Concrete runs -/

/-- One payment is cancelled while its timer is armed, and registered again. -/
def cancelledRun : List RetryEvent :=
  [.startBankRetry "pi_1" 0 0, .cancelAllRetries, .startBankRetry "pi_1" 5 5, .timerFires 1]

theorem registry_mirrors_iff_cancelledRun :
    ∃ s, retries.run cancelledRun = some s ∧
      (retries.Throughout Retries.Mirrors cancelledRun ∧ SilentAfterCancel cancelledRun s ↔
        retries.Along KeepsRegistries cancelledRun ∧ NoLateAfterCancel cancelledRun) :=
  ⟨_, rfl, registry_mirrors_iff rfl⟩

/-- `cancelAllRetries` while a check is in flight; the bank answers `pending`, and the timer that
is armed then calls `checkStatus` again. -/
def inFlightRun : List RetryEvent :=
  [.startBankRetry "pi_1" 0 0, .timerFires 0, .cancelAllRetries,
    .statusReturns 0 .pending false 60000, .timerFires 0]

theorem inFlightRun_rearms :
    ∃ s, retries.run inFlightRun = some s ∧ isRetrying "pi_1" s = false ∧
      s.effects 0 = [.checkStatus "pi_1", .checkStatus "pi_1"] ∧ ¬ s.Mirrors ∧
      ¬ SilentAfterCancel inFlightRun s := by
  refine ⟨_, rfl, by decide, by decide, ?_, ?_⟩
  · intro h
    have hretrying := (h "pi_1").2 ⟨0, ⟨_, rfl, by decide⟩, by
      rintro (_ | j) ⟨e, he, -⟩
      · rfl
      · cases he⟩
    exact absurd hretrying (by decide)
  · intro h
    exact absurd (h [.startBankRetry "pi_1" 0 0, .timerFires 0]
      [.statusReturns 0 .pending false 60000, .timerFires 0] _ rfl rfl 0 (by decide)) (by decide)

end Intellibiz.Commerce
