import Intellibiz.JsMap
import Intellibiz.Machine
import Intellibiz.Commerce.Providers

/-!
# Webhook deduplication

Model of `packages/commerce/src/webhooks/dedup.ts`.  Clock readings are arguments; the handlers
registered by provider are a parameter, and a handler is only ever awaited.

* `evictExpired` / `isDuplicate` / `markProcessed` — the cache of processed event ids.
* `Gateway.receive` / `Gateway.step` — `processWebhook` up to its `await` and from there on; a
  delivery waits for its handler while others arrive.

Principal results: `gateway_step_cases` (everything a step can do) and `serial_idempotent` (at
most one delivery of an event is processed when its deliveries do not overlap).
-/

namespace Intellibiz.Commerce

/-! ## The cache -/

def DEFAULT_TTL_MS : Nat := 24 * 60 * 60 * 1000

structure CacheEntry where
  processedAt : Nat
  expiresAt : Nat
  deriving DecidableEq, Repr

abbrev Cache := JsMap String CacheEntry

/-- `` `ibiz_wh_evt_${eventId}` `` -/
def cacheKey (eventId : String) : String := "ibiz_wh_evt_" ++ eventId

def evictExpired (now : Nat) (cache : Cache) : Cache :=
  cache.filter fun _ entry => !decide (entry.expiresAt < now)

/-- `evictAt` is the reading inside `evictExpired`, `now` the one of the comparison. -/
def isDuplicate (eventId : String) (evictAt now : Nat) (cache : Cache) : Bool × Cache :=
  let cache := evictExpired evictAt cache
  match cache.get (cacheKey eventId) with
  | none => (false, cache)
  | some entry => (decide (entry.expiresAt > now), cache)

def markProcessed (eventId : String) (now : Nat) (cache : Cache) : Cache :=
  cache.set (cacheKey eventId) { processedAt := now, expiresAt := now + DEFAULT_TTL_MS }

theorem cacheKey_inj {a b : String} (h : cacheKey a = cacheKey b) : a = b := by
  have h := congrArg String.toList h
  simp only [cacheKey, String.toList_append, List.append_cancel_left_eq] at h
  exact String.toList_inj.1 h

@[simp] theorem isDuplicate_cache (eventId : String) (evictAt now : Nat) (cache : Cache) :
    (isDuplicate eventId evictAt now cache).2 = evictExpired evictAt cache := by
  unfold isDuplicate
  dsimp only
  split <;> rfl

theorem get_of_evictExpired {now : Nat} {cache : Cache} {k : String} {entry : CacheEntry}
    (h : (evictExpired now cache).get k = some entry) : cache.get k = some entry :=
  (JsMap.get_filter_eq_some.1 h).1

/-- A duplicate has been marked. -/
theorem marked_of_isDuplicate {eventId : String} {evictAt now : Nat} {cache : Cache}
    (h : (isDuplicate eventId evictAt now cache).1 = true) :
    (cache.get (cacheKey eventId)).isSome := by
  simp only [isDuplicate] at h
  split at h
  · cases h
  · rename_i entry he
    rw [get_of_evictExpired he]
    rfl

/-! ### Readings within one lifetime -/

/-- The 24 hours from `T` on. -/
def Window (T t : Nat) : Prop := T ≤ t ∧ t < T + DEFAULT_TTL_MS

/-- No entry of the cache expires within the window. -/
def Cache.Fresh (T : Nat) (cache : Cache) : Prop :=
  ∀ k entry, cache.get k = some entry → T + DEFAULT_TTL_MS ≤ entry.expiresAt

section Fresh

variable {T : Nat} {cache : Cache}

theorem fresh_empty : Cache.Fresh T (JsMap.empty : Cache) := by
  intro k entry h
  simp at h

theorem fresh_evict (h : cache.Fresh T) (now : Nat) : Cache.Fresh T (evictExpired now cache) :=
  fun k entry he => h k entry (get_of_evictExpired he)

theorem fresh_mark (h : cache.Fresh T) (eventId : String) {now : Nat} (hnow : Window T now) :
    Cache.Fresh T (markProcessed eventId now cache) := by
  intro k entry he
  rw [markProcessed, JsMap.get_set] at he
  split at he
  · cases he
    exact Nat.add_le_add_right hnow.1 _
  · exact h k entry he

theorem get_evict (h : cache.Fresh T) {now : Nat} (hnow : Window T now) (k : String) :
    (evictExpired now cache).get k = cache.get k := by
  ext entry
  rw [evictExpired, JsMap.get_filter_eq_some]
  constructor
  · exact And.left
  · intro he
    have := h k entry he
    have := hnow.2
    exact ⟨he, by simp; omega⟩

/-- Within the window the cache forgets nothing. -/
theorem isDuplicate_fresh (h : cache.Fresh T) (eventId : String) {evictAt now : Nat}
    (he : Window T evictAt) (hnow : Window T now) :
    (isDuplicate eventId evictAt now cache).1 = (cache.get (cacheKey eventId)).isSome := by
  simp only [isDuplicate, get_evict h he]
  split
  · rename_i hk
    rw [hk]
    rfl
  · rename_i entry hk
    have := h _ entry hk
    have := hnow.2
    rw [hk]
    simp only [Option.isSome_some, decide_eq_true_eq]
    omega

end Fresh

/-! ## Deliveries -/

inductive WebhookResult where
  | processed
  | duplicate
  | noHandler
  deriving DecidableEq, Repr

inductive Progress (Handler : Type) where
  | handling (handler : Handler)
  | returned (result : WebhookResult)
  | failed
  deriving DecidableEq, Repr

/-- One call of `processWebhook`. -/
structure Delivery (Handler : Type) where
  event : WebhookEvent
  progress : Progress Handler

/-- The cache and the calls, in the order they were made. -/
structure Gateway (Handler : Type) where
  cache : Cache
  deliveries : List (Delivery Handler)

inductive GatewayEvent where
  | deliver (event : WebhookEvent) (evictAt now : Nat)
  | handlerResolves (i : Nat) (now : Nat)
  | handlerRejects (i : Nat)

variable {Handler : Type}

/-- `processWebhook` up to its `await`. -/
def Gateway.receive (handlers : JsMap String Handler) (event : WebhookEvent) (evictAt now : Nat)
    (s : Gateway Handler) : Gateway Handler :=
  let (duplicate, cache) := isDuplicate event.eventId evictAt now s.cache
  let progress := if duplicate then .returned .duplicate else
    match handlers.get event.provider with
    | none => .returned .noHandler
    | some handler => .handling handler
  { cache, deliveries := s.deliveries ++ [⟨event, progress⟩] }

def Gateway.step (handlers : JsMap String Handler) (s : Gateway Handler) :
    GatewayEvent → Option (Gateway Handler)
  | .deliver event evictAt now => some (s.receive handlers event evictAt now)
  | .handlerResolves i now =>
    match s.deliveries[i]? with
    | some ⟨event, .handling _⟩ =>
      some { cache := markProcessed event.eventId now s.cache
             deliveries := s.deliveries.set i ⟨event, .returned .processed⟩ }
    | _ => none
  | .handlerRejects i =>
    match s.deliveries[i]? with
    | some ⟨event, .handling _⟩ =>
      some { s with deliveries := s.deliveries.set i ⟨event, .failed⟩ }
    | _ => none

/-- Any number of `processWebhook` calls from the empty cache, interleaved at their `await`. -/
def gateway (handlers : JsMap String Handler) : Machine (Gateway Handler) GatewayEvent where
  init := ⟨.empty, []⟩
  step := Gateway.step handlers

/-- Everything a step can do. -/
theorem gateway_step_cases {handlers : JsMap String Handler} {s s' : Gateway Handler}
    {e : GatewayEvent} (h : s.step handlers e = some s') :
    (∃ event evictAt now, e = .deliver event evictAt now ∧
      s' = s.receive handlers event evictAt now) ∨
    (∃ i now event handler, e = .handlerResolves i now ∧
      s.deliveries[i]? = some ⟨event, .handling handler⟩ ∧
      s' = ⟨markProcessed event.eventId now s.cache,
        s.deliveries.set i ⟨event, .returned .processed⟩⟩) ∨
    ∃ i event handler, e = .handlerRejects i ∧
      s.deliveries[i]? = some ⟨event, .handling handler⟩ ∧
      s' = ⟨s.cache, s.deliveries.set i ⟨event, .failed⟩⟩ := by
  cases e with
  | deliver event evictAt now => exact .inl ⟨event, evictAt, now, rfl, by cases h; rfl⟩
  | handlerResolves i now =>
    simp only [Gateway.step] at h
    split at h
    · rename_i event handler hi
      exact .inr (.inl ⟨i, now, event, handler, rfl, hi, by cases h; rfl⟩)
    · cases h
  | handlerRejects i =>
    simp only [Gateway.step] at h
    split at h
    · rename_i event handler hi
      exact .inr (.inr ⟨i, event, handler, rfl, hi, by cases h; rfl⟩)
    · cases h

theorem receive_cases (handlers : JsMap String Handler) (event : WebhookEvent)
    (evictAt now : Nat) (s : Gateway Handler) :
    ∃ progress, s.receive handlers event evictAt now =
        ⟨evictExpired evictAt s.cache, s.deliveries ++ [⟨event, progress⟩]⟩ ∧
      ((isDuplicate event.eventId evictAt now s.cache).1 = true ∧
          progress = .returned .duplicate ∨
        (isDuplicate event.eventId evictAt now s.cache).1 = false ∧
          handlers.get event.provider = none ∧ progress = .returned .noHandler ∨
        (isDuplicate event.eventId evictAt now s.cache).1 = false ∧
          ∃ handler, handlers.get event.provider = some handler ∧
            progress = .handling handler) := by
  have hcache := isDuplicate_cache event.eventId evictAt now s.cache
  unfold Gateway.receive
  rcases hd : isDuplicate event.eventId evictAt now s.cache with ⟨dup, cache⟩
  rw [hd] at hcache
  cases hcache
  cases dup with
  | true => exact ⟨_, rfl, .inl ⟨rfl, rfl⟩⟩
  | false =>
    cases hg : handlers.get event.provider with
    | none => exact ⟨_, rfl, .inr (.inl ⟨rfl, rfl, rfl⟩)⟩
    | some handler => exact ⟨_, rfl, .inr (.inr ⟨rfl, handler, rfl, rfl⟩)⟩

/-! ## Deliveries that do not overlap -/

/-- The handler was let through and has not failed. -/
def Delivery.Admitted (d : Delivery Handler) : Prop :=
  (∃ handler, d.progress = .handling handler) ∨ d.progress = .returned .processed

/-- Of the deliveries of one event at most one is admitted. -/
def AdmittedOnce (ds : List (Delivery Handler)) : Prop :=
  ∀ (i j : Nat) (d d' : Delivery Handler), ds[i]? = some d → ds[j]? = some d' →
    d.event.Same d'.event → d.Admitted → d'.Admitted → i = j

theorem admittedOnce_snoc {ds : List (Delivery Handler)} {d : Delivery Handler}
    (h : AdmittedOnce ds)
    (hd : d.Admitted → ∀ x ∈ ds, x.event.Same d.event → ¬ x.Admitted) :
    AdmittedOnce (ds ++ [d]) := by
  intro i j x y hi hj hsame hx hy
  have hlast : ∀ {k : Nat} {z : Delivery Handler}, (ds ++ [d])[k]? = some z →
      ds[k]? = some z ∨ k = ds.length ∧ z = d := by
    intro k z hk
    rw [List.getElem?_append] at hk
    split at hk
    · exact .inl hk
    · have hk0 : k - ds.length = 0 := by
        by_contra hne
        simp [hne] at hk
      rw [hk0] at hk
      exact .inr ⟨by omega, by simpa using hk.symm⟩
  rcases hlast hi with hi' | ⟨rfl, rfl⟩ <;> rcases hlast hj with hj' | ⟨rfl, rfl⟩
  · exact h i j x y hi' hj' hsame hx hy
  · exact absurd hx (hd hy x (List.mem_of_getElem? hi') hsame)
  · exact absurd hy (hd hx y (List.mem_of_getElem? hj') hsame.symm)
  · rfl

/-- A delivery that waits for its handler is admitted, so how it ends admits no other. -/
theorem admittedOnce_set {ds : List (Delivery Handler)} {i : Nat} {event : WebhookEvent}
    {handler : Handler} (hi : ds[i]? = some ⟨event, .handling handler⟩)
    (progress : Progress Handler) (h : AdmittedOnce ds) :
    AdmittedOnce (ds.set i ⟨event, progress⟩) := by
  have hold : ∀ {k : Nat} {x : Delivery Handler}, (ds.set i ⟨event, progress⟩)[k]? = some x →
      ∃ y, ds[k]? = some y ∧ y.event = x.event ∧ (x.Admitted → y.Admitted) := by
    intro k x hk
    rw [List.getElem?_set] at hk
    split at hk
    · rename_i hik
      subst hik
      split at hk
      · cases hk
        exact ⟨_, hi, rfl, fun _ => .inl ⟨handler, rfl⟩⟩
      · cases hk
    · exact ⟨x, hk, rfl, id⟩
  intro j k x y hj hk hsame hx hy
  obtain ⟨x', hj', hex, hax⟩ := hold hj
  obtain ⟨y', hk', hey, hay⟩ := hold hk
  exact h j k x' y' hj' hk' (by rw [hex, hey]; exact hsame) (hax hx) (hay hy)

/-- Every clock reading of the event lies in the window. -/
def GatewayEvent.InWindow (T : Nat) : GatewayEvent → Prop
  | .deliver _ evictAt now => Window T evictAt ∧ Window T now
  | .handlerResolves _ now => Window T now
  | .handlerRejects _ => True

/-- An event arrives only while no delivery of it waits for its handler. -/
def Serial (s : Gateway Handler) : GatewayEvent → Prop
  | .deliver event _ _ =>
    ∀ d ∈ s.deliveries, d.event.Same event → ∀ handler, d.progress ≠ .handling handler
  | _ => True

/-- Every event with a handler is processed at most once, and every other delivery of it that
returned is a duplicate. -/
structure Idempotent (handlers : JsMap String Handler) (s : Gateway Handler) : Prop where
  once : ∀ (i j : Nat) (d d' : Delivery Handler), s.deliveries[i]? = some d →
    s.deliveries[j]? = some d' → d.event.Same d'.event →
    d.progress = .returned .processed → d'.progress = .returned .processed → i = j
  rest : ∀ d ∈ s.deliveries, handlers.has d.event.provider = true →
    ∀ result, d.progress = .returned result → result = .processed ∨ result = .duplicate

structure GatewayInv (handlers : JsMap String Handler) (T : Nat) (s : Gateway Handler) : Prop where
  fresh : s.cache.Fresh T
  marked : ∀ d ∈ s.deliveries, d.progress = .returned .processed →
    (s.cache.get (cacheKey d.event.eventId)).isSome
  admitted : AdmittedOnce s.deliveries
  handled : ∀ d ∈ s.deliveries, handlers.has d.event.provider = true →
    d.progress ≠ .returned .noHandler

variable {handlers : JsMap String Handler} {T : Nat}

theorem GatewayInv.idempotent {s : Gateway Handler} (h : GatewayInv handlers T s) :
    Idempotent handlers s := by
  refine ⟨fun i j d d' hi hj hs hd hd' => h.admitted i j d d' hi hj hs (.inr hd) (.inr hd'), ?_⟩
  intro d hd hreg result hres
  have hne := h.handled d hd hreg
  rw [hres] at hne
  cases result with
  | processed => exact .inl rfl
  | duplicate => exact .inr rfl
  | noHandler => exact absurd rfl hne

theorem GatewayInv.init : GatewayInv handlers T (gateway handlers).init :=
  ⟨fresh_empty, by simp [gateway], by intro i j d d' hi; simp [gateway] at hi, by simp [gateway]⟩

theorem GatewayInv.receive {s : Gateway Handler} (h : GatewayInv handlers T s)
    {event : WebhookEvent} {evictAt now : Nat} (hevict : Window T evictAt) (hnow : Window T now)
    (hserial : Serial s (.deliver event evictAt now)) :
    GatewayInv handlers T (s.receive handlers event evictAt now) := by
  obtain ⟨progress, hrec, hcases⟩ := receive_cases handlers event evictAt now s
  have hdup := isDuplicate_fresh h.fresh event.eventId hevict hnow
  have hproc : progress ≠ .returned .processed := by
    rcases hcases with ⟨-, rfl⟩ | ⟨-, -, rfl⟩ | ⟨-, handler, -, rfl⟩ <;> simp
  rw [hrec]
  refine ⟨fresh_evict h.fresh evictAt, ?_, admittedOnce_snoc h.admitted ?_, ?_⟩
  · intro d hd hp
    rw [get_evict h.fresh hevict]
    rcases List.mem_append.1 hd with hd | hd
    · exact h.marked d hd hp
    · cases List.mem_singleton.1 hd
      exact absurd hp hproc
  · rintro (⟨handler, hp⟩ | hp) x hx hsame
    · -- the new delivery waits for its handler, so its id was not in the cache
      have hnone : (s.cache.get (cacheKey event.eventId)).isSome = false := by
        rw [← hdup]
        rcases hcases with ⟨-, rfl⟩ | ⟨-, -, rfl⟩ | ⟨hd, -⟩
        · cases hp
        · cases hp
        · exact hd
      rintro (⟨handler', hx'⟩ | hx')
      · exact hserial x hx hsame handler' hx'
      · have hid : x.event.eventId = event.eventId := hsame.2.2
        have := h.marked x hx hx'
        rw [hid, hnone] at this
        cases this
    · exact absurd hp hproc
  · intro d hd hreg
    rcases List.mem_append.1 hd with hd | hd
    · exact h.handled d hd hreg
    · cases List.mem_singleton.1 hd
      rcases hcases with ⟨-, rfl⟩ | ⟨-, hnone, rfl⟩ | ⟨-, handler, -, rfl⟩
      · simp
      · simp [JsMap.has, hnone] at hreg
      · simp

theorem GatewayInv.settle {s : Gateway Handler} (h : GatewayInv handlers T s) {i : Nat}
    {event : WebhookEvent} {handler : Handler}
    (hi : s.deliveries[i]? = some ⟨event, .handling handler⟩) {cache : Cache}
    {progress : Progress Handler} (hfresh : cache.Fresh T)
    (hkeep : ∀ k, (s.cache.get k).isSome → (cache.get k).isSome)
    (hmark : progress = .returned .processed → (cache.get (cacheKey event.eventId)).isSome)
    (hne : progress ≠ .returned .noHandler) :
    GatewayInv handlers T ⟨cache, s.deliveries.set i ⟨event, progress⟩⟩ := by
  refine ⟨hfresh, ?_, admittedOnce_set hi progress h.admitted, ?_⟩
  · intro d hd hp
    rcases List.mem_or_eq_of_mem_set hd with hd | rfl
    · exact hkeep _ (h.marked d hd hp)
    · exact hmark hp
  · intro d hd hreg
    rcases List.mem_or_eq_of_mem_set hd with hd | rfl
    · exact h.handled d hd hreg
    · exact hne

theorem get_markProcessed (eventId : String) (now : Nat) (cache : Cache) :
    ((markProcessed eventId now cache).get (cacheKey eventId)).isSome := by
  simp [markProcessed, JsMap.get_set]

theorem markProcessed_keeps (eventId : String) (now : Nat) (cache : Cache) {k : String}
    (h : (cache.get k).isSome) : ((markProcessed eventId now cache).get k).isSome := by
  rw [markProcessed, JsMap.get_set]
  split
  · rfl
  · exact h

theorem GatewayInv.step {s s' : Gateway Handler} {e : GatewayEvent}
    (h : GatewayInv handlers T s) (hwin : e.InWindow T) (hserial : Serial s e)
    (hstep : s.step handlers e = some s') : GatewayInv handlers T s' := by
  obtain ⟨event, evictAt, now, rfl, rfl⟩ | ⟨i, now, event, handler, rfl, hi, rfl⟩ |
    ⟨i, event, handler, rfl, hi, rfl⟩ := gateway_step_cases hstep
  · exact h.receive hwin.1 hwin.2 hserial
  · exact h.settle hi (fresh_mark h.fresh event.eventId hwin)
      (fun _ hk => markProcessed_keeps event.eventId now s.cache hk)
      (fun _ => get_markProcessed event.eventId now s.cache) (by simp)
  · exact h.settle hi h.fresh (fun _ hk => hk) (by simp) (by simp)

/-- **Deliveries that do not overlap are idempotent**, in every state of every run whose clock
readings lie within one lifetime of the cache. -/
theorem serial_idempotent {es : List GatewayEvent} {s : Gateway Handler}
    (hrun : (gateway handlers).run es = some s) (hwin : ∀ e ∈ es, e.InWindow T)
    (hserial : (gateway handlers).Along Serial es) : Idempotent handlers s := by
  refine GatewayInv.idempotent (T := T) ?_
  refine Machine.run_induction_along (M := gateway handlers)
    (P := fun es s => (∀ e ∈ es, e.InWindow T) → GatewayInv handlers T s) (fun _ => .init) ?_
    hserial hrun hwin
  intro es s e s' _ ih hC hstep hwin
  exact (ih fun x hx => hwin x (by simp [hx])).step (hwin e (by simp)) hC hstep

/-! ### Concrete deliveries -/

def sampleEvent : WebhookEvent where
  type := "payment_intent.succeeded"
  payload := .obj []
  eventId := "evt_1"
  provider := "stripe"
  timestamp := 1700000000000

def sampleHandlers : JsMap String String :=
  ((JsMap.empty.set "stripe" "onStripe").set "payfast" "onPayFast").set "ozow" "onOzow"

/-- A delivery whose handler fails, and its redelivery after that. -/
def serialRun : List GatewayEvent :=
  [.deliver sampleEvent 5 5, .handlerRejects 0, .deliver sampleEvent 6 6, .handlerResolves 1 7]

theorem serial_idempotent_serialRun :
    ∃ s, (gateway sampleHandlers).run serialRun = some s ∧ Idempotent sampleHandlers s := by
  have hwin : ∀ e ∈ serialRun, e.InWindow 5 := by
    simp [serialRun, GatewayEvent.InWindow, Window, DEFAULT_TTL_MS]
  have hserial : (gateway sampleHandlers).Along Serial serialRun := by
    rw [Machine.along_iff_from]
    refine ⟨fun d hd => by simp [gateway] at hd, fun s hs => ?_⟩
    obtain rfl := Option.some.inj hs
    refine ⟨trivial, fun s hs => ?_⟩
    obtain rfl := Option.some.inj hs
    refine ⟨fun d hd _ handler => ?_, fun s hs => ?_⟩
    · obtain rfl : d = ⟨sampleEvent, .failed⟩ := List.mem_singleton.1 hd
      simp
    · obtain rfl := Option.some.inj hs
      exact ⟨trivial, fun _ _ => trivial⟩
  cases hrun : (gateway sampleHandlers).run serialRun with
  | none => cases hrun
  | some s => exact ⟨s, rfl, serial_idempotent hrun hwin hserial⟩

/-- Two overlapping deliveries of one event. -/
def overlapRun : List GatewayEvent :=
  [.deliver sampleEvent 5 5, .deliver sampleEvent 6 6, .handlerResolves 0 7, .handlerResolves 1 8]

theorem overlapRun_processed_twice :
    ∃ s, (gateway sampleHandlers).run overlapRun = some s ∧ (∀ e ∈ overlapRun, e.InWindow 5) ∧
      ¬ Idempotent sampleHandlers s := by
  refine ⟨_, rfl, ?_, fun h => ?_⟩
  · simp [overlapRun, GatewayEvent.InWindow, Window, DEFAULT_TTL_MS]
  · have := h.once 0 1 _ _ rfl rfl ⟨rfl, rfl, rfl⟩ rfl rfl
    cases this

end Intellibiz.Commerce
