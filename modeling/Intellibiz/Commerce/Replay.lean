import Intellibiz.Commerce.Webhook

/-!
# Suppressed webhooks

The webhook route with one notification after another: each is parsed by its provider and passed
to `processWebhook`, whose handler succeeds before the next one arrives.

* `Gateway.processWebhook` — a whole call, as two steps of `gateway` (`sequential_gateway`).
* `OnlyReplays` — what is returned as a duplicate is a replay of a processed event.
* `IdsApart` — the event ids tell the events apart, across providers and event types.

Principal result: `onlyReplays_iff`.
-/

namespace Intellibiz.Commerce

/-- The clock readings of one call of `processWebhook`. -/
structure CallClock where
  evictAt : Nat
  checkAt : Nat
  markAt : Nat

variable {Handler : Type}

/-- `processWebhook` with a handler that succeeds before anything else happens. -/
def Gateway.processWebhook (handlers : JsMap String Handler) (event : WebhookEvent)
    (clock : CallClock) (s : Gateway Handler) : Gateway Handler :=
  let received := s.receive handlers event clock.evictAt clock.checkAt
  (received.step handlers (.handlerResolves s.deliveries.length clock.markAt)).getD received

/-- An inbound webhook. -/
structure Inbound where
  notification : Notification
  clock : CallClock

/-- The route of the providers; a body that its parser rejects does not reach `processWebhook`. -/
def sequential (handlers : JsMap String Handler) : Machine (Gateway Handler) Inbound where
  init := ⟨.empty, []⟩
  step s r :=
    match r.notification.parseWebhookEvent with
    | .error _ => none
    | .ok event => some (s.processWebhook handlers event r.clock)

theorem sequential_step {handlers : JsMap String Handler} {s s' : Gateway Handler} {r : Inbound}
    (h : (sequential handlers).step s r = some s') :
    ∃ event, r.notification.parseWebhookEvent = .ok event ∧
      s' = s.processWebhook handlers event r.clock := by
  simp only [sequential] at h
  split at h
  · cases h
  · rename_i event he
    exact ⟨event, he, by cases h; rfl⟩

/-- **The sequential route is one way of scheduling `gateway`.** -/
theorem sequential_gateway {handlers : JsMap String Handler} {rs : List Inbound}
    {s : Gateway Handler} (hrun : (sequential handlers).run rs = some s) :
    ∃ es, (gateway handlers).run es = some s := by
  refine Machine.run_induction (M := sequential handlers)
    (P := fun _ s => ∃ es, (gateway handlers).run es = some s) ⟨[], rfl⟩ ?_ hrun
  rintro rs s r s' - ⟨es, hes⟩ hstep
  obtain ⟨event, -, rfl⟩ := sequential_step hstep
  have hdeliver : (gateway handlers).run
      (es ++ [.deliver event r.clock.evictAt r.clock.checkAt]) =
        some (s.receive handlers event r.clock.evictAt r.clock.checkAt) := by
    rw [Machine.run_snoc, hes]
    rfl
  unfold Gateway.processWebhook
  dsimp only
  cases hres : (s.receive handlers event r.clock.evictAt r.clock.checkAt).step handlers
    (.handlerResolves s.deliveries.length r.clock.markAt) with
  | none => exact ⟨_, hdeliver⟩
  | some s' =>
    refine ⟨es ++ [.deliver event r.clock.evictAt r.clock.checkAt] ++
      [.handlerResolves s.deliveries.length r.clock.markAt], ?_⟩
    rw [Machine.run_snoc, hdeliver]
    exact hres

/-- What a call does when its provider has a handler. -/
theorem processWebhook_cases {handlers : JsMap String Handler} {event : WebhookEvent}
    (hreg : handlers.has event.provider = true) (clock : CallClock) (s : Gateway Handler) :
    (isDuplicate event.eventId clock.evictAt clock.checkAt s.cache).1 = true ∧
        s.processWebhook handlers event clock =
          ⟨evictExpired clock.evictAt s.cache,
            s.deliveries ++ [⟨event, .returned .duplicate⟩]⟩ ∨
      (isDuplicate event.eventId clock.evictAt clock.checkAt s.cache).1 = false ∧
        s.processWebhook handlers event clock =
          ⟨markProcessed event.eventId clock.markAt (evictExpired clock.evictAt s.cache),
            s.deliveries ++ [⟨event, .returned .processed⟩]⟩ := by
  obtain ⟨progress, hrec, hcases⟩ :=
    receive_cases handlers event clock.evictAt clock.checkAt s
  unfold Gateway.processWebhook
  dsimp only
  rw [hrec]
  rcases hcases with ⟨hd, rfl⟩ | ⟨-, hnone, -⟩ | ⟨hd, handler, -, rfl⟩
  · exact .inl ⟨hd, by simp [Gateway.step]⟩
  · simp [JsMap.has, hnone] at hreg
  · exact .inr ⟨hd, by simp [Gateway.step]⟩

/-! ## Replays -/

/-- Only replays of processed events are returned as duplicates. -/
def OnlyReplays (ds : List (Delivery Handler)) : Prop :=
  ∀ (pre : List (Delivery Handler)) (d : Delivery Handler) (post : List (Delivery Handler)),
    ds = pre ++ d :: post → d.progress = .returned .duplicate →
      ∃ d' ∈ pre, d'.progress = .returned .processed ∧ d'.event.Same d.event

theorem onlyReplays_snoc {ds : List (Delivery Handler)} {d : Delivery Handler} :
    OnlyReplays (ds ++ [d]) ↔ OnlyReplays ds ∧ (d.progress = .returned .duplicate →
      ∃ d' ∈ ds, d'.progress = .returned .processed ∧ d'.event.Same d.event) := by
  constructor
  · intro h
    refine ⟨fun pre x post hds hx => ?_, fun hd => h ds d [] rfl hd⟩
    exact h pre x (post ++ [d]) (by simp [hds]) hx
  · rintro ⟨h, hd⟩ pre x post hds hx
    rcases post.eq_nil_or_concat with rfl | ⟨post, y, rfl⟩
    · obtain ⟨rfl, hdx⟩ := List.append_inj' hds rfl
      obtain rfl : d = x := by simpa using hdx
      exact hd hx
    · rw [List.concat_eq_append, ← List.cons_append, ← List.append_assoc] at hds
      exact h pre x post (List.append_inj' hds rfl).1 hx

/-- Any two delivered events with one id have the same provider and type. -/
def EventsApart (ds : List (Delivery Handler)) : Prop :=
  ∀ d ∈ ds, ∀ d' ∈ ds, d.event.eventId = d'.event.eventId → d.event.Same d'.event

/-- Any two notifications that parse to one event id have the same provider and type. -/
def IdsApart (rs : List Inbound) : Prop :=
  ∀ r ∈ rs, ∀ r' ∈ rs, ∀ e e', r.notification.parseWebhookEvent = .ok e →
    r'.notification.parseWebhookEvent = .ok e' → e.eventId = e'.eventId → e.Same e'

theorem eventsApart_of_snoc {ds : List (Delivery Handler)} {d : Delivery Handler}
    (h : EventsApart (ds ++ [d])) : EventsApart ds :=
  fun x hx y hy => h x (by simp [hx]) y (by simp [hy])

/-- The deliveries are the parsed notifications, and the cache holds only processed events. -/
structure ReplayInv (rs : List Inbound) (s : Gateway Handler) : Prop where
  parsed : rs.map (·.notification.parseWebhookEvent) = s.deliveries.map (.ok ·.event)
  cached : ∀ k entry, s.cache.get k = some entry →
    ∃ d ∈ s.deliveries, d.progress = .returned .processed ∧ cacheKey d.event.eventId = k

variable {handlers : JsMap String Handler} {rs : List Inbound} {s : Gateway Handler}

theorem ReplayInv.idsApart (h : ReplayInv rs s) : EventsApart s.deliveries ↔ IdsApart rs := by
  constructor
  · intro hds r hr r' hr' e e' he he' hid
    have hmem : ∀ x ∈ rs, ∀ y, x.notification.parseWebhookEvent = .ok y →
        ∃ d ∈ s.deliveries, d.event = y := by
      intro x hx y hy
      have : (.ok y : Except Unit WebhookEvent) ∈ s.deliveries.map (.ok ·.event) :=
        h.parsed ▸ hy ▸ List.mem_map_of_mem hx
      simpa using this
    obtain ⟨d, hd, rfl⟩ := hmem r hr e he
    obtain ⟨d', hd', rfl⟩ := hmem r' hr' e' he'
    exact hds d hd d' hd' hid
  · intro hrs d hd d' hd' hid
    have hmem : ∀ x ∈ s.deliveries, ∃ r ∈ rs,
        r.notification.parseWebhookEvent = .ok x.event := by
      intro x hx
      have : (.ok x.event : Except Unit WebhookEvent) ∈
          rs.map (·.notification.parseWebhookEvent) :=
        h.parsed ▸ List.mem_map_of_mem hx
      simpa using this
    obtain ⟨r, hr, he⟩ := hmem d hd
    obtain ⟨r', hr', he'⟩ := hmem d' hd'
    exact hrs r hr r' hr' d.event d'.event he he' hid

theorem ReplayInv.init : ReplayInv [] (sequential handlers).init :=
  ⟨rfl, fun k entry h => by simp [sequential] at h⟩

/-- An event whose id is in the cache follows a processed event with that id. -/
theorem ReplayInv.processed_of_duplicate (h : ReplayInv rs s) {eventId : String}
    {evictAt now : Nat} (hdup : (isDuplicate eventId evictAt now s.cache).1 = true) :
    ∃ d ∈ s.deliveries, d.progress = .returned .processed ∧ d.event.eventId = eventId := by
  obtain ⟨entry, hget⟩ := Option.isSome_iff_exists.1 (marked_of_isDuplicate hdup)
  obtain ⟨d, hd, hp, hk⟩ := h.cached _ entry hget
  exact ⟨d, hd, hp, cacheKey_inj hk⟩

theorem ReplayInv.step (h : ReplayInv rs s) {r : Inbound} {event : WebhookEvent}
    (he : r.notification.parseWebhookEvent = .ok event)
    (hreg : handlers.has event.provider = true) :
    ReplayInv (rs ++ [r]) (s.processWebhook handlers event r.clock) := by
  rcases processWebhook_cases hreg r.clock s with ⟨-, hs⟩ | ⟨-, hs⟩
  · rw [hs]
    refine ⟨by simp [h.parsed, he], fun k entry hk => ?_⟩
    obtain ⟨d, hd, hp, hid⟩ := h.cached k entry (get_of_evictExpired hk)
    exact ⟨d, by simp [hd], hp, hid⟩
  · rw [hs]
    refine ⟨by simp [h.parsed, he], fun k entry hk => ?_⟩
    simp only [markProcessed, JsMap.get_set] at hk
    split at hk
    · rename_i hkey
      exact ⟨⟨event, .returned .processed⟩, by simp, rfl, hkey.symm⟩
    · obtain ⟨d, hd, hp, hid⟩ := h.cached k entry (get_of_evictExpired hk)
      exact ⟨d, by simp [hd], hp, hid⟩

/-- Events told apart by their ids: a duplicate can only be a replay. -/
theorem ReplayInv.onlyReplays_step (h : ReplayInv rs s) {r : Inbound} {event : WebhookEvent}
    (hreg : handlers.has event.provider = true)
    (ih : EventsApart s.deliveries → OnlyReplays s.deliveries) :
    let s' := s.processWebhook handlers event r.clock
    EventsApart s'.deliveries → OnlyReplays s'.deliveries := by
  intro s' hapart
  rcases processWebhook_cases hreg r.clock s with ⟨hdup, hs⟩ | ⟨-, hs⟩
  · have hds : s'.deliveries = s.deliveries ++ [⟨event, .returned .duplicate⟩] := by
      simp only [s', hs]
    rw [hds] at hapart ⊢
    obtain ⟨d, hd, hp, hid⟩ := h.processed_of_duplicate hdup
    have hsame : d.event.Same event :=
      hapart d (by simp [hd]) ⟨event, .returned .duplicate⟩ (by simp) hid
    exact onlyReplays_snoc.2 ⟨ih (eventsApart_of_snoc hapart), fun _ => ⟨d, hd, hp, hsame⟩⟩
  · have hds : s'.deliveries = s.deliveries ++ [⟨event, .returned .processed⟩] := by
      simp only [s', hs]
    rw [hds] at hapart ⊢
    exact onlyReplays_snoc.2 ⟨ih (eventsApart_of_snoc hapart), fun hp => by simp at hp⟩

/-! ## Within one lifetime of the cache -/

/-- Every clock reading of the call lies in the window. -/
def Inbound.InWindow (T : Nat) (r : Inbound) : Prop :=
  Window T r.clock.evictAt ∧ Window T r.clock.checkAt ∧ Window T r.clock.markAt

/-- The cache still knows every delivered event. -/
structure RememberInv (T : Nat) (s : Gateway Handler) : Prop where
  fresh : s.cache.Fresh T
  known : ∀ d ∈ s.deliveries, (s.cache.get (cacheKey d.event.eventId)).isSome
  apart : OnlyReplays s.deliveries → EventsApart s.deliveries

variable {T : Nat}

theorem RememberInv.init : RememberInv T (sequential handlers).init :=
  ⟨fresh_empty, by simp [sequential], fun _ d hd => by simp [sequential] at hd⟩

theorem eventsApart_snoc {ds : List (Delivery Handler)} {d : Delivery Handler}
    (h : EventsApart ds)
    (hd : ∀ x ∈ ds, x.event.eventId = d.event.eventId → x.event.Same d.event) :
    EventsApart (ds ++ [d]) := by
  intro x hx y hy hid
  rcases List.mem_append.1 hx with hx | hx <;> rcases List.mem_append.1 hy with hy | hy
  · exact h x hx y hy hid
  · cases List.mem_singleton.1 hy
    exact hd x hx hid
  · cases List.mem_singleton.1 hx
    exact (hd y hy hid.symm).symm
  · cases List.mem_singleton.1 hx
    cases List.mem_singleton.1 hy
    exact ⟨rfl, rfl, rfl⟩

theorem RememberInv.step (h : RememberInv T s) {r : Inbound} {event : WebhookEvent}
    (hreg : handlers.has event.provider = true) (hwin : r.InWindow T) :
    RememberInv T (s.processWebhook handlers event r.clock) := by
  obtain ⟨hevict, hcheck, hmark⟩ := hwin
  have hdup := isDuplicate_fresh h.fresh event.eventId hevict hcheck
  have hfresh := fresh_evict h.fresh r.clock.evictAt
  have hkept : ∀ d ∈ s.deliveries, ((evictExpired r.clock.evictAt s.cache).get
      (cacheKey d.event.eventId)).isSome := by
    intro d hd
    rw [get_evict h.fresh hevict]
    exact h.known d hd
  rcases processWebhook_cases hreg r.clock s with ⟨hd, hs⟩ | ⟨hd, hs⟩ <;> rw [hs] <;>
    rw [hdup] at hd
  · refine ⟨hfresh, ?_, ?_⟩
    · intro d hmem
      rcases List.mem_append.1 hmem with hmem | hmem
      · exact hkept d hmem
      · cases List.mem_singleton.1 hmem
        rw [get_evict h.fresh hevict]
        exact hd
    · intro hreplay
      obtain ⟨hold, hnew⟩ := onlyReplays_snoc.1 hreplay
      obtain ⟨d, hmem, -, hsame⟩ := hnew rfl
      have hapart := h.apart hold
      refine eventsApart_snoc hapart fun x hx hid => ?_
      -- both the earlier event and the replayed one carry the id
      have hxd : x.event.Same d.event := hapart x hx d hmem (hid.trans hsame.2.2.symm)
      exact hxd.trans hsame
  · refine ⟨fresh_mark hfresh event.eventId hmark, ?_, ?_⟩
    · intro d hmem
      rcases List.mem_append.1 hmem with hmem | hmem
      · exact markProcessed_keeps _ _ _ (hkept d hmem)
      · cases List.mem_singleton.1 hmem
        exact get_markProcessed _ _ _
    · intro hreplay
      obtain ⟨hold, -⟩ := onlyReplays_snoc.1 hreplay
      refine eventsApart_snoc (h.apart hold) fun x hx hid => ?_
      -- a processed event was not in the cache, so no earlier one has its id
      have hknown := h.known x hx
      rw [hid, hd] at hknown
      cases hknown

/-- **What is suppressed is a replay exactly when the ids tell the events apart.**  The condition
is enough under any clock; within one lifetime of the cache it is also necessary. -/
theorem onlyReplays_iff (hreg : ∀ p ∈ providerNames, handlers.has p = true)
    (hrun : (sequential handlers).run rs = some s) :
    (IdsApart rs → OnlyReplays s.deliveries) ∧
      ((∀ r ∈ rs, r.InWindow T) → (OnlyReplays s.deliveries ↔ IdsApart rs)) := by
  have hreplay : ReplayInv rs s ∧ (EventsApart s.deliveries → OnlyReplays s.deliveries) := by
    refine Machine.run_induction (M := sequential handlers) (P := fun rs s =>
      ReplayInv rs s ∧ (EventsApart s.deliveries → OnlyReplays s.deliveries)) ?_ ?_ hrun
    · exact ⟨.init, fun _ pre d post h => by simp [sequential] at h⟩
    · rintro rs s r s' - ⟨hinv, ih⟩ hstep
      obtain ⟨event, he, rfl⟩ := sequential_step hstep
      have hev := hreg event.provider (parse_provider he)
      exact ⟨hinv.step he hev, hinv.onlyReplays_step hev ih⟩
  obtain ⟨hinv, hsuff⟩ := hreplay
  refine ⟨fun h => hsuff (hinv.idsApart.2 h), fun hwin => ?_⟩
  have hremember : RememberInv T s := by
    refine Machine.run_induction (M := sequential handlers) (P := fun rs s =>
      (∀ r ∈ rs, r.InWindow T) → RememberInv T s) (fun _ => .init) ?_ hrun hwin
    intro rs s r s' _ ih hstep hwin
    obtain ⟨event, he, rfl⟩ := sequential_step hstep
    exact (ih fun x hx => hwin x (by simp [hx])).step (hreg event.provider (parse_provider he))
      (hwin r (by simp))
  exact ⟨fun h => hinv.idsApart.1 (hremember.apart h), fun h => hsuff (hinv.idsApart.2 h)⟩

/-! ### Concrete notifications -/

def sampleInput : ParserInput := ⟨[], 5⟩

def sampleClock : CallClock := ⟨5, 6, 7⟩

/-- Ozow reports one payment as pending and then as complete. -/
def ozowPending : Inbound :=
  ⟨.ozow (.obj [("id", .str "oz_1"), ("status", .str "PendingInvestigation")]) sampleInput,
    sampleClock⟩

def ozowComplete : Inbound :=
  ⟨.ozow (.obj [("id", .str "oz_1"), ("status", .str "Complete")]) sampleInput, sampleClock⟩

theorem onlyReplays_iff_ozow :
    ∃ s, (sequential sampleHandlers).run [ozowComplete, ozowComplete] = some s ∧
      (IdsApart [ozowComplete, ozowComplete] → OnlyReplays s.deliveries) ∧
      ((∀ r ∈ [ozowComplete, ozowComplete], r.InWindow 5) →
        (OnlyReplays s.deliveries ↔ IdsApart [ozowComplete, ozowComplete])) := by
  have hreg : ∀ p ∈ providerNames, sampleHandlers.has p = true := by decide
  cases hrun : (sequential sampleHandlers).run [ozowComplete, ozowComplete] with
  | none => cases hrun
  | some s => exact ⟨s, rfl, onlyReplays_iff hreg hrun⟩

/-- The completed payment is dropped as a duplicate of the pending one. -/
theorem ozowComplete_dropped :
    (∀ p ∈ providerNames, sampleHandlers.has p = true) ∧
      ∃ s, (sequential sampleHandlers).run [ozowPending, ozowComplete] = some s ∧
        s.deliveries.map (fun d => (d.event.type, d.progress)) =
          [("payment.pending", .returned .processed),
            ("payment.completed", .returned .duplicate)] ∧
        ¬ OnlyReplays s.deliveries := by
  refine ⟨by decide, _, rfl, by decide, fun h => ?_⟩
  generalize hds : Gateway.deliveries _ = ds at h
  have hmap : ds.map (fun d => (d.event.type, d.progress)) =
      [("payment.pending", .returned .processed),
        ("payment.completed", .returned .duplicate)] := by
    rw [← hds]
    decide
  obtain ⟨d, _, rfl, hd, hrest⟩ := List.map_eq_cons_iff.1 hmap
  obtain ⟨d', _, rfl, hd', hnil⟩ := List.map_eq_cons_iff.1 hrest
  obtain rfl := List.map_eq_nil_iff.1 hnil
  simp only [Prod.mk.injEq] at hd hd'
  obtain ⟨x, hx, -, hsame⟩ := h [d] d' [] rfl hd'.2
  cases List.mem_singleton.1 hx
  have htype : d.event.type = d'.event.type := hsame.2.1
  rw [hd.1, hd'.1] at htype
  exact absurd htype (by decide)

end Intellibiz.Commerce
