import Intellibiz.Commerce.Replay
import Intellibiz.Commerce.Stripe

/-!
# The webhook route of a generated project

`paymentWebhook`, the route handler that `buildWebhookHandler` of `packages/cli/src/scaffold.ts`
writes: the Stripe signature is checked on the raw body, the body is parsed and the event goes
through `processWebhook`.  Any number of requests are in flight; whoever has seen a request can send
it again.  `JSON.parse` is a parameter.

* `Request` — the body and the header, with the clock readings that the route makes for it.
* `receive` — the route up to the `await` of the handler; `route` — all requests, as a machine over
  the gateway of `processWebhook`.
* `Timely` — the clock does not go back, and a request reaches the cache within a delay of its
  signature check.
* `RepeatSuppressed` — what was processed is not handled once more when it is sent again.

Principal results: `step_cases` (everything a step can do), `RouteInv` and `step_inv`, `window` (when
one header is accepted twice), and from them `repeats_suppressed_iff`: the tolerance of the signature
and the lifetime of the cache together keep every replay out, exactly when the tolerance is short
enough.
-/

namespace Intellibiz.Commerce.PaymentWebhook

open Extended JsNumber
open Db (Text)

/-! ## The route -/

structure Request where
  body : Text
  /-- `req.headers['stripe-signature'] ?? ''` -/
  signature : Text
  /-- What `parseWebhookEvent` consumes. -/
  input : ParserInput
  verifiedAt : ℕ
  evictAt : ℕ
  checkAt : ℕ

inductive Refusal where
  /-- `INVALID_SIGNATURE`, status 400 -/
  | invalidSignature
  /-- The parser throws. -/
  | malformed
  deriving DecidableEq

structure Setup (Handler : Type) where
  crypto : NodeCrypto
  config : StripeProvider.StripeConfig
  parseJson : Text → Option Json
  handlers : JsMap String Handler

/-- The calls of `processWebhook` and, in the same order, the requests that made them. -/
structure Route (Handler : Type) where
  gateway : Gateway Handler
  requests : List Request

inductive Event where
  | request (r : Request)
  | handlerResolves (i : ℕ) (now : ℕ)
  | handlerRejects (i : ℕ)

variable {Handler : Type} (S : Setup Handler)

/-- `stripe.verifyWebhookSignature(req.rawBody, signature)` -/
def Setup.verified (r : Request) : Bool :=
  StripeProvider.verifyWebhookSignature S.crypto S.config r.verifiedAt r.body r.signature

/-- `stripe.parseWebhookEvent(req.rawBody)` -/
def Setup.parsed (r : Request) : Except Unit WebhookEvent :=
  match S.parseJson r.body with
  | none => .error ()
  | some json => StripeProvider.parseWebhookEvent json r.input

/-- `paymentWebhook` up to the `await` of the handler. -/
def Route.receive (s : Route Handler) (r : Request) : Except Refusal (Route Handler) :=
  if S.verified r then
    match S.parsed r with
    | .error _ => .error .malformed
    | .ok event => .ok
      { gateway := s.gateway.receive S.handlers event r.evictAt r.checkAt
        requests := s.requests ++ [r] }
  else .error .invalidSignature

def Route.step (s : Route Handler) : Event → Option (Route Handler)
  | .request r =>
    match s.receive S r with
    | .ok s' => some s'
    | .error _ => some s
  | .handlerResolves i now =>
    (s.gateway.step S.handlers (.handlerResolves i now)).map fun gateway => { s with gateway }
  | .handlerRejects i =>
    (s.gateway.step S.handlers (.handlerRejects i)).map fun gateway => { s with gateway }

/-- Requests interleaved at the `await` of their handlers. -/
def route : Machine (Route Handler) Event where
  init := ⟨⟨.empty, []⟩, []⟩
  step := Route.step S

variable {S}

/-- What the arrival of a request does. -/
theorem receive_cases (s : Route Handler) (r : Request) :
    (∃ refusal, s.receive S r = .error refusal) ∨
    ∃ event, S.verified r = true ∧ S.parsed r = .ok event ∧ s.receive S r = .ok
      { gateway := s.gateway.receive S.handlers event r.evictAt r.checkAt
        requests := s.requests ++ [r] } := by
  unfold Route.receive
  cases hverified : S.verified r with
  | false => exact .inl ⟨_, rfl⟩
  | true =>
    cases hparsed : S.parsed r with
    | error err => exact .inl ⟨_, rfl⟩
    | ok event => exact .inr ⟨event, rfl, rfl, rfl⟩

/-- Everything a step can do. -/
theorem step_cases {s s' : Route Handler} {e : Event} (h : s.step S e = some s') :
    (∃ r, e = .request r ∧ s' = s) ∨
    (∃ r event, e = .request r ∧ S.verified r = true ∧ S.parsed r = .ok event ∧
      s' = { gateway := s.gateway.receive S.handlers event r.evictAt r.checkAt
             requests := s.requests ++ [r] }) ∨
    (∃ i now event handler, e = .handlerResolves i now ∧
      s.gateway.deliveries[i]? = some ⟨event, .handling handler⟩ ∧
      s' = { s with gateway := ⟨markProcessed event.eventId now s.gateway.cache,
        s.gateway.deliveries.set i ⟨event, .returned .processed⟩⟩ }) ∨
    ∃ i event handler, e = .handlerRejects i ∧
      s.gateway.deliveries[i]? = some ⟨event, .handling handler⟩ ∧
      s' = { s with gateway := ⟨s.gateway.cache,
        s.gateway.deliveries.set i ⟨event, .failed⟩⟩ } := by
  cases e with
  | request r =>
    rcases receive_cases (S := S) s r with ⟨refusal, hr⟩ | ⟨event, hverified, hparsed, hr⟩
    · simp only [Route.step, hr, Option.some.injEq] at h
      exact .inl ⟨r, rfl, h.symm⟩
    · simp only [Route.step, hr, Option.some.injEq] at h
      exact .inr (.inl ⟨r, event, rfl, hverified, hparsed, h.symm⟩)
  | handlerResolves i now =>
    obtain ⟨gateway, hgateway, rfl⟩ := Option.map_eq_some_iff.1 h
    rcases gateway_step_cases hgateway with ⟨_, _, _, he, _⟩ | ⟨_, _, event, handler, he, hi, rfl⟩ |
      ⟨_, _, _, he, _⟩
    · cases he
    · cases he
      exact .inr (.inr (.inl ⟨i, now, event, handler, rfl, hi, rfl⟩))
    · cases he
  | handlerRejects i =>
    obtain ⟨gateway, hgateway, rfl⟩ := Option.map_eq_some_iff.1 h
    rcases gateway_step_cases hgateway with ⟨_, _, _, he, _⟩ | ⟨_, _, _, _, he, _⟩ |
      ⟨_, event, handler, he, hi, rfl⟩
    · cases he
    · cases he
    · cases he
      exact .inr (.inr (.inr ⟨i, event, handler, rfl, hi, rfl⟩))

/-! ## Time -/

/-- The clock readings that touch the cache. -/
def Event.readings : Event → List ℕ
  | .request r => [r.evictAt, r.checkAt]
  | .handlerResolves _ now => [now]
  | .handlerRejects _ => []

def readings (es : List Event) : List ℕ := es.flatMap Event.readings

theorem readings_snoc (es : List Event) (e : Event) :
    readings (es ++ [e]) = readings es ++ e.readings := by
  simp [readings]

/-- The readings are in order, and a request is looked up at most `delay` milliseconds after its
signature was checked. -/
structure Timely (delay : ℕ) (es : List Event) : Prop where
  ordered : (readings es).Pairwise (· ≤ ·)
  prompt : ∀ r, .request r ∈ es →
    r.verifiedAt ≤ r.evictAt ∧ r.checkAt ≤ r.verifiedAt + delay ∧ r.verifiedAt < 2 ^ 53

theorem Timely.of_append {delay : ℕ} {es es' : List Event} (h : Timely delay (es ++ es')) :
    Timely delay es := by
  refine ⟨?_, fun r hr => h.prompt r (List.mem_append_left es' hr)⟩
  have hordered := h.ordered
  rw [readings, List.flatMap_append, List.pairwise_append] at hordered
  exact hordered.1

/-- A later reading is no smaller. -/
theorem Timely.later {delay : ℕ} {es : List Event} {e : Event} (h : Timely delay (es ++ [e]))
    {x y : ℕ} (hx : x ∈ readings es) (hy : y ∈ e.readings) : x ≤ y := by
  have hordered := h.ordered
  rw [readings_snoc, List.pairwise_append] at hordered
  exact hordered.2.2 x hx y hy

theorem Timely.evict_le_check {delay : ℕ} {es : List Event} {r : Request}
    (h : Timely delay (es ++ [.request r])) : r.evictAt ≤ r.checkAt := by
  have hordered := h.ordered
  rw [readings_snoc, List.pairwise_append] at hordered
  simpa [Event.readings] using hordered.2.1

theorem mem_readings {es : List Event} {r : Request} (h : .request r ∈ es) :
    r.evictAt ∈ readings es :=
  List.mem_flatMap.2 ⟨_, h, by simp [Event.readings]⟩

/-! ## One header, accepted twice -/

/-- An age within the tolerance, without the rounding of the subtraction. -/
theorem near_of_age_le {n now : ℕ} {q : ℚ} (hn : n < 2 ^ 51) (hnow : now < 2 ^ 53)
    (h : StripeProvider.age now (finite q) ≤ finite n) :
    |((now / 1000 : ℕ) : ℚ) - q| < n + 1 / 2 := by
  have hseconds : StripeProvider.seconds now = finite ((now / 1000 : ℕ) : ℚ) := by
    rw [StripeProvider.seconds_eq (Int.natCast_nonneg now) (by exact_mod_cast hnow)]
    norm_cast
  have hage : StripeProvider.age now (finite q) =
      (binary64.result (((now / 1000 : ℕ) : ℚ) + -q)).abs := by
    rw [StripeProvider.age, hseconds]
    rfl
  rw [hage, Format.result, ← sub_eq_add_neg] at h
  split at h
  · -- an infinite age is over every tolerance
    rcases h with h | h
    · cases h
    · exact absurd h (by simp [Extended.abs, Extended.lt])
  · refine abs_lt_of_abs_round_le hn ?_
    rcases h with h | h
    · exact (Extended.finite.inj h).le
    · exact (finite_lt_finite.1 h).le

/-- **The window of a header.**  What is accepted at two times was accepted within twice the
tolerance, in whole seconds. -/
theorem window {n : ℕ} (htolerance : S.config.tolerance = finite n) (hpositive : 0 < n)
    (hn : n < 2 ^ 51) {r r₀ : Request} (hbody : r.body = r₀.body)
    (hsignature : r.signature = r₀.signature) (hnow : r.verifiedAt < 2 ^ 53)
    (hnow₀ : r₀.verifiedAt < 2 ^ 53) (h : S.verified r = true) (h₀ : S.verified r₀ = true) :
    r.verifiedAt ≤ r₀.verifiedAt + 2000 * n + 999 := by
  rw [Setup.verified, hbody, hsignature] at h
  obtain ⟨_, _, _, timestamp, htimestamp, hfresh, _⟩ :=
    (StripeProvider.verifyWebhookSignature_eq_true rfl).1 h
  obtain ⟨_, _, _, timestamp₀, htimestamp₀, hfresh₀, _⟩ :=
    (StripeProvider.verifyWebhookSignature_eq_true rfl).1 h₀
  obtain rfl : timestamp = timestamp₀ := Option.some.inj (htimestamp.symm.trans htimestamp₀)
  have hgt : finite 0 < S.config.tolerance := by
    rw [htolerance]
    exact finite_lt_finite.2 (by exact_mod_cast hpositive)
  obtain ⟨q, hq, hage⟩ := hfresh hgt
  obtain ⟨q₀, hq₀, hage₀⟩ := hfresh₀ hgt
  obtain rfl : q = q₀ := by
    rw [hq] at hq₀
    exact Extended.finite.inj hq₀
  rw [htolerance] at hage hage₀
  have hnear := near_of_age_le hn hnow hage
  have hnear₀ := near_of_age_le hn hnow₀ hage₀
  -- both clocks are less than `n + 1 / 2` seconds away from the timestamp
  have hseconds :
      ((r.verifiedAt / 1000 : ℕ) : ℚ) < ((r₀.verifiedAt / 1000 + 2 * n + 1 : ℕ) : ℚ) := by
    rw [abs_lt] at hnear hnear₀
    push_cast
    linarith [hnear.2, hnear₀.1]
  have hseconds : r.verifiedAt / 1000 < r₀.verifiedAt / 1000 + 2 * n + 1 := by
    exact_mod_cast hseconds
  omega

/-! ## The cache holds what was processed -/

/-- The event of a request is in the cache, for its lifetime from the signature check on, or a
reading shows that this lifetime is over. -/
def Kept (cache : Cache) (rs : List ℕ) (r : Request) (eventId : String) : Prop :=
  (∃ entry, cache.get (cacheKey eventId) = some entry ∧
      r.verifiedAt + DEFAULT_TTL_MS ≤ entry.expiresAt) ∨
    ∃ x ∈ rs, r.verifiedAt + DEFAULT_TTL_MS < x

section Kept

variable {cache : Cache} {rs rs' : List ℕ} {r : Request} {eventId : String}

theorem Kept.mono (h : Kept cache rs r eventId) (hsub : rs ⊆ rs') : Kept cache rs' r eventId := by
  rcases h with h | ⟨x, hx, hlt⟩
  · exact .inl h
  · exact .inr ⟨x, hsub hx, hlt⟩

/-- An eviction at a reading takes expired entries only. -/
theorem Kept.evict (h : Kept cache rs r eventId) {now : ℕ} (hnow : now ∈ rs) :
    Kept (evictExpired now cache) rs r eventId := by
  rcases h with ⟨entry, hentry, hexpires⟩ | h
  · by_cases hexpired : entry.expiresAt < now
    · exact .inr ⟨now, hnow, by omega⟩
    · refine .inl ⟨entry, ?_, hexpires⟩
      rw [evictExpired, JsMap.get_filter_eq_some]
      exact ⟨hentry, by simpa using hexpired⟩
  · exact .inr h

theorem kept_mark (rs : List ℕ) (cache : Cache) {now : ℕ} (hnow : r.verifiedAt ≤ now) :
    Kept (markProcessed eventId now cache) rs r eventId := by
  refine .inl ⟨⟨now, now + DEFAULT_TTL_MS⟩, ?_, Nat.add_le_add_right hnow _⟩
  rw [markProcessed, JsMap.get_set, if_pos rfl]

/-- A later mark lasts longer. -/
theorem Kept.mark (h : Kept cache rs r eventId) (eventId' : String) {now : ℕ}
    (hnow : r.verifiedAt ≤ now) : Kept (markProcessed eventId' now cache) rs r eventId := by
  by_cases hid : eventId' = eventId
  · rw [hid]
    exact kept_mark rs cache hnow
  · rcases h with ⟨entry, hentry, hexpires⟩ | h
    · refine .inl ⟨entry, ?_, hexpires⟩
      rw [markProcessed, JsMap.get_set, if_neg fun hkey => hid (cacheKey_inj hkey).symm]
      exact hentry
    · exact .inr h

/-- An entry that outlives the lookup makes a duplicate. -/
theorem Kept.isDuplicate (h : Kept cache rs r eventId) {evictAt now : ℕ} (hle : evictAt ≤ now)
    (hrs : ∀ x ∈ rs, x ≤ now) (hnow : now < r.verifiedAt + DEFAULT_TTL_MS) :
    (isDuplicate eventId evictAt now cache).1 = true := by
  rcases h with ⟨entry, hentry, hexpires⟩ | ⟨x, hx, hlt⟩
  · have hget : (evictExpired evictAt cache).get (cacheKey eventId) = some entry := by
      rw [evictExpired, JsMap.get_filter_eq_some]
      refine ⟨hentry, ?_⟩
      have hlast : ¬ entry.expiresAt < evictAt := by omega
      simpa using hlast
    simp only [Commerce.isDuplicate, hget, decide_eq_true_eq]
    omega
  · have hle := hrs x hx
    omega

end Kept

/-- The `i`-th call of `processWebhook` and the request that made it. -/
structure Route.At (s : Route Handler) (i : ℕ) (r : Request) (d : Delivery Handler) : Prop where
  request : s.requests[i]? = some r
  delivery : s.gateway.deliveries[i]? = some d

theorem at_receive {s : Route Handler} (haligned : s.requests.length = s.gateway.deliveries.length)
    {cache : Cache} {r' : Request} {d' : Delivery Handler} {i : ℕ} {r : Request}
    {d : Delivery Handler}
    (h : Route.At ⟨⟨cache, s.gateway.deliveries ++ [d']⟩, s.requests ++ [r']⟩ i r d) :
    s.At i r d ∨ r = r' ∧ d = d' := by
  obtain ⟨hr, hd⟩ := h
  rw [List.getElem?_append] at hr hd
  rw [haligned] at hr
  split at hr
  · rename_i hlt
    rw [if_pos hlt] at hd
    exact .inl ⟨hr, hd⟩
  · rename_i hge
    rw [if_neg hge] at hd
    refine .inr ⟨?_, ?_⟩
    · simpa using List.mem_of_getElem? hr
    · simpa using List.mem_of_getElem? hd

theorem at_set {s : Route Handler} {cache : Cache} {i : ℕ} {event : WebhookEvent}
    {handler : Handler} (hi : s.gateway.deliveries[i]? = some ⟨event, .handling handler⟩)
    {progress : Progress Handler} {j : ℕ} {r : Request} {d : Delivery Handler}
    (h : Route.At { s with gateway := ⟨cache, s.gateway.deliveries.set i ⟨event, progress⟩⟩ } j r d) :
    s.At j r d ∨ d = ⟨event, progress⟩ ∧ s.At j r ⟨event, .handling handler⟩ := by
  obtain ⟨hr, hd⟩ := h
  by_cases hij : i = j
  · subst hij
    have hlt := (List.getElem?_eq_some_iff.1 hi).1
    rw [List.getElem?_set_self hlt] at hd
    exact .inr ⟨(Option.some.inj hd).symm, hr, hi⟩
  · rw [List.getElem?_set_ne hij] at hd
    exact .inl ⟨hr, hd⟩

structure RouteInv (S : Setup Handler) (es : List Event) (s : Route Handler) : Prop where
  aligned : s.requests.length = s.gateway.deliveries.length
  accepted : ∀ i r d, s.At i r d →
    .request r ∈ es ∧ S.verified r = true ∧ S.parsed r = .ok d.event
  kept : ∀ i r d, s.At i r d → d.progress = .returned .processed →
    Kept s.gateway.cache (readings es) r d.event.eventId

theorem init_inv : RouteInv S [] (route S).init := by
  refine ⟨rfl, ?_, ?_⟩
  · rintro i r d ⟨hr, -⟩
    simp [route] at hr
  · rintro i r d ⟨hr, -⟩
    simp [route] at hr

variable {delay : ℕ}

/-- The signature of a request is checked before its event is marked. -/
theorem RouteInv.verified_le {es : List Event} {s : Route Handler} {e : Event}
    (h : RouteInv S es s) (htimely : Timely delay (es ++ [e])) {i : ℕ} {r : Request}
    {d : Delivery Handler} (hat : s.At i r d) {y : ℕ} (hy : y ∈ e.readings) : r.verifiedAt ≤ y := by
  obtain ⟨hmem, -⟩ := h.accepted i r d hat
  have hprompt := (htimely.prompt r (List.mem_append_left [e] hmem)).1
  exact hprompt.trans (htimely.later (mem_readings hmem) hy)

/-- **One step** keeps the invariant. -/
theorem step_inv {es : List Event} {s s' : Route Handler} {e : Event} (h : RouteInv S es s)
    (htimely : Timely delay (es ++ [e])) (hstep : s.step S e = some s') :
    RouteInv S (es ++ [e]) s' := by
  have hsub : readings es ⊆ readings (es ++ [e]) := by
    rw [readings_snoc]
    exact List.subset_append_left _ _
  have hmem : ∀ {y}, y ∈ e.readings → y ∈ readings (es ++ [e]) := by
    intro y hy
    rw [readings_snoc]
    exact List.mem_append_right _ hy
  rcases step_cases hstep with ⟨r, rfl, rfl⟩ | ⟨r, event, rfl, hverified, hparsed, rfl⟩ |
    ⟨i, now, event, handler, rfl, hi, rfl⟩ | ⟨i, event, handler, rfl, hi, rfl⟩
  · refine ⟨h.aligned, fun i r d hat => ?_, fun i r d hat hd => (h.kept i r d hat hd).mono hsub⟩
    obtain ⟨hes, haccepted⟩ := h.accepted i r d hat
    exact ⟨List.mem_append_left _ hes, haccepted⟩
  · -- the call that the request makes
    obtain ⟨progress, hreceive, hprogress⟩ :=
      Commerce.receive_cases S.handlers event r.evictAt r.checkAt s.gateway
    have hunprocessed : progress ≠ .returned .processed := by
      rcases hprogress with ⟨-, rfl⟩ | ⟨-, -, rfl⟩ | ⟨-, handler, -, rfl⟩ <;> simp
    rw [hreceive]
    refine ⟨by simp [h.aligned], fun i r' d hat => ?_, fun i r' d hat hd => ?_⟩
    · rcases at_receive h.aligned hat with hat | ⟨rfl, rfl⟩
      · obtain ⟨hes, haccepted⟩ := h.accepted i r' d hat
        exact ⟨List.mem_append_left _ hes, haccepted⟩
      · exact ⟨by simp, hverified, hparsed⟩
    · rcases at_receive h.aligned hat with hat | ⟨rfl, rfl⟩
      · exact ((h.kept i r' d hat hd).mono hsub).evict (hmem (by simp [Event.readings]))
      · exact absurd hd hunprocessed
  · -- the handler resolves, and its event is marked
    have hle : ∀ {j r d}, s.At j r d → r.verifiedAt ≤ now :=
      fun hat => h.verified_le htimely hat (by simp [Event.readings])
    refine ⟨by simp [h.aligned], fun j r d hat => ?_, fun j r d hat hd => ?_⟩
    · rcases at_set hi hat with hat | ⟨rfl, hold⟩
      · obtain ⟨hes, haccepted⟩ := h.accepted j r d hat
        exact ⟨List.mem_append_left _ hes, haccepted⟩
      · obtain ⟨hes, haccepted⟩ := h.accepted j r _ hold
        exact ⟨List.mem_append_left _ hes, haccepted⟩
    · rcases at_set hi hat with hat | ⟨rfl, hold⟩
      · exact ((h.kept j r d hat hd).mono hsub).mark event.eventId (hle hat)
      · exact kept_mark _ _ (hle hold)
  · -- a failed handler leaves no mark
    refine ⟨by simp [h.aligned], fun j r d hat => ?_, fun j r d hat hd => ?_⟩
    · rcases at_set hi hat with hat | ⟨rfl, hold⟩
      · obtain ⟨hes, haccepted⟩ := h.accepted j r d hat
        exact ⟨List.mem_append_left _ hes, haccepted⟩
      · obtain ⟨hes, haccepted⟩ := h.accepted j r _ hold
        exact ⟨List.mem_append_left _ hes, haccepted⟩
    · rcases at_set hi hat with hat | ⟨rfl, hold⟩
      · exact (h.kept j r d hat hd).mono hsub
      · cases hd

theorem run_inv {es : List Event} {s : Route Handler} (hrun : (route S).run es = some s)
    (htimely : Timely delay es) : RouteInv S es s :=
  Machine.run_induction (M := route S) (P := fun es s => Timely delay es → RouteInv S es s)
    (fun _ => init_inv)
    (fun _ _ _ _ _ ih hstep htimely => step_inv (ih htimely.of_append) htimely hstep) hrun htimely

/-! ## Repeated requests -/

/-- The body has a text as its `id`. -/
def Setup.Identified (S : Setup Handler) (body : Text) : Prop :=
  ∃ json id, S.parseJson body = some json ∧ json.property "id" = .ok (some (.str id))

/-- The id of the body is the id of the event, whatever the parser draws. -/
theorem eventId_of_property {json : Json} {id : String} {input : ParserInput} {event : WebhookEvent}
    (hid : json.property "id" = .ok (some (.str id)))
    (h : StripeProvider.parseWebhookEvent json input = .ok event) : event.eventId = id := by
  obtain ⟨_, -, h⟩ := bind_eq_ok h
  obtain ⟨_, -, h⟩ := bind_eq_ok h
  obtain ⟨_, -, h⟩ := bind_eq_ok h
  obtain ⟨_, -, h⟩ := bind_eq_ok h
  obtain ⟨found, hfound, h⟩ := bind_eq_ok h
  obtain ⟨eventId, heventId, h⟩ := bind_eq_ok h
  rw [hid] at hfound
  cases hfound
  cases heventId
  cases h
  rfl

theorem Setup.Identified.eventId_eq {r r₀ : Request} {event event₀ : WebhookEvent}
    (h : S.Identified r.body) (hbody : r.body = r₀.body) (hparsed : S.parsed r = .ok event)
    (hparsed₀ : S.parsed r₀ = .ok event₀) : event.eventId = event₀.eventId := by
  obtain ⟨json, id, hjson, hid⟩ := h
  rw [Setup.parsed, hjson] at hparsed
  rw [Setup.parsed, ← hbody, hjson] at hparsed₀
  rw [eventId_of_property hid hparsed, eventId_of_property hid hparsed₀]

/-- A request with the body and the header of one whose event was processed is a duplicate, when its
signature is accepted at all. -/
def RepeatSuppressed (S : Setup Handler) (s : Route Handler) : Event → Prop
  | .request r => ∀ i r₀ d, s.At i r₀ d → d.progress = .returned .processed →
      r.body = r₀.body → r.signature = r₀.signature → S.Identified r.body →
      ∀ s', s.receive S r = .ok s' → ∃ event,
        s'.gateway.deliveries = s.gateway.deliveries ++ [⟨event, .returned .duplicate⟩]
  | _ => True

theorem repeat_suppressed {n : ℕ} (htolerance : S.config.tolerance = finite n) (hpositive : 0 < n)
    (hshort : 2000 * n + 999 + delay < DEFAULT_TTL_MS) {es : List Event} {s : Route Handler}
    (hrun : (route S).run es = some s) {e : Event} (htimely : Timely delay (es ++ [e])) :
    RepeatSuppressed S s e := by
  cases e with
  | handlerResolves i now => exact trivial
  | handlerRejects i => exact trivial
  | request r =>
    intro i r₀ d hat hprocessed hbody hsignature hidentified s' hs'
    have hinv := run_inv hrun htimely.of_append
    obtain ⟨hmem₀, hverified₀, hparsed₀⟩ := hinv.accepted i r₀ d hat
    rcases receive_cases (S := S) s r with ⟨refusal, hr⟩ | ⟨event, hverified, hparsed, hr⟩
    · rw [hr] at hs'
      cases hs'
    · rw [hr] at hs'
      cases hs'
      obtain ⟨-, hdelay, hnow⟩ := htimely.prompt r (by simp)
      obtain ⟨-, -, hnow₀⟩ := htimely.of_append.prompt r₀ hmem₀
      have hn : n < 2 ^ 51 := by
        rw [DEFAULT_TTL_MS] at hshort
        omega
      have hwindow := window htolerance hpositive hn hbody hsignature hnow hnow₀ hverified hverified₀
      have hkept := hinv.kept i r₀ d hat hprocessed
      rw [← hidentified.eventId_eq hbody hparsed hparsed₀] at hkept
      have hduplicate := hkept.isDuplicate htimely.evict_le_check
        (fun x hx => htimely.later hx (by simp [Event.readings])) (by omega)
      obtain ⟨progress, hreceive, hprogress⟩ :=
        Commerce.receive_cases S.handlers event r.evictAt r.checkAt s.gateway
      rw [hreceive]
      rcases hprogress with ⟨-, rfl⟩ | ⟨hno, -⟩ | ⟨hno, -⟩
      · exact ⟨event, rfl⟩
      · rw [hduplicate] at hno
        cases hno
      · rw [hduplicate] at hno
        cases hno

/-! ### Requests that are processed twice -/

theorem plain_of_no_space {value : Text} (hne : value ≠ []) (hcomma : ',' ∉ value)
    (hspace : ∀ c ∈ value, Db.isJsSpace c = false) :
    value ≠ [] ∧ ',' ∉ value ∧ Trimmed value :=
  ⟨hne, hcomma, fun c hc => hspace c (List.mem_of_mem_head? hc),
    fun c hc => hspace c (List.mem_of_mem_getLast? hc)⟩

theorem digits_plain (t : ℕ) : Nat.toDigits 10 t ≠ [] ∧ ',' ∉ Nat.toDigits 10 t ∧
    Trimmed (Nat.toDigits 10 t) := by
  have hdigit : ∀ c ∈ Nat.toDigits 10 t, c.isDigit = true := fun c hc => Numeral.isDigit_toDigits hc
  refine plain_of_no_space Nat.toDigits_ne_nil (fun h => absurd (hdigit _ h) (by decide)) ?_
  intro c hc
  by_contra h
  rw [Bool.not_eq_false] at h
  have hno := (Db.space_spec h).2
  rw [hdigit c hc] at hno
  cases hno

theorem hmac_plain (crypto : NodeCrypto) (secret payload : String) :
    (crypto.hmacSha256Hex secret payload).toList ≠ [] ∧
      ',' ∉ (crypto.hmacSha256Hex secret payload).toList ∧
      Trimmed (crypto.hmacSha256Hex secret payload).toList := by
  have hdigest := crypto.hmacSha256Hex_digest secret payload
  refine ⟨fun hnil => ?_, fun hcomma => ?_, trimmed_digest hdigest⟩
  · have hlength := hdigest.1
    rw [hnil] at hlength
    cases hlength
  · exact absurd (hdigest.2 _ hcomma) (by decide)

/-- `t=...,v1=...`, as Stripe signs a body. -/
def signedParts (crypto : NodeCrypto) (secret : Text) (t : ℕ) (body : Text) : List HeaderPart :=
  [StripeProvider.plainPart "t".toList (Nat.toDigits 10 t) (by decide) (digits_plain t),
    StripeProvider.plainPart "v1".toList
      (crypto.hmacSha256Hex (String.ofList secret)
        (String.ofList (Nat.toDigits 10 t ++ '.' :: body))).toList
      (by decide) (hmac_plain _ _ _)]

def signedHeader (crypto : NodeCrypto) (secret : Text) (t : ℕ) (body : Text) : Text :=
  [','].intercalate ((signedParts crypto secret t body).map HeaderPart.render)

theorem named_cons (key : Text) (p : HeaderPart) (parts : List HeaderPart) :
    HeaderPart.named key (p :: parts) =
      (if Db.trim p.key = key then [p.value] else []) ++ HeaderPart.named key parts := by
  by_cases h : Db.trim p.key = key <;> simp [HeaderPart.named, h]

theorem parse_signedHeader (crypto : NodeCrypto) (secret : Text) (t : ℕ) (body : Text) :
    parseStripeSignatureHeader (signedHeader crypto secret t body) =
      ⟨some (Nat.toDigits 10 t), [(crypto.hmacSha256Hex (String.ofList secret)
        (String.ofList (Nat.toDigits 10 t ++ '.' :: body))).toList]⟩ := by
  have ht : Db.trim "t".toList = "t".toList := by decide
  have hv : Db.trim "v1".toList = "v1".toList := by decide
  have hne : "t".toList ≠ "v1".toList := by decide
  rw [signedHeader, parseStripeSignatureHeader_render, signedParts]
  simp only [named_cons, StripeProvider.plainPart, ht, hv, if_true, if_neg hne, if_neg hne.symm]
  rfl

/-- **A signed request is accepted** as long as its timestamp is near. -/
theorem verified_signed {secret : Text} (hsecret : S.config.webhookSecret = some secret)
    (hne : secret ≠ []) {n t : ℕ} (htolerance : S.config.tolerance = finite n) {r : Request}
    (hsignature : r.signature = signedHeader S.crypto secret t r.body)
    (hnow : r.verifiedAt < 2 ^ 53) (ht : t ≤ 2 ^ 53)
    (hnear : 0 < n → |(r.verifiedAt / 1000 : ℤ) - t| ≤ n) : S.verified r = true := by
  have hdigit : ∀ c ∈ Nat.toDigits 10 t, c.isDigit = true := fun c hc => Numeral.isDigit_toDigits hc
  have hnatural := Numeral.natural_toDigits t
  have hparse := parse_signedHeader S.crypto secret t r.body
  rw [← hsignature] at hparse
  refine (StripeProvider.verifyWebhookSignature_eq_true hparse).2
    ⟨secret, hsecret, hne, _, rfl, ?_, _, List.mem_singleton_self _, rfl⟩
  intro hpositive
  rw [htolerance] at hpositive ⊢
  have hn : 0 < n := by exact_mod_cast finite_lt_finite.1 hpositive
  refine ⟨(t : ℤ), ?_, ?_⟩
  · rw [StripeProvider.signedAt_digits Nat.toDigits_ne_nil hdigit (by rw [hnatural]; exact ht),
      hnatural]
  · have hage := StripeProvider.age_of_digits (Int.natCast_nonneg r.verifiedAt)
      (by exact_mod_cast hnow) (Nat.toDigits_ne_nil (n := t)) hdigit
      (by rw [hnatural]; exact ht)
    rw [StripeProvider.signedAt_digits Nat.toDigits_ne_nil hdigit (by rw [hnatural]; exact ht),
      hnatural] at hage
    rw [hage]
    exact finite_le_finite (by exact_mod_cast hnear hn)

/-- A signed request whose signature is checked at one time and whose event is looked up at
another. -/
def signedRequest (S : Setup Handler) (secret : Text) (t : ℕ) (body : Text) (verifiedAt now : ℕ) :
    Request where
  body := body
  signature := signedHeader S.crypto secret t body
  input := ⟨[], now⟩
  verifiedAt := verifiedAt
  evictAt := now
  checkAt := now

/-- A timestamp, and a second check that is late for the cache but not for the signature. -/
theorem late_times {n delay : ℕ} (hlong : ¬ (0 < n ∧ 2000 * n + 999 + delay < DEFAULT_TTL_MS)) :
    ∃ t v : ℕ, t ≤ 43200 ∧ v ≤ DEFAULT_TTL_MS ∧ DEFAULT_TTL_MS ≤ v + delay ∧
      (0 < n → t ≤ n ∧ v / 1000 ≤ t + n ∧ t ≤ v / 1000 + n) := by
  rw [DEFAULT_TTL_MS] at hlong ⊢
  by_cases hsmall : 0 < n ∧ n < 43200
  · exact ⟨n, 2000 * n + 999, by omega⟩
  · exact ⟨43200, 24 * 60 * 60 * 1000, by omega⟩

/-- The event of a body that has an id and nothing else. -/
def bareEvent (id : String) (input : ParserInput) : WebhookEvent where
  type := "unknown"
  payload := .obj []
  eventId := id
  provider := "stripe"
  timestamp := input.now

theorem parsed_bare {r : Request} {id : String}
    (hbody : S.parseJson r.body = some (.obj [("id", .str id)])) :
    S.parsed r = .ok (bareEvent id r.input) := by
  have htype : ("type" == "id") = false := by decide
  have hdata : ("data" == "id") = false := by decide
  simp only [Setup.parsed, hbody, StripeProvider.parseWebhookEvent, Json.property,
    List.lookup_cons, htype, hdata, List.lookup_nil, beq_self_eq_true, optionalProperty, nullish,
    Json.asString, bind, Except.bind, pure, Except.pure]
  rfl

/-- One request, processed at the start of the clock. -/
def processedOnce (id : String) (r : Request) : Route Handler :=
  ⟨⟨markProcessed id 0 .empty, [⟨bareEvent id r.input, .returned .processed⟩]⟩, [r]⟩

theorem first_processed {r : Request} {id : String} (hverified : S.verified r = true)
    (hbody : S.parseJson r.body = some (.obj [("id", .str id)]))
    (hhandler : S.handlers.has "stripe" = true) :
    (route S).run [.request r, .handlerResolves 0 0] = some (processedOnce id r) := by
  obtain ⟨handler, hget⟩ := Option.isSome_iff_exists.1 hhandler
  have hreceive : Route.receive S (route S).init r = .ok
      ⟨⟨.empty, [⟨bareEvent id r.input, .handling handler⟩]⟩, [r]⟩ := by
    have hgateway : Gateway.receive S.handlers (bareEvent id r.input) r.evictAt r.checkAt
        (route S).init.gateway = ⟨.empty, [⟨bareEvent id r.input, .handling handler⟩]⟩ := by
      simp only [Gateway.receive, bareEvent, hget]
      rfl
    rw [Route.receive, if_pos hverified, parsed_bare hbody]
    dsimp only
    rw [hgateway]
    rfl
  have hstep : (route S).step (route S).init (.request r) =
      some ⟨⟨.empty, [⟨bareEvent id r.input, .handling handler⟩]⟩, [r]⟩ := by
    show (match Route.receive S (route S).init r with | .ok s' => some s' | .error _ => _) = _
    rw [hreceive]
  show ((route S).step (route S).init (.request r)).bind (fun s =>
    ((route S).step s (.handlerResolves 0 0)).bind some) = _
  rw [hstep]
  rfl

/-- When its lifetime is over, a mark makes no duplicate. -/
theorem mark_expired (id : String) :
    (isDuplicate id DEFAULT_TTL_MS DEFAULT_TTL_MS (markProcessed id 0 .empty)).1 = false := by
  have hget : (evictExpired DEFAULT_TTL_MS (markProcessed id 0 .empty)).get (cacheKey id) =
      some ⟨0, 0 + DEFAULT_TTL_MS⟩ := by
    rw [evictExpired, JsMap.get_filter_eq_some]
    exact ⟨by rw [markProcessed, JsMap.get_set, if_pos rfl], by decide⟩
  simp only [isDuplicate, hget]
  decide

/-- A request that comes again at that time is handled again. -/
theorem not_suppressed (r₀ r : Request) {id : String} (hbody : r.body = r₀.body)
    (hsignature : r.signature = r₀.signature)
    (hid : S.parseJson r.body = some (.obj [("id", .str id)])) (hverified : S.verified r = true)
    (hevict : r.evictAt = DEFAULT_TTL_MS) (hcheck : r.checkAt = DEFAULT_TTL_MS) :
    ¬ RepeatSuppressed S (processedOnce id r₀) (.request r) := by
  intro hsuppressed
  have hparsed := parsed_bare hid
  rcases receive_cases (S := S) (processedOnce id r₀) r with
    ⟨refusal, hr⟩ | ⟨event, -, hevent, hr⟩
  · rw [Route.receive, if_pos hverified, hparsed] at hr
    cases hr
  · obtain rfl : bareEvent id r.input = event := Except.ok.inj (hparsed.symm.trans hevent)
    obtain ⟨event, hduplicate⟩ := hsuppressed 0 r₀ _ ⟨rfl, rfl⟩ rfl hbody hsignature
      ⟨_, id, hid, by simp [Json.property]⟩ _ hr
    obtain ⟨progress, hgateway, hprogress⟩ := Commerce.receive_cases S.handlers
      (bareEvent id r.input) r.evictAt r.checkAt (processedOnce id r₀).gateway
    rw [hgateway] at hduplicate
    have hlast := List.append_inj_right' hduplicate rfl
    simp only [List.cons.injEq, Delivery.mk.injEq, and_true] at hlast
    obtain ⟨-, rfl⟩ := hlast
    have hexpired := mark_expired id
    rw [hevict, hcheck] at hprogress
    rcases hprogress with ⟨hyes, -⟩ | ⟨-, -, hno⟩ | ⟨-, handler, -, hno⟩
    · exact absurd (hexpired.symm.trans hyes) Bool.false_ne_true
    · cases hno
    · cases hno

/-- **Signed requests are not replayed**: over every run, what was processed is not handled again
when the same body comes with the same header, however late, exactly when the tolerance is set and
twice the tolerance, with the delay inside the route, stays below the lifetime of the cache. -/
theorem repeats_suppressed_iff {n delay : ℕ} (htolerance : S.config.tolerance = finite n)
    {secret : Text} (hsecret : S.config.webhookSecret = some secret) (hne : secret ≠ [])
    (hhandler : S.handlers.has "stripe" = true) {body : Text} {id : String}
    (hbody : S.parseJson body = some (.obj [("id", .str id)])) :
    (∀ es, Timely delay es → (route S).Along (RepeatSuppressed S) es) ↔
      0 < n ∧ 2000 * n + 999 + delay < DEFAULT_TTL_MS := by
  constructor
  · intro hall
    by_contra hlong
    obtain ⟨t, v, ht, hv, hlate, hnear⟩ := late_times hlong
    have httl : DEFAULT_TTL_MS < 2 ^ 53 := by decide
    let first := signedRequest S secret t body 0 0
    let second := signedRequest S secret t body v DEFAULT_TTL_MS
    have hfirst : S.verified first = true :=
      verified_signed hsecret hne htolerance rfl (by norm_num [first, signedRequest]) (by omega)
        fun hn => by
          have := hnear hn
          rw [abs_le]
          simp only [first, signedRequest]
          omega
    have hsecond : S.verified second = true :=
      verified_signed hsecret hne htolerance rfl (by simp only [second, signedRequest]; omega)
        (by omega) fun hn => by
          have := hnear hn
          rw [abs_le]
          simp only [second, signedRequest]
          omega
    have htimely : Timely delay [.request first, .handlerResolves 0 0, .request second] := by
      refine ⟨by simp [readings, Event.readings, first, second, signedRequest], ?_⟩
      simp only [List.mem_cons, List.not_mem_nil, or_false, Event.request.injEq, reduceCtorEq,
        false_or, forall_eq_or_imp, forall_eq, first, second, signedRequest]
      omega
    have hrun := first_processed hfirst hbody hhandler
    exact not_suppressed first second rfl rfl hbody hsecond rfl rfl
      (hall _ htimely [.request first, .handlerResolves 0 0] (.request second) [] _ rfl hrun)
  · rintro ⟨hpositive, hshort⟩ es htimely pre e post s rfl hrun
    have hpre : Timely delay (pre ++ [e]) := by
      have hsplit : pre ++ e :: post = (pre ++ [e]) ++ post := by simp
      rw [hsplit] at htimely
      exact htimely.of_append
    exact repeat_suppressed htolerance hpositive hshort hrun hpre

/-- The default tolerance, with five seconds inside the route. -/
def defaultSetup : Setup String where
  crypto := StripeProvider.samples
  config := ⟨some "whsec_dev".toList, none⟩
  parseJson text := if text = "\x7b\"id\":\"evt_1\"\x7d".toList then
    some (.obj [("id", .str "evt_1")]) else none
  handlers := sampleHandlers

theorem repeats_suppressed_iff_defaultSetup :
    (∀ es, Timely 5000 es → (route defaultSetup).Along (RepeatSuppressed defaultSetup) es) ↔
      (0 : ℕ) < 300 ∧ 2000 * 300 + 999 + 5000 < DEFAULT_TTL_MS :=
  repeats_suppressed_iff (S := defaultSetup) (n := 300) rfl rfl (by decide) rfl (if_pos rfl)

end Intellibiz.Commerce.PaymentWebhook
