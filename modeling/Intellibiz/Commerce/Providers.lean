import Mathlib.Data.List.Basic

/-!
# Webhook notifications of the payment providers

`parseWebhookEvent` of `packages/commerce/src/providers/stripe.ts` and `payfast.ts`, from the
decoded body on: a `Json` value where the source calls `JSON.parse`, the list of posted fields
where it calls `new URLSearchParams`.

* `Json.property` — `value[key]`; reading a property of `null` throws.
* `Notification` — an inbound request with the random bytes and the clock reading its parser
  consumes.
* `Notification.parseWebhookEvent` — the parser of the request's provider.
-/

namespace Intellibiz.Commerce

/-! ## Decoded bodies -/

/-- A parsed JSON value; the key of a field occurs once in its object. -/
inductive Json where
  | null
  | bool (b : Bool)
  | num (literal : String)
  | str (s : String)
  | arr (elements : List Json)
  | obj (fields : List (String × Json))

/-- `value[key]`, for keys that no builtin prototype has: `error` is a thrown `TypeError`,
`ok none` is `undefined`. -/
def Json.property (key : String) : Json → Except Unit (Option Json)
  | .null => .error ()
  | .obj fields => .ok (fields.lookup key)
  | _ => .ok none

/-- `value?.[key]` -/
def optionalProperty (key : String) : Option Json → Except Unit (Option Json)
  | none | some .null => .ok none
  | some v => v.property key

/-- `value ?? fallback` -/
def nullish (fallback : Json) : Option Json → Json
  | none | some .null => fallback
  | some v => v

/-- A value read under `as string`; other values have left the declared type. -/
def Json.asString : Json → Except Unit String
  | .str s => .ok s
  | _ => .error ()

/-- `Object.fromEntries`; a repeated key keeps its first place and its last value. -/
def fromEntries (entries : List (String × String)) : Json :=
  .obj <| entries.foldl (fun fields (k, v) =>
    if (fields.lookup k).isSome then fields.map fun p => if p.1 = k then (k, .str v) else p
    else fields ++ [(k, .str v)]) []

/-! ## Events -/

structure WebhookEvent where
  type : String
  payload : Json
  eventId : String
  provider : String
  timestamp : Nat

/-- Two events are deliveries of one occurrence at a provider. -/
def WebhookEvent.Same (e e' : WebhookEvent) : Prop :=
  e.provider = e'.provider ∧ e.type = e'.type ∧ e.eventId = e'.eventId

instance (e e' : WebhookEvent) : Decidable (e.Same e') := inferInstanceAs (Decidable (_ ∧ _))

theorem WebhookEvent.Same.symm {e e' : WebhookEvent} (h : e.Same e') : e'.Same e :=
  ⟨h.1.symm, h.2.1.symm, h.2.2.symm⟩

theorem WebhookEvent.Same.trans {e e' e'' : WebhookEvent} (h : e.Same e') (h' : e'.Same e'') :
    e.Same e'' :=
  ⟨h.1.trans h'.1, h.2.1.trans h'.2.1, h.2.2.trans h'.2.2⟩

/-- `Array.from(bytes, b => b.toString(16).padStart(2, '0')).join('')` -/
def hexBytes (bytes : List (Fin 256)) : String :=
  String.ofList <| bytes.flatMap fun b => [Nat.digitChar (b / 16), Nat.digitChar (b % 16)]

/-- The random bytes and the clock reading that a parser consumes. -/
structure ParserInput where
  random : List (Fin 256)
  now : Nat

def StripeProvider.parseWebhookEvent (parsed : Json) (input : ParserInput) :
    Except Unit WebhookEvent := do
  let type ← (nullish (.str "unknown") (← parsed.property "type")).asString
  let payload ← optionalProperty "object" (← parsed.property "data")
  let eventId ← (nullish (.str ("evt_" ++ hexBytes input.random)) (← parsed.property "id")).asString
  return { type, payload := nullish (.obj []) payload, eventId, provider := "stripe",
           timestamp := input.now }

def PayFastProvider.parseWebhookEvent (params : List (String × String)) (input : ParserInput) :
    WebhookEvent where
  type := if params.lookup "payment_status" = some "COMPLETE" then "payment.completed"
    else "payment.failed"
  payload := fromEntries params
  eventId := (params.lookup "m_payment_id").getD ("pf_" ++ hexBytes input.random)
  provider := "payfast"
  timestamp := input.now

def OzowProvider.parseWebhookEvent (parsed : Json) (input : ParserInput) :
    Except Unit WebhookEvent := do
  let complete := match ← parsed.property "status" with
    | some (.str s) => s == "Complete"
    | _ => false
  let eventId ← (nullish (.str ("oz_" ++ hexBytes input.random)) (← parsed.property "id")).asString
  return { type := if complete then "payment.completed" else "payment.pending",
           payload := parsed, eventId, provider := "ozow", timestamp := input.now }

/-- An inbound request at the webhook route of one provider. -/
inductive Notification where
  | stripe (body : Json) (input : ParserInput)
  | payfast (body : List (String × String)) (input : ParserInput)
  | ozow (body : Json) (input : ParserInput)

def Notification.parseWebhookEvent : Notification → Except Unit WebhookEvent
  | .stripe body input => StripeProvider.parseWebhookEvent body input
  | .payfast body input => .ok (PayFastProvider.parseWebhookEvent body input)
  | .ozow body input => OzowProvider.parseWebhookEvent body input

/-- The names that the parsers write into their events. -/
def providerNames : List String := ["stripe", "payfast", "ozow"]

theorem bind_eq_ok {ε α β : Type} {x : Except ε α} {f : α → Except ε β} {b : β}
    (h : x >>= f = .ok b) : ∃ a, x = .ok a ∧ f a = .ok b := by
  cases x with
  | error err => cases h
  | ok a => exact ⟨a, rfl, h⟩

/-- Every parsed event names the provider of its parser. -/
theorem parse_provider {n : Notification} {e : WebhookEvent} (h : n.parseWebhookEvent = .ok e) :
    e.provider ∈ providerNames := by
  cases n with
  | stripe body input =>
    obtain ⟨_, -, h⟩ := bind_eq_ok h
    obtain ⟨_, -, h⟩ := bind_eq_ok h
    obtain ⟨_, -, h⟩ := bind_eq_ok h
    obtain ⟨_, -, h⟩ := bind_eq_ok h
    obtain ⟨_, -, h⟩ := bind_eq_ok h
    obtain ⟨_, -, h⟩ := bind_eq_ok h
    cases h
    simp [providerNames]
  | payfast body input => cases h; simp [providerNames, PayFastProvider.parseWebhookEvent]
  | ozow body input =>
    obtain ⟨_, -, h⟩ := bind_eq_ok h
    obtain ⟨_, -, h⟩ := bind_eq_ok h
    obtain ⟨_, -, h⟩ := bind_eq_ok h
    cases h
    simp [providerNames]

end Intellibiz.Commerce
