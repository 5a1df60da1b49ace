import Intellibiz.JsMap
import Mathlib.Logic.Basic

/-!
# Execution contexts and registered services

Model of the places that put the store and the registered services into one object: `wrapHandler`
(`packages/http/src/router.ts`), `buildActionContext` (`packages/core/src/define-action.ts`),
`buildJobContext`, `buildTaskContext` and `buildSocketContext`
(`packages/core/src/context/builders.ts`) and the envelope of `emit`
(`packages/core/src/events/bus.ts`).

* `Services` — the registered factories; `buildRegisteredServices` and `buildBaseContext` over them.
* `Site` — one of these places, with what it adds of its own; `Site.build` is its object.
* `Keeps` — the object has the identity of the store.

Principal results: `get_build_services` (all places but the request look at the services first) and
`keeps_iff`.
-/

namespace Intellibiz.Core

/-- An object by its own keys. -/
abbrev Record (ν : Type) : Type := JsMap String ν

/-! ## Stores and services -/

/-- `IntellibizStore`, over any values. -/
structure IntellibizStore (ν : Type) where
  traceId : ν
  tenantId : ν
  userId : ν
  role : ν
  startTime : ν
  origin : ν

def IntellibizStore.record {ν : Type} (store : IntellibizStore ν) : Record ν :=
  JsMap.empty.assign
    [("traceId", store.traceId), ("tenantId", store.tenantId), ("userId", store.userId),
     ("role", store.role), ("startTime", store.startTime), ("origin", store.origin)]

/-- The `factories` in the order of registration; one that throws builds no context. -/
abbrev Services (ν : Type) : Type := JsMap String (IntellibizStore ν → ν)

/-- What the kernel provides: loggers, of a store and of an event, and `emit`. -/
structure Kernel (ν : Type) where
  createLogger : IntellibizStore ν → ν
  eventLogger : IntellibizStore ν → ν
  emit : ν

variable {ν : Type}

/-- `services[name] = factory(store)`; the name `__proto__` is no key of its own. -/
def buildRegisteredServices (services : Services ν) (store : IntellibizStore ν) : Record ν :=
  JsMap.empty.assign
    ((services.entries.filter fun e => e.1 ≠ "__proto__").map fun e => (e.1, e.2 store))

def buildBaseContext (kernel : Kernel ν) (services : Services ν) (store : IntellibizStore ν) :
    Record ν :=
  (JsMap.empty.assign [("log", kernel.createLogger store), ("emit", kernel.emit)]).spread
    (buildRegisteredServices services store)

/-! ## The contexts -/

/-- What `wrapHandler` adds to a request. -/
structure RequestParts (ν : Type) where
  body : ν
  rawBody : ν
  headers : ν
  params : ν
  query : ν
  ip : ν
  method : ν
  url : ν
  status : ν
  header : ν

structure JobContextMeta (ν : Type) where
  jobId : ν
  attempt : ν
  maxAttempts : ν
  queue : ν
  retry : ν
  fail : ν

structure TaskContextMeta (ν : Type) where
  jobId : ν
  cronExpression : ν
  scheduledAt : ν

/-- The connection, and the closures over the driver. -/
structure SocketContextMeta (ν : Type) where
  connectionId : ν
  roomId : ν
  send : ν
  broadcast : ν
  join : ν
  leave : ν
  disconnect : ν

/-- What `emit` makes for an event. -/
structure EventParts (ν : Type) where
  eventId : ν
  event : ν
  payload : ν
  timestamp : ν
  deliveryAttempt : ν

section Builders

variable (kernel : Kernel ν) (services : Services ν) (store : IntellibizStore ν)

def requestContext (parts : RequestParts ν) : Record ν :=
  ((buildBaseContext kernel services store).spread store.record).assign
    [("body", parts.body), ("rawBody", parts.rawBody), ("headers", parts.headers),
     ("params", parts.params), ("query", parts.query), ("ip", parts.ip), ("method", parts.method),
     ("url", parts.url), ("status", parts.status), ("header", parts.header)]

/-- `{ ...store, ...buildBaseContext(store) }` and what a place adds. -/
def storeContext (own : List (String × ν)) : Record ν :=
  (store.record.spread (buildBaseContext kernel services store)).assign own

def buildActionContext (data : ν) : Record ν :=
  storeContext kernel services store [("data", data)]

def buildJobContext (data : ν) (m : JobContextMeta ν) : Record ν :=
  storeContext kernel services store
    [("data", data), ("jobId", m.jobId), ("attempt", m.attempt), ("maxAttempts", m.maxAttempts),
     ("queue", m.queue), ("retry", m.retry), ("fail", m.fail)]

def buildTaskContext (m : TaskContextMeta ν) : Record ν :=
  storeContext kernel services store
    [("scheduledAt", m.scheduledAt), ("jobId", m.jobId), ("cronExpression", m.cronExpression)]

def buildSocketContext (data : ν) (m : SocketContextMeta ν) : Record ν :=
  storeContext kernel services store
    [("data", data), ("connectionId", m.connectionId), ("roomId", m.roomId), ("send", m.send),
     ("broadcast", m.broadcast), ("join", m.join), ("leave", m.leave),
     ("disconnect", m.disconnect)]

/-- Of an event that is emitted under the store: `source` is its origin. -/
def envelopeEntries (parts : EventParts ν) : List (String × ν) :=
  [("eventId", parts.eventId), ("event", parts.event), ("payload", parts.payload),
   ("traceId", store.traceId), ("tenantId", store.tenantId), ("userId", store.userId),
   ("source", store.origin), ("timestamp", parts.timestamp),
   ("deliveryAttempt", parts.deliveryAttempt)]

/-- The envelope of an event, with the services spread over it. -/
def eventEnvelope (parts : EventParts ν) : Record ν :=
  (JsMap.empty.assign (envelopeEntries store parts)).spread
  ((JsMap.empty.assign [("log", kernel.eventLogger store), ("emit", kernel.emit)]).spread
    (buildRegisteredServices services store))

end Builders

inductive Site (ν : Type) where
  | request (parts : RequestParts ν)
  | action (data : ν)
  | job (data : ν) (m : JobContextMeta ν)
  | task (m : TaskContextMeta ν)
  | socket (data : ν) (m : SocketContextMeta ν)
  | event (parts : EventParts ν)

def Site.build (kernel : Kernel ν) (services : Services ν) (store : IntellibizStore ν) :
    Site ν → Record ν
  | .request parts => requestContext kernel services store parts
  | .action data => buildActionContext kernel services store data
  | .job data m => buildJobContext kernel services store data m
  | .task m => buildTaskContext kernel services store m
  | .socket data m => buildSocketContext kernel services store data m
  | .event parts => eventEnvelope kernel services store parts

/-! ## Identity -/

inductive IdentityKey where
  | traceId
  | tenantId
  | userId
  | role
  | origin
  deriving DecidableEq

def IdentityKey.name : IdentityKey → String
  | traceId => "traceId"
  | tenantId => "tenantId"
  | userId => "userId"
  | role => "role"
  | origin => "origin"

def IntellibizStore.identity (store : IntellibizStore ν) : IdentityKey → ν
  | .traceId => store.traceId
  | .tenantId => store.tenantId
  | .userId => store.userId
  | .role => store.role
  | .origin => store.origin

/-- The trace, the tenant and the user are those of the store, and the role and the origin where
they are present. -/
structure Keeps (store : IntellibizStore ν) (context : Record ν) : Prop where
  present : ∀ key : IdentityKey, key ≠ .role → key ≠ .origin →
    context.get key.name = some (store.identity key)
  same : ∀ key : IdentityKey, ∀ v ∈ context.get key.name, v = store.identity key

/-- A service under the name of an identity key is the value of the store itself. -/
def Harmless (services : Services ν) (store : IntellibizStore ν) : Prop :=
  ∀ key : IdentityKey, ∀ factory ∈ services.get key.name, factory store = store.identity key

/-! ## Lookups -/

variable {kernel : Kernel ν} {services : Services ν} {store : IntellibizStore ν}

theorem get_record (key : IdentityKey) :
    store.record.get key.name = some (store.identity key) := by
  refine JsMap.get_assign_of_mem (by simp) ?_ _
  cases key <;> simp [IdentityKey.name, IntellibizStore.identity]

theorem identity_ne_proto (key : IdentityKey) : key.name ≠ "__proto__" := by
  cases key <;> decide

/-- A service is found under the name that it was registered by. -/
theorem get_registered {name : String} (h : name ≠ "__proto__") :
    (buildRegisteredServices services store).get name =
      (services.get name).map fun factory => factory store := by
  unfold buildRegisteredServices
  have hkeys : ((services.entries.filter fun e => e.1 ≠ "__proto__").map
      (fun e => (e.1, e.2 store))).map Prod.fst =
        (services.entries.filter fun e => e.1 ≠ "__proto__").map Prod.fst := by
    rw [List.map_map]
    rfl
  cases hname : services.get name with
  | some factory =>
    refine JsMap.get_assign_of_mem ?_ ?_ _
    · rw [hkeys]
      exact services.nodup.sublist (List.filter_sublist.map _)
    · refine List.mem_map.2 ⟨(name, factory), List.mem_filter.2 ⟨JsMap.mem_of_get hname, ?_⟩, rfl⟩
      exact decide_eq_true h
  | none =>
    rw [JsMap.get_assign_of_not_mem]
    · rfl
    · rw [hkeys]
      intro hmem
      obtain ⟨e, he, rfl⟩ := List.mem_map.1 hmem
      rw [JsMap.get_of_mem (List.mem_filter.1 he).1] at hname
      cases hname

/-- `log` and `emit` are no identity keys. -/
theorem get_services (log emit : ν) (key : IdentityKey) :
    ((JsMap.empty.assign [("log", log), ("emit", emit)]).spread
        (buildRegisteredServices services store)).get key.name =
      (services.get key.name).map fun factory => factory store := by
  have hkernel : (JsMap.empty.assign [("log", log), ("emit", emit)] : Record ν).get key.name =
      none := by
    rw [JsMap.get_assign_of_not_mem]
    · rfl
    · cases key <;> simp [IdentityKey.name]
  rw [JsMap.get_spread, get_registered (identity_ne_proto key), hkernel, Option.or_none]

theorem get_storeContext {own : List (String × ν)} {key : IdentityKey}
    (h : key.name ∉ own.map Prod.fst) :
    (storeContext kernel services store own).get key.name =
      ((services.get key.name).map fun factory => factory store).or
        (some (store.identity key)) := by
  unfold storeContext buildBaseContext
  rw [JsMap.get_assign_of_not_mem h, JsMap.get_spread, get_services, get_record]

/-- What a place has of the store under an identity key: an envelope no role and no origin. -/
def Site.own (store : IntellibizStore ν) (key : IdentityKey) : Site ν → Option ν
  | .event _ => if key = .role ∨ key = .origin then none else some (store.identity key)
  | _ => some (store.identity key)

/-- A request: the store is spread over the services. -/
theorem get_build_request (parts : RequestParts ν) (key : IdentityKey) :
    (Site.build kernel services store (.request parts)).get key.name =
      some (store.identity key) := by
  change (requestContext kernel services store parts).get key.name = _
  unfold requestContext
  rw [JsMap.get_assign_of_not_mem, JsMap.get_spread, get_record, Option.some_or]
  cases key <;> simp [IdentityKey.name]

/-- What `emit` writes into an envelope. -/
theorem get_envelope (parts : EventParts ν) (key : IdentityKey) :
    (JsMap.empty.assign (envelopeEntries store parts)).get key.name =
      Site.own store key (.event parts) := by
  change _ = if key = .role ∨ key = .origin then none else some (store.identity key)
  by_cases h : key = .role ∨ key = .origin
  · rw [if_pos h, JsMap.get_assign_of_not_mem]
    · rfl
    · rcases h with rfl | rfl <;> simp [IdentityKey.name, envelopeEntries]
  · rw [if_neg h]
    refine JsMap.get_assign_of_mem (by simp [envelopeEntries]) ?_ _
    cases key <;> simp_all [IdentityKey.name, IntellibizStore.identity, envelopeEntries]

theorem get_event (parts : EventParts ν) (key : IdentityKey) :
    (eventEnvelope kernel services store parts).get key.name =
      ((services.get key.name).map fun factory => factory store).or
        (Site.own store key (.event parts)) := by
  unfold eventEnvelope
  rw [JsMap.get_spread, get_services, get_envelope]

/-- **Everywhere else the services are spread over the store.** -/
theorem get_build_services {site : Site ν} (h : ∀ parts, site ≠ .request parts)
    (key : IdentityKey) :
    (site.build kernel services store).get key.name =
      ((services.get key.name).map fun factory => factory store).or (site.own store key) := by
  cases site with
  | request parts => exact absurd rfl (h parts)
  | action data =>
    refine get_storeContext ?_
    cases key <;> simp [IdentityKey.name]
  | job data m =>
    refine get_storeContext ?_
    cases key <;> simp [IdentityKey.name]
  | task m =>
    refine get_storeContext ?_
    cases key <;> simp [IdentityKey.name]
  | socket data m =>
    refine get_storeContext ?_
    cases key <;> simp [IdentityKey.name]
  | event parts => exact get_event parts key

theorem own_cases (site : Site ν) (key : IdentityKey) :
    site.own store key = some (store.identity key) ∨
      (site.own store key = none ∧ (key = .role ∨ key = .origin)) := by
  cases site with
  | event parts =>
    by_cases h : key = .role ∨ key = .origin
    · exact .inr ⟨if_pos h, h⟩
    · exact .inl (if_neg h)
  | _ => exact .inl rfl

/-! ## Shadowing -/

/-- Where the services come first, they have to be harmless. -/
theorem keeps_iff {site : Site ν} {context : Record ν}
    (hget : ∀ key : IdentityKey, context.get key.name =
      ((services.get key.name).map fun factory => factory store).or (site.own store key)) :
    Keeps store context ↔ Harmless services store := by
  constructor
  · intro hkeeps key factory hfactory
    refine hkeeps.same key (factory store) ?_
    rw [hget, hfactory]
    rfl
  · intro hharmless
    have hservice : ∀ key : IdentityKey, context.get key.name = some (store.identity key) ∨
        (context.get key.name = none ∧ (key = .role ∨ key = .origin)) := by
      intro key
      rw [hget]
      cases hfactory : services.get key.name with
      | some factory => exact .inl (congrArg some (hharmless key factory hfactory))
      | none => exact own_cases site key
    constructor
    · intro key hrole horigin
      rcases hservice key with h | ⟨-, h | h⟩
      · exact h
      · exact absurd h hrole
      · exact absurd h horigin
    · intro key v hv
      rcases hservice key with h | ⟨h, -⟩
      · rw [h] at hv
        exact (Option.some.inj hv).symm
      · rw [h] at hv
        cases hv

/-- **Which services leave the identity of the store alone**: in a request all, and elsewhere
exactly those that are harmless. -/
theorem services_keep_identity_iff (kernel : Kernel ν) (services : Services ν)
    (store : IntellibizStore ν) (site : Site ν) :
    Keeps store (site.build kernel services store) ↔
      (∃ parts, site = .request parts) ∨ Harmless services store := by
  by_cases h : ∃ parts, site = .request parts
  · refine iff_of_true ?_ (.inl h)
    obtain ⟨parts, rfl⟩ := h
    constructor
    · exact fun key _ _ => get_build_request parts key
    · intro key v hv
      rw [get_build_request] at hv
      exact (Option.some.inj hv).symm
  · rw [or_iff_right h]
    push Not at h
    exact keeps_iff (get_build_services h)

/-- A service that is registered as `tenantId` is the tenant of an action. -/
theorem tenantId_service_shadows :
    let store : IntellibizStore String := ⟨"trc", "org_1", "usr_1", "viewer", "0", "http"⟩
    let services : Services String := JsMap.empty.set "tenantId" fun _ => "org_2"
    (buildActionContext ⟨fun _ => "log", fun _ => "log", "emit"⟩ services store "data").get
        "tenantId" = some "org_2" ∧
      ¬ Keeps store
        (buildActionContext ⟨fun _ => "log", fun _ => "log", "emit"⟩ services store "data") := by
  intro store services
  have hget : (buildActionContext ⟨fun _ => "log", fun _ => "log", "emit"⟩ services store
      "data").get "tenantId" = some "org_2" := by decide +kernel
  refine ⟨hget, fun hkeeps => ?_⟩
  exact absurd (hkeeps.same .tenantId "org_2" hget) (by decide)

end Intellibiz.Core
