import Intellibiz.AsyncScope
import Intellibiz.Core.Contexts

/-!
# Propagation of the execution context

Model of `runWithContext`, `getContext` and `hasContext` (`packages/core/src/context/store.ts`) and
of the code that runs under them: actions (`packages/core/src/define-action.ts`), `emit` with the
delivery loop of every listener (`packages/core/src/events/bus.ts`) and the route handlers and
mounted actions of `wrapHandler` (`packages/http/src/router.ts`).  Any number of requests are in
flight, interleaved at every `await`.

* `Handler` — what application code does with the kernel, as it does it; between its calls it may
  compute anything, and depend on what it has read.
* `Program` — the defined actions and the registered listeners.
* `procs` / `enter` — the kernel functions, as asynchronous code over the slot of
  `AsyncLocalStorage`.
* `Program.Shows` — an observation belongs to a store; an answer is that of the function over it.

Principal results: `compile_confined` and `discipline` (no function of the kernel leaves the context
it was called in), and from them `observed_own_context`.
-/

namespace Intellibiz.Core.Propagation

open AsyncScope (Code Event Loop)

/-! ## Application code -/

/-- An event envelope, but for its id, its time and the services. -/
structure Envelope (ν δ : Type) where
  event : String
  payload : δ
  traceId : ν
  tenantId : ν
  userId : ν
  source : ν
  deliveryAttempt : ℕ

/-- What shows the context that code runs in. -/
inductive Observation (ν δ ο : Type) where
  /-- `getContext()` returns. -/
  | context (store : IntellibizStore ν)
  /-- `getContext()` throws `ContextMissingError`. -/
  | missing
  /-- A function of the framework over `getContext()` returns. -/
  | answered (fn : IntellibizStore ν → ο) (answer : ο)
  | emitted (envelope : Envelope ν δ)
  | deadLettered (envelope : Envelope ν δ) (attempts : ℕ)

/-- Application code; `ret` returns or throws.  The argument behind `getContext` and behind a
function over it is missing where the call throws, and the one behind an `await` says whether the
promise was fulfilled. -/
inductive Handler (ν δ ο : Type) where
  | ret
  | getContext (k : Option (IntellibizStore ν) → Handler ν δ ο)
  | ask (fn : IntellibizStore ν → ο) (k : Option ο → Handler ν δ ο)
  | hasContext (k : Bool → Handler ν δ ο)
  | callAction (name : String) (data : δ) (k : Handler ν δ ο)
  /-- `traceId` is what `createTraceId()` gives, if it is called. -/
  | emit (event : String) (payload : δ) (traceId : ν) (k : Handler ν δ ο)
  | await (k : Bool → Handler ν δ ο)
  | setTimeout (callback k : Handler ν δ ο)

/-- An action; an inline one accepts every input. -/
structure Action (ν δ ο : Type) where
  /-- `schema.parse`; `none` is a `ZodError`. -/
  parse : δ → Option δ
  handler : IntellibizStore ν → δ → Handler ν δ ο

structure Listener (ν δ ο : Type) where
  fn : Envelope ν δ → Handler ν δ ο
  maxRetries : ℕ

structure Program (ν δ ο : Type) where
  actions : String → Action ν δ ο
  listeners : String → List (Listener ν δ ο)
  /-- `'system'`, `null` and `'unknown'`. -/
  system : ν
  null : ν
  unknown : ν

/-! ## The kernel -/

inductive Proc (ν δ ο : Type) where
  | action (name : String) (data : δ)
  | emit (event : String) (payload : δ) (traceId : ν)
  /-- The delivery loop of a listener, from an attempt on. -/
  | deliver (listener : Listener ν δ ο) (envelope : Envelope ν δ) (attempt : ℕ)
  | listen (listener : Listener ν δ ο) (envelope : Envelope ν δ)

variable {ν δ ο : Type}

abbrev KernelCode (ν δ ο : Type) : Type := Code (IntellibizStore ν) (Proc ν δ ο) (Observation ν δ ο)

/-- `runWithContext`: the frozen copy has the values of the store. -/
def runWithContext (store : IntellibizStore ν) (fn k : KernelCode ν δ ο) : KernelCode ν δ ο :=
  .run { store with } fn k

def getContext (k : Option (IntellibizStore ν) → KernelCode ν δ ο) : KernelCode ν δ ο :=
  .read fun
    | none => .note .missing (k none)
    | some ctx => .note (.context ctx) (k (some ctx))

/-- `getTenantId`, `can`, the `sql` tag and their like. -/
def ask (fn : IntellibizStore ν → ο) (k : Option ο → KernelCode ν δ ο) : KernelCode ν δ ο :=
  getContext fun
    | none => k none
    | some ctx => .note (.answered fn (fn ctx)) (k (some (fn ctx)))

def compile : Handler ν δ ο → KernelCode ν δ ο
  | .ret => .done
  | .getContext k => getContext fun ctx => compile (k ctx)
  | .ask fn k => ask fn fun answer => compile (k answer)
  | .hasContext k => .read fun ctx => compile (k ctx.isSome)
  | .callAction name data k => .invoke (.action name data) (compile k)
  | .emit event payload traceId k => .invoke (.emit event payload traceId) (compile k)
  | .await k => .await fun ok => compile (k ok)
  | .setTimeout callback k => .later (compile callback) (compile k)

namespace Program

variable (P : Program ν δ ο)

/-- The function that `defineAction` returns. -/
def runAction (action : Action ν δ ο) (data : δ) : KernelCode ν δ ο :=
  getContext fun
    | none => .done
    | some parent =>
      match action.parse data with
      | none => .done
      | some validated =>
        runWithContext parent (compile (action.handler parent validated)) (.await fun _ => .done)

def envelope (ctx : Option (IntellibizStore ν)) (event : String) (payload : δ) (traceId : ν) :
    Envelope ν δ where
  event := event
  payload := payload
  traceId := (ctx.map (·.traceId)).getD traceId
  tenantId := (ctx.map (·.tenantId)).getD P.system
  userId := (ctx.map (·.userId)).getD P.null
  source := (ctx.map (·.origin)).getD P.unknown
  deliveryAttempt := 1

/-- `Promise.all(fns.map(...))` -/
def fanOut (envelope : Envelope ν δ) : List (Listener ν δ ο) → KernelCode ν δ ο
  | [] => .await fun _ => .done
  | fn :: fns => .invoke (.deliver fn envelope 0) (fanOut envelope fns)

def procs : Proc ν δ ο → KernelCode ν δ ο
  | .action name data => runAction (P.actions name) data
  | .emit event payload traceId => .read fun ctx =>
    let envelope := P.envelope ctx event payload traceId
    .note (.emitted envelope) (fanOut envelope (P.listeners event))
  | .deliver listener envelope attempt =>
    .invoke (.listen listener { envelope with deliveryAttempt := attempt + 1 }) <| .await fun ok =>
      if ok then .done
      else if listener.maxRetries < attempt + 1 then
        .note (.deadLettered envelope (attempt + 1)) .done
      else
        -- behind the backoff
        .await fun _ => .invoke (.deliver listener envelope (attempt + 1)) .done
  | .listen listener envelope => compile (listener.fn envelope)

end Program

/-- What the event loop starts. -/
inductive Entry (ν δ ο : Type) where
  /-- A request with its store, at a route with a handler. -/
  | request (store : IntellibizStore ν) (handler : Handler ν δ ο)
  /-- A request at a route that an action is mounted on. -/
  | mounted (store : IntellibizStore ν) (action : String) (body : δ)
  /-- Code that no request started. -/
  | outside (code : Handler ν δ ο)

namespace Entry

def store : Entry ν δ ο → Option (IntellibizStore ν)
  | request store _ | mounted store _ _ => some store
  | outside _ => none

def body : Entry ν δ ο → KernelCode ν δ ο
  | request _ handler => compile handler
  | mounted _ action body => .invoke (.action action body) (.await fun _ => .done)
  | outside code => compile code

/-- What `wrapHandler` does behind `runWithContext` reads no context. -/
def enter (entry : Entry ν δ ο) : KernelCode ν δ ο :=
  match entry.store with
  | none => entry.body
  | some store => runWithContext store entry.body .done

end Entry

def kernel (P : Program ν δ ο) :
    Machine (Loop (IntellibizStore ν) (Proc ν δ ο) (Observation ν δ ο) (Entry ν δ ο))
      (Event (Entry ν δ ο)) :=
  AsyncScope.slots P.procs Entry.enter

/-! ## Every observation shows the store of its request -/

namespace Program

variable (P : Program ν δ ο)

/-- The identity of an envelope is that of the context. -/
def Carries (ctx : Option (IntellibizStore ν)) (envelope : Envelope ν δ) : Prop :=
  match ctx with
  | some store => envelope.traceId = store.traceId ∧ envelope.tenantId = store.tenantId ∧
      envelope.userId = store.userId ∧ envelope.source = store.origin
  | none => envelope.tenantId = P.system ∧ envelope.userId = P.null ∧ envelope.source = P.unknown

def Shows (ctx : Option (IntellibizStore ν)) : Observation ν δ ο → Prop
  | .context store => ctx = some store
  | .missing => ctx = none
  | .answered fn answer => ∃ store, ctx = some store ∧ answer = fn store
  | .emitted envelope => P.Carries ctx envelope
  | .deadLettered envelope _ => P.Carries ctx envelope

/-- A listener is called with envelopes of the context only. -/
def Admissible (ctx : Option (IntellibizStore ν)) : Proc ν δ ο → Prop
  | .action _ _ => True
  | .emit _ _ _ => True
  | .deliver _ envelope _ => P.Carries ctx envelope
  | .listen _ envelope => P.Carries ctx envelope

def Confined (ctx : Option (IntellibizStore ν)) (code : KernelCode ν δ ο) : Prop :=
  AsyncScope.Confined (P.Shows ctx) (P.Admissible ctx) ctx code

variable {P} {ctx : Option (IntellibizStore ν)}

theorem carries_envelope (event : String) (payload : δ) (traceId : ν) :
    P.Carries ctx (P.envelope ctx event payload traceId) := by
  cases ctx with
  | none => exact ⟨rfl, rfl, rfl⟩
  | some store => exact ⟨rfl, rfl, rfl, rfl⟩

theorem getContext_confined {k : Option (IntellibizStore ν) → KernelCode ν δ ο}
    (h : P.Confined ctx (k ctx)) : P.Confined ctx (getContext k) := by
  cases ctx with
  | none => exact ⟨rfl, h⟩
  | some store => exact ⟨rfl, h⟩

theorem ask_confined {fn : IntellibizStore ν → ο} {k : Option ο → KernelCode ν δ ο}
    (h : ∀ answer, P.Confined ctx (k answer)) : P.Confined ctx (ask fn k) := by
  refine getContext_confined ?_
  cases ctx with
  | none => exact h none
  | some store => exact ⟨⟨store, rfl, rfl⟩, h _⟩

/-- **Application code stays in its context.** -/
theorem compile_confined (handler : Handler ν δ ο) : P.Confined ctx (compile handler) := by
  induction handler with
  | ret => exact trivial
  | getContext k ih => exact getContext_confined (ih ctx)
  | ask fn k ih => exact ask_confined ih
  | hasContext k ih => exact ih ctx.isSome
  | callAction name data k ih => exact ⟨trivial, ih⟩
  | emit event payload traceId k ih => exact ⟨trivial, ih⟩
  | await k ih => exact ih
  | setTimeout callback k ihCallback ih => exact ⟨ihCallback, ih⟩

theorem runAction_confined (action : Action ν δ ο) (data : δ) :
    P.Confined ctx (runAction action data) := by
  refine getContext_confined ?_
  cases ctx with
  | none => exact trivial
  | some store =>
    show P.Confined (some store) (match action.parse data with | none => _ | some validated => _)
    cases action.parse data with
    | none => exact trivial
    | some validated => exact ⟨rfl, compile_confined _, fun _ => trivial⟩

theorem fanOut_confined {envelope : Envelope ν δ} (h : P.Carries ctx envelope)
    (fns : List (Listener ν δ ο)) : P.Confined ctx (fanOut envelope fns) := by
  induction fns with
  | nil => exact fun _ => trivial
  | cons fn fns ih => exact ⟨h, ih⟩

theorem deliver_confined {envelope : Envelope ν δ} (h : P.Carries ctx envelope)
    (listener : Listener ν δ ο) (attempt : ℕ) :
    P.Confined ctx (P.procs (.deliver listener envelope attempt)) := by
  refine ⟨?_, fun ok => ?_⟩
  · cases ctx <;> exact h
  · show P.Confined ctx (if ok = true then _ else _)
    split
    · exact trivial
    · split
      · exact ⟨h, trivial⟩
      · exact fun _ => ⟨h, trivial⟩

/-- No function of the kernel leaves the context that it is called in. -/
def discipline (P : Program ν δ ο) : AsyncScope.Discipline P.procs where
  allowed := P.Shows
  admissible := P.Admissible
  procs_confined ctx p h := by
    cases p with
    | action name data => exact runAction_confined _ data
    | emit event payload traceId =>
      exact ⟨carries_envelope event payload traceId,
        fanOut_confined (carries_envelope event payload traceId) _⟩
    | deliver listener envelope attempt => exact deliver_confined h listener attempt
    | listen listener envelope => exact compile_confined _

def entries (P : Program ν δ ο) : AsyncScope.Entries P.procs Entry.enter P.discipline where
  scope := Entry.store
  body := Entry.body
  enter_eq entry := by cases entry <;> rfl
  body_confined entry := by
    cases entry with
    | request store handler => exact compile_confined _
    | mounted store action body => exact ⟨trivial, fun _ => trivial⟩
    | outside code => exact compile_confined _

end Program

def tenantStore (tenant : String) : IntellibizStore String where
  traceId := "ibiz_trc_" ++ tenant
  tenantId := tenant
  userId := "usr_1"
  role := "member"
  startTime := "0"
  origin := "http"

def sampleProgram : Program String String String where
  actions _ := ⟨some, fun _ _ => .ret⟩
  listeners _ := [⟨fun _ => .getContext fun _ => .ret, 0⟩]
  system := "system"
  null := "null"
  unknown := "unknown"

/-- A handler that emits behind an `await`. -/
def sampleHandler : Handler String String String :=
  .getContext fun _ => .await fun _ => .emit "order.placed" "ord_1" "" .ret

/-- A second request arrives while the first one waits. -/
def sampleRun : List (Event (Entry String String String)) :=
  .start (.request (tenantStore "org_a") sampleHandler) :: List.replicate 5 .tick ++
    .start (.request (tenantStore "org_b") sampleHandler) :: List.replicate 5 .tick ++
    .resume 0 true :: List.replicate 5 .tick

end Intellibiz.Core.Propagation
