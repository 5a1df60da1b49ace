import Intellibiz.Identity.Permissions

/-!
# What a token grants

`kernelMiddleware` with a token that verifies, and the permission checks of the handler behind it.

* `Carries` — the request carries a token whose payload `verifyJWT` takes.
* `requestCan` — the answer of `can` in the context of a request.
* `FirstRoleDecides` — the payloads of which the first role is as good as all.

Principal results: `kernelMiddleware_token` (the store of a verified token), `requestCan_roles_iff`
and `same_token_stores`.
-/

namespace Intellibiz.Identity

open Db (Text isJsSpace)

section Requests

variable {jwtVerify : Text → Text → Algorithm → Option JWTClaims} {req : Request}
  {options : Options}

/-- **With a verified token only the tenant can come from elsewhere**: from a tenant header. -/
theorem kernelMiddleware_token {v : VerifiedToken}
    (hv : bearerClaims jwtVerify req options = some v) :
    kernelMiddleware jwtVerify req options =
      .ok ⟨(truthy req.tenantId).getD v.tenantId, some v.userId, v.role⟩ := by
  have htenant : truthy (some v.tenantId) = some v.tenantId :=
    Option.filter_eq_some_iff.2 ⟨rfl, decide_eq_true (bearerClaims_tenantId hv)⟩
  unfold kernelMiddleware resolveTenant
  simp only [hv, Option.map_some, htenant]
  cases truthy req.tenantId <;> rfl

/-- **Two requests with the same verified token** have the same user and role; the tenant of each is
the one that its header names, and that of the token without one. -/
theorem same_token_stores {v : VerifiedToken} (hv : bearerClaims jwtVerify req options = some v)
    (header header' : Option Text) :
    ∃ store store', kernelMiddleware jwtVerify { req with tenantId := header } options = .ok store ∧
      kernelMiddleware jwtVerify { req with tenantId := header' } options = .ok store' ∧
      store.userId = store'.userId ∧ store.role = store'.role ∧
      store.tenantId = (truthy header).getD v.tenantId ∧
      store'.tenantId = (truthy header').getD v.tenantId := by
  have hstore : ∀ h : Option Text, kernelMiddleware jwtVerify { req with tenantId := h } options =
      .ok ⟨(truthy h).getD v.tenantId, some v.userId, v.role⟩ :=
    -- the token is read without the tenant header
    fun h => kernelMiddleware_token hv
  exact ⟨_, _, hstore header, hstore header', rfl, rfl, rfl, rfl⟩

end Requests

/-! ## Roles -/

/-- The request carries a token that verifies, with this payload. -/
structure Carries (jwtVerify : Text → Text → Algorithm → Option JWTClaims) (req : Request)
    (options : Options) (claims : JWTClaims) : Prop where
  payload : ∃ token secret, extractBearerToken req.authorization = some token ∧
    truthy options.jwtSecret = some secret ∧
      jwtVerify token secret (options.jwtAlgorithm.getD .hs256) = some claims
  sub : truthy claims.sub ≠ none
  tenantId : truthy claims.tenantId ≠ none

/-- `can(permission)` in a handler behind the middleware. -/
def requestCan (jwtVerify : Text → Text → Algorithm → Option JWTClaims) (req : Request)
    (options : Options) (permission : Text) : Except StrictTenancyViolation Bool := do
  let store ← kernelMiddleware jwtVerify req options
  return can ROLES store.role permission

/-- The first role grants what any role grants; a payload without roles has its fallback role grant
nothing. -/
def FirstRoleDecides (claims : JWTClaims) (roles : List Text) (permission : Text) : Prop :=
  match roles with
  | [] => can ROLES (claims.role.getD "member".toList) permission = false
  | first :: rest => (∃ role ∈ rest, can ROLES role permission = true) →
      can ROLES first permission = true

section Roles

variable {jwtVerify : Text → Text → Algorithm → Option JWTClaims} {req : Request}
  {options : Options} {claims : JWTClaims}

theorem Carries.bearerClaims_eq (h : Carries jwtVerify req options claims) {userId tenantId : Text}
    (hsub : truthy claims.sub = some userId) (htenant : truthy claims.tenantId = some tenantId) :
    bearerClaims jwtVerify req options =
      some ⟨userId, tenantId,
        ((claims.roles.bind List.head?).or claims.role).getD "member".toList⟩ := by
  obtain ⟨token, secret, htoken, hsecret, hclaims⟩ := h.payload
  unfold bearerClaims verifyJWT
  simp only [htoken, hsecret, hclaims, hsub, htenant]
  rfl

theorem requestCan_token (h : Carries jwtVerify req options claims) (permission : Text) :
    requestCan jwtVerify req options permission =
      .ok (can ROLES (((claims.roles.bind List.head?).or claims.role).getD "member".toList)
        permission) := by
  obtain ⟨userId, hsub⟩ := Option.ne_none_iff_exists'.1 h.sub
  obtain ⟨tenantId, htenant⟩ := Option.ne_none_iff_exists'.1 h.tenantId
  unfold requestCan
  rw [kernelMiddleware_token (h.bearerClaims_eq hsub htenant)]
  rfl

/-- The first role of the array is the role of the request. -/
theorem requestCan_cons (h : Carries jwtVerify req options claims) {first : Text}
    {rest : List Text} (hroles : claims.roles = some (first :: rest)) (permission : Text) :
    requestCan jwtVerify req options permission = .ok (can ROLES first permission) := by
  rw [requestCan_token h, hroles]
  rfl

theorem requestCan_nil (h : Carries jwtVerify req options claims)
    (hroles : claims.roles = some []) (permission : Text) :
    requestCan jwtVerify req options permission =
      .ok (can ROLES (claims.role.getD "member".toList) permission) := by
  rw [requestCan_token h, hroles]
  rfl

/-- The answer is that of all roles together for exactly the arrays whose first role decides. -/
theorem requestCan_some_role_iff (h : Carries jwtVerify req options claims) {roles : List Text}
    (hroles : claims.roles = some roles) (permission : Text) :
    (requestCan jwtVerify req options permission = .ok true ↔
        ∃ role ∈ roles, can ROLES role permission = true) ↔
      FirstRoleDecides claims roles permission := by
  cases roles with
  | nil =>
    rw [requestCan_nil h hroles]
    simp [FirstRoleDecides]
  | cons first rest =>
    rw [requestCan_cons h hroles]
    unfold FirstRoleDecides
    simp only [Except.ok.injEq, List.mem_cons, exists_eq_or_imp]
    constructor
    · intro hiff hrest
      exact hiff.2 (.inr hrest)
    · intro hdecides
      constructor
      · intro hfirst
        exact .inl hfirst
      · rintro (hfirst | hrest)
        · exact hfirst
        · exact hdecides hrest

/-- A payload with another order of its roles. -/
theorem requestCan_head_of_perm (h : Carries jwtVerify req options claims) {roles : List Text}
    {role : Text} (hrole : role ∈ roles) (permission : Text)
    (hperm : ∀ jwtVerify' roles', roles'.Perm roles →
      Carries jwtVerify' req options { claims with roles := some roles' } →
        requestCan jwtVerify' req options permission =
          requestCan jwtVerify req options permission) :
    requestCan jwtVerify req options permission = .ok (can ROLES role permission) := by
  obtain ⟨token, secret, htoken, hsecret, -⟩ := h.payload
  let claims' : JWTClaims := { claims with roles := some (role :: roles.erase role) }
  have hcarries : Carries (fun _ _ _ => some claims') req options claims' :=
    ⟨⟨token, secret, htoken, hsecret, rfl⟩, h.sub, h.tenantId⟩
  rw [← hperm _ _ (List.perm_cons_erase hrole).symm hcarries]
  exact requestCan_cons hcarries rfl permission

/-- No order of the roles changes the answer exactly when they all give the same. -/
theorem requestCan_perm_iff (h : Carries jwtVerify req options claims) {roles : List Text}
    (hroles : claims.roles = some roles) (permission : Text) :
    (∀ jwtVerify' roles', roles'.Perm roles →
        Carries jwtVerify' req options { claims with roles := some roles' } →
          requestCan jwtVerify' req options permission =
            requestCan jwtVerify req options permission) ↔
      ∀ role ∈ roles, ∀ role' ∈ roles, can ROLES role permission = can ROLES role' permission := by
  constructor
  · intro hperm role hrole role' hrole'
    have hsame := (requestCan_head_of_perm h hrole permission hperm).symm.trans
      (requestCan_head_of_perm h hrole' permission hperm)
    exact Except.ok.inj hsame
  · intro hagree jwtVerify' roles' hperm h'
    cases roles' with
    | nil =>
      rw [List.nil_perm.1 hperm] at hroles
      rw [requestCan_nil h' rfl, requestCan_nil h hroles]
    | cons first' rest' =>
      cases roles with
      | nil => cases List.perm_nil.1 hperm
      | cons first rest =>
        rw [requestCan_cons h' rfl, requestCan_cons h hroles]
        rw [hagree first' (hperm.subset List.mem_cons_self) first List.mem_cons_self]

end Roles

/-- **A request speaks for all roles of its token exactly when the first one decides**, and an order
of them changes no answer exactly when all give the same. -/
theorem requestCan_roles_iff (jwtVerify : Text → Text → Algorithm → Option JWTClaims)
    (req : Request) (options : Options) (claims : JWTClaims) (roles : List Text)
    (permission : Text) (h : Carries jwtVerify req options claims)
    (hroles : claims.roles = some roles) :
    ((requestCan jwtVerify req options permission = .ok true ↔
        ∃ role ∈ roles, can ROLES role permission = true) ↔
      FirstRoleDecides claims roles permission) ∧
    ((∀ jwtVerify' roles', roles'.Perm roles →
        Carries jwtVerify' req options { claims with roles := some roles' } →
          requestCan jwtVerify' req options permission =
            requestCan jwtVerify req options permission) ↔
      ∀ role ∈ roles, ∀ role' ∈ roles, can ROLES role permission = can ROLES role' permission) :=
  ⟨requestCan_some_role_iff h hroles permission, requestCan_perm_iff h hroles permission⟩

/-! ### Concrete requests -/

/-- The payload of a viewer who is an owner too. -/
def viewerOwner : JWTClaims where
  sub := some "usr_1".toList
  tenantId := some "org_1".toList
  roles := some ["viewer".toList, "owner".toList]
  role := none

/-- `Authorization: Bearer t`, with a tenant header or without. -/
def bearerRequest (tenantId : Option Text) : Request where
  tenantId := tenantId
  userId := none
  authorization := some "Bearer t".toList
  host := some "localhost".toList
  urlHost := some "localhost".toList

def bearerOptions : Options := ⟨some "secret".toList, none, false⟩

/-- `jose` with one valid token. -/
def oneToken (claims : JWTClaims) : Text → Text → Algorithm → Option JWTClaims :=
  fun token secret _ => if token = "t".toList ∧ secret = "secret".toList then some claims else none

theorem extractBearerToken_t :
    extractBearerToken (some "Bearer t".toList) = some "t".toList := by
  have hspaces : ("Bearer t".toList.drop 6).takeWhile isJsSpace = [' '] := by decide
  have hrest : ("Bearer t".toList.drop 6).dropWhile isJsSpace = ['t'] := by decide
  have hline : ¬ ∃ c ∈ ['t'], c ∈ lineTerminators := by simp [lineTerminators]
  have hsome : truthy (some "Bearer t".toList) = some "Bearer t".toList := rfl
  have hscheme : ("Bearer t".toList.take 6).map Char.toLower = "bearer".toList := by decide
  unfold extractBearerToken
  simp only [hsome, hscheme, hspaces, hrest, if_true]
  rw [if_neg]
  · rfl
  · rintro (h | h | h)
    · cases h
    · cases h
    · exact hline h
theorem carries_t (claims : JWTClaims) (tenantId : Option Text) (hsub : truthy claims.sub ≠ none)
    (htenant : truthy claims.tenantId ≠ none) :
    Carries (oneToken claims) (bearerRequest tenantId) bearerOptions claims :=
  ⟨⟨"t".toList, "secret".toList, extractBearerToken_t, rfl, rfl⟩, hsub, htenant⟩

theorem bearerClaims_viewerOwner (tenantId : Option Text) :
    bearerClaims (oneToken viewerOwner) (bearerRequest tenantId) bearerOptions =
      some ⟨"usr_1".toList, "org_1".toList, "viewer".toList⟩ :=
  (carries_t viewerOwner tenantId nofun nofun).bearerClaims_eq rfl rfl

/-- The array grants `delete`, and the request does not; the other way round it does. -/
theorem second_role_lost :
    requestCan (oneToken viewerOwner) (bearerRequest none) bearerOptions "delete".toList =
        .ok false ∧
      (∃ role ∈ ["viewer".toList, "owner".toList], can ROLES role "delete".toList = true) ∧
      requestCan (oneToken { viewerOwner with roles := some ["owner".toList, "viewer".toList] })
        (bearerRequest none) bearerOptions "delete".toList = .ok true :=
  ⟨requestCan_cons (carries_t viewerOwner none nofun nofun) rfl _,
    ⟨"owner".toList, .tail _ (.head _), rfl⟩,
    requestCan_cons (carries_t { viewerOwner with roles := _ } none nofun nofun) rfl _⟩

theorem requestCan_viewerOwner :
    ¬ (requestCan (oneToken viewerOwner) (bearerRequest none) bearerOptions "delete".toList =
        .ok true ↔
      ∃ role ∈ ["viewer".toList, "owner".toList], can ROLES role "delete".toList = true) := by
  have h := requestCan_roles_iff _ _ _ _ _ "delete".toList
    (carries_t viewerOwner none nofun nofun) rfl
  rw [h.1]
  intro hdecides
  have hfirst : can ROLES "viewer".toList "delete".toList = true :=
    hdecides ⟨"owner".toList, List.mem_singleton.2 rfl, rfl⟩
  cases hfirst

/-- Two tenant headers with the same token. -/
theorem header_moves_tenant :
    kernelMiddleware (oneToken viewerOwner) (bearerRequest none) bearerOptions =
        .ok ⟨"org_1".toList, some "usr_1".toList, "viewer".toList⟩ ∧
      kernelMiddleware (oneToken viewerOwner) (bearerRequest (some "org_2".toList)) bearerOptions =
        .ok ⟨"org_2".toList, some "usr_1".toList, "viewer".toList⟩ :=
  ⟨kernelMiddleware_token (bearerClaims_viewerOwner none),
    kernelMiddleware_token (bearerClaims_viewerOwner (some "org_2".toList))⟩

theorem same_token_viewerOwner :
    ∃ store store', kernelMiddleware (oneToken viewerOwner) (bearerRequest none) bearerOptions =
        .ok store ∧
      kernelMiddleware (oneToken viewerOwner) (bearerRequest (some "org_2".toList)) bearerOptions =
        .ok store' ∧
      store.userId = store'.userId ∧ store.role = store'.role ∧
      store.tenantId = "org_1".toList ∧ store'.tenantId = "org_2".toList :=
  same_token_stores (bearerClaims_viewerOwner none) none (some "org_2".toList)

end Intellibiz.Identity
