import Intellibiz.Db.Template

/-!
# Two resolvers of the tenant of a request

Model of `resolveIdentity` (`packages/identity/src/resolver.ts`) and of `kernelMiddleware` with its
`resolveTenant` (`packages/http/src/middleware.ts`), on the same request and options.

* `extractBearerToken`, `verifyJWT` — `packages/identity/src/jwt/index.ts`, over what `jose` reads
  of a token.
* `resolveIdentity`, `kernelMiddleware` — the two resolvers, without a custom one.
* `Coincide` — the requests that they treat alike.

Principal results: `verifyJWT_tenantId`, `bearerClaims_tenantId` (a verified token has a tenant) and
`resolvers_agree_iff`.
-/

namespace Intellibiz.Identity

open Db (Text isJsSpace)

/-! ## Tokens -/

inductive Algorithm where
  | hs256
  | rs256

/-- What `verifyJWT` reads of the payload. -/
structure JWTClaims where
  sub : Option Text
  tenantId : Option Text
  roles : Option (List Text)
  role : Option Text

structure VerifiedToken where
  userId : Text
  tenantId : Text
  role : Text
  deriving DecidableEq

/-- What `verifyJWT` throws: an error of `jose`, or its own. -/
inductive JWTError where
  | jose
  | error (text : String)

/-- A string that is there and not empty. -/
def truthy (s : Option Text) : Option Text := s.filter fun t => t ≠ []

def lineTerminators : List Char := ['\n', '\r', '\u2028', '\u2029']

/-- `match(/^Bearer\s+(.+)$/i)?.[1]`; of nothing but white space the last character is the token. -/
def extractBearerToken (authHeader : Option Text) : Option Text :=
  match truthy authHeader with
  | none => none
  | some header =>
    if (header.take 6).map Char.toLower = "bearer".toList then
      let spaces := (header.drop 6).takeWhile isJsSpace
      let rest := (header.drop 6).dropWhile isJsSpace
      let token := if rest = [] then spaces.drop (max 1 (spaces.length - 1)) else rest
      if spaces = [] ∨ token = [] ∨ (∃ c ∈ token, c ∈ lineTerminators) then none else some token
    else none

section Resolvers

-- `jwtVerify` of `jose`: the payload of a valid token
variable (jwtVerify : Text → Text → Algorithm → Option JWTClaims)

def verifyJWT (token secret : Text) (algorithm : Option Algorithm) :
    Except JWTError VerifiedToken :=
  match jwtVerify token secret (algorithm.getD .hs256) with
  | none => .error .jose
  | some claims =>
    match truthy claims.sub, truthy claims.tenantId with
    | none, _ => .error (.error "JWT missing sub claim")
    | some _, none => .error (.error "JWT missing tenant_id claim")
    | some userId, some tenantId =>
      let role := ((claims.roles.bind List.head?).or claims.role).getD "member".toList
      .ok { userId, tenantId, role }

/-! ## Requests -/

/-- The headers that are read, and the host of the URL where it parses. -/
structure Request where
  tenantId : Option Text
  userId : Option Text
  authorization : Option Text
  host : Option Text
  urlHost : Option Text

structure Options where
  jwtSecret : Option Text
  jwtAlgorithm : Option Algorithm
  strict : Bool

structure ResolvedIdentity where
  tenantId : Text
  userId : Option Text
  role : Text
  deriving DecidableEq

inductive StrictTenancyViolation where
  | noTenant
  deriving DecidableEq

def StrictTenancyViolation.message : StrictTenancyViolation → String
  | .noTenant => "No tenant resolved and tenancy.strict is true."

/-- The verified token of a request, in both resolvers: with a secret and a token, where `verifyJWT`
does not throw. -/
def bearerClaims (req : Request) (options : Options) : Option VerifiedToken :=
  match extractBearerToken req.authorization, truthy options.jwtSecret with
  | some token, some secret => (verifyJWT jwtVerify token secret options.jwtAlgorithm).toOption
  | _, _ => none

/-! ## The identity package -/

def reservedHosts : List Text :=
  ["www".toList, "api".toList, "localhost".toList, "127.0.0.1".toList, "0.0.0.0".toList, []]

/-- `hostname.split('.')[0]` -/
def subdomain (req : Request) : Text :=
  let hostname := ((req.host.getD []).splitOn ':').headD []
  (hostname.splitOn '.').headD []

def resolveIdentity (req : Request) (options : Options) :
    Except StrictTenancyViolation ResolvedIdentity :=
  match truthy req.tenantId with
  | some headerTenant =>
    .ok { tenantId := headerTenant, userId := req.userId, role := "member".toList }
  | none =>
    match bearerClaims jwtVerify req options with
    | some verified =>
      .ok { tenantId := verified.tenantId, userId := verified.userId, role := verified.role }
    | none =>
      if subdomain req ∉ reservedHosts then
        .ok { tenantId := subdomain req, userId := none, role := "member".toList }
      else if options.strict then .error .noTenant
      else .ok { tenantId := "system".toList, userId := none, role := "anonymous".toList }

/-! ## The http package -/

/-- `/^\d{1,3}(\.\d{1,3}){3}$/` -/
def isIpv4 (host : Text) : Bool :=
  let numbers := host.splitOn '.'
  numbers.length = 4 && numbers.all fun n => 1 ≤ n.length && n.length ≤ 3 && n.all Char.isDigit

def resolveHost (req : Request) : Text :=
  let raw := ((truthy req.host).or req.urlHost).getD []
  (raw.splitOn ':').headD []

def labels (host : Text) : List Text := (host.splitOn '.').filter fun l => l ≠ []

/-- Labels that name no tenant in front of a host. -/
def publicLabels : List Text := ["www".toList, "api".toList]

/-- The subdomain of a host that is not a bare one. -/
def hostTenant (host : Text) : Option Text :=
  if isIpv4 host = false ∧ 3 ≤ (labels host).length then
    (labels host).head?.filter fun subdomain => subdomain ≠ [] ∧ subdomain ∉ publicLabels
  else none

def resolveTenant (req : Request) (jwtClaims : Option VerifiedToken) (strict : Bool) :
    Except StrictTenancyViolation Text :=
  match truthy req.tenantId with
  | some headerTenant => .ok headerTenant
  | none =>
    match truthy (jwtClaims.map VerifiedToken.tenantId) with
    | some tenantId => .ok tenantId
    | none =>
      match hostTenant (resolveHost req) with
      | some subdomain => .ok subdomain
      | none => if strict then .error .noTenant else .ok "system".toList

/-- The identity in the `IntellibizStore`. -/
def kernelMiddleware (req : Request) (options : Options) :
    Except StrictTenancyViolation ResolvedIdentity := do
  let jwtClaims := bearerClaims jwtVerify req options
  let tenantId ← resolveTenant req jwtClaims options.strict
  return { tenantId, userId := jwtClaims.map VerifiedToken.userId,
           role := (jwtClaims.map VerifiedToken.role).getD "anonymous".toList }

/-! ## Where they agree -/

/-- The host names no tenant to `resolveTenant`, or the one that stands for none. -/
def NamesNoTenant (host : Text) (strict : Bool) : Prop :=
  isIpv4 host = true ∨ (labels host).length < 3 ∨
    ∃ l ∈ (labels host).head?, l ∈ publicLabels ∨ (l = "system".toList ∧ strict = false)

/-- With a tenant header, a verified token of a member who is the user of the header; without one, a
verified token, or a host that names a tenant to neither. -/
def Coincide (req : Request) (options : Options) : Prop :=
  match truthy req.tenantId with
  | some _ => ∃ verified, bearerClaims jwtVerify req options = some verified ∧
      verified.role = "member".toList ∧ req.userId = some verified.userId
  | none => (bearerClaims jwtVerify req options).isSome = true ∨
      (subdomain req ∈ reservedHosts ∧ NamesNoTenant (resolveHost req) options.strict)

variable {jwtVerify}

theorem truthy_eq_some {s : Option Text} {t : Text} (h : truthy s = some t) : t ≠ [] := by
  obtain ⟨-, hne⟩ := Option.filter_eq_some_iff.1 h
  exact of_decide_eq_true hne

theorem verifyJWT_tenantId {token secret : Text} {algorithm : Option Algorithm} {v : VerifiedToken}
    (h : verifyJWT jwtVerify token secret algorithm = .ok v) : v.tenantId ≠ [] := by
  unfold verifyJWT at h
  split at h
  · cases h
  · split at h
    · cases h
    · cases h
    · rename_i htenant
      cases h
      exact truthy_eq_some htenant

/-- **A verified token has a tenant.** -/
theorem bearerClaims_tenantId {req : Request} {options : Options} {v : VerifiedToken}
    (h : bearerClaims jwtVerify req options = some v) : v.tenantId ≠ [] := by
  unfold bearerClaims at h
  split at h
  · rename_i token secret _ _
    cases hverify : verifyJWT jwtVerify token secret options.jwtAlgorithm with
    | error e =>
      rw [hverify] at h
      cases h
    | ok v' =>
      rw [hverify] at h
      cases h
      exact verifyJWT_tenantId hverify
  · cases h

/-! ## Hosts -/

theorem hostTenant_cases (host : Text) :
    (hostTenant host = none ∧ (isIpv4 host = true ∨ (labels host).length < 3 ∨
      ∃ l ∈ (labels host).head?, l ∈ publicLabels)) ∨
    (isIpv4 host = false ∧ 3 ≤ (labels host).length ∧ ∃ l, hostTenant host = some l ∧
      (labels host).head? = some l ∧ l ∉ publicLabels) := by
  unfold hostTenant
  split
  · rename_i hhost
    obtain ⟨hipv4, hlen⟩ := hhost
    cases hlabels : labels host with
    | nil =>
      rw [hlabels] at hlen
      simp at hlen
    | cons l ls =>
      have hmem : l ∈ labels host := by
        rw [hlabels]
        exact List.mem_cons_self
      have hl : l ≠ [] := of_decide_eq_true (List.mem_filter.1 hmem).2
      rw [hlabels] at hlen
      by_cases hpublic : l ∈ publicLabels
      · left
        exact ⟨by simp [hpublic], .inr (.inr ⟨l, rfl, hpublic⟩)⟩
      · right
        exact ⟨hipv4, hlen, l, by simp [hpublic, hl], rfl, hpublic⟩
  · rename_i hhost
    left
    refine ⟨rfl, ?_⟩
    cases hipv4 : isIpv4 host with
    | true => exact .inl rfl
    | false =>
      have hshort : ¬ 3 ≤ (labels host).length := fun hlen => hhost ⟨hipv4, hlen⟩
      exact .inr (.inl (by omega))

theorem namesNoTenant_iff (host : Text) (strict : Bool) :
    NamesNoTenant host strict ↔
      hostTenant host = none ∨ (hostTenant host = some "system".toList ∧ strict = false) := by
  unfold NamesNoTenant
  rcases hostTenant_cases host with ⟨hnone, hcause⟩ | ⟨hipv4, hlen, l, hsome, hhead, hpublic⟩
  · refine iff_of_true ?_ (.inl hnone)
    rcases hcause with h | h | ⟨l, hl, hpublic⟩
    · exact .inl h
    · exact .inr (.inl h)
    · exact .inr (.inr ⟨l, hl, .inl hpublic⟩)
  · rw [hsome, hhead]
    constructor
    · rintro (h | h | ⟨l', hl', h | h⟩)
      · rw [hipv4] at h
        cases h
      · omega
      · cases hl'
        exact absurd h hpublic
      · cases hl'
        exact .inr ⟨by rw [h.1], h.2⟩
    · rintro (h | ⟨h, hstrict⟩)
      · cases h
      · exact .inr (.inr ⟨l, rfl, .inr ⟨Option.some.inj h, hstrict⟩⟩)

/-! ## The two resolvers -/

section Exits

variable {req : Request} {options : Options}

theorem member_ne_anonymous : "member".toList ≠ "anonymous".toList := by decide

/-- With a tenant header the http package takes the rest from the token. -/
theorem agree_header {headerTenant : Text} (hheader : truthy req.tenantId = some headerTenant) :
    resolveIdentity jwtVerify req options = kernelMiddleware jwtVerify req options ↔
      ∃ verified, bearerClaims jwtVerify req options = some verified ∧
        verified.role = "member".toList ∧ req.userId = some verified.userId := by
  have hidentity : resolveIdentity jwtVerify req options =
      .ok ⟨headerTenant, req.userId, "member".toList⟩ := by
    unfold resolveIdentity
    rw [hheader]
  have hhttp : kernelMiddleware jwtVerify req options =
      .ok ⟨headerTenant, (bearerClaims jwtVerify req options).map VerifiedToken.userId,
        ((bearerClaims jwtVerify req options).map VerifiedToken.role).getD
          "anonymous".toList⟩ := by
    unfold kernelMiddleware resolveTenant
    rw [hheader]
    rfl
  rw [hidentity, hhttp]
  cases bearerClaims jwtVerify req options with
  | none =>
    refine iff_of_false ?_ ?_
    · intro h
      exact member_ne_anonymous (congrArg ResolvedIdentity.role (Except.ok.inj h))
    · rintro ⟨verified, h, -⟩
      cases h
  | some verified =>
    constructor
    · intro h
      have hsame := Except.ok.inj h
      exact ⟨verified, rfl, (congrArg ResolvedIdentity.role hsame).symm,
        congrArg ResolvedIdentity.userId hsame⟩
    · rintro ⟨verified', hverified, hrole, huser⟩
      cases hverified
      rw [huser, ← hrole]
      rfl

/-- Without one, both take all of a verified token. -/
theorem agree_token (hheader : truthy req.tenantId = none) {verified : VerifiedToken}
    (hverified : bearerClaims jwtVerify req options = some verified) :
    resolveIdentity jwtVerify req options = kernelMiddleware jwtVerify req options := by
  have htenant : truthy (some verified.tenantId) = some verified.tenantId :=
    Option.filter_eq_some_iff.2 ⟨rfl, decide_eq_true (bearerClaims_tenantId hverified)⟩
  unfold resolveIdentity kernelMiddleware resolveTenant
  simp only [hheader, hverified, Option.map_some, htenant]
  rfl

/-- Without either, the identity package makes a member of the first label of any host. -/
theorem agree_host (hheader : truthy req.tenantId = none)
    (hclaims : bearerClaims jwtVerify req options = none) :
    resolveIdentity jwtVerify req options = kernelMiddleware jwtVerify req options ↔
      subdomain req ∈ reservedHosts ∧ NamesNoTenant (resolveHost req) options.strict := by
  have hnone : truthy ((none : Option VerifiedToken).map VerifiedToken.tenantId) = none := rfl
  rw [namesNoTenant_iff]
  unfold resolveIdentity kernelMiddleware resolveTenant
  simp only [hheader, hclaims, hnone]
  by_cases hreserved : subdomain req ∈ reservedHosts
  · rw [if_neg (not_not.2 hreserved)]
    cases hhost : hostTenant (resolveHost req) with
    | none =>
      refine iff_of_true ?_ ⟨hreserved, .inl rfl⟩
      cases options.strict <;> rfl
    | some l =>
      cases hstrict : options.strict with
      | true =>
        refine iff_of_false ?_ ?_
        · rintro ⟨⟩
        · rintro ⟨-, h | ⟨-, h⟩⟩
          · cases h
          · cases h
      | false =>
        constructor
        · intro h
          have htenant := congrArg ResolvedIdentity.tenantId (Except.ok.inj h)
          exact ⟨hreserved, .inr ⟨congrArg some htenant.symm, rfl⟩⟩
        · rintro ⟨-, h | ⟨h, -⟩⟩
          · cases h
          · cases h
            rfl
  · rw [if_pos hreserved]
    refine iff_of_false ?_ (fun h => hreserved h.1)
    intro h
    -- the other package never makes a member of a request without a token
    cases hhost : hostTenant (resolveHost req) with
    | some l =>
      rw [hhost] at h
      exact member_ne_anonymous (congrArg ResolvedIdentity.role (Except.ok.inj h))
    | none =>
      rw [hhost] at h
      cases hstrict : options.strict with
      | true =>
        rw [hstrict] at h
        cases h
      | false =>
        rw [hstrict] at h
        exact member_ne_anonymous (congrArg ResolvedIdentity.role (Except.ok.inj h))

end Exits

end Resolvers

/-- **The two resolvers agree on exactly the requests of `Coincide`.** -/
theorem resolvers_agree_iff (jwtVerify : Text → Text → Algorithm → Option JWTClaims)
    (req : Request) (options : Options) :
    resolveIdentity jwtVerify req options = kernelMiddleware jwtVerify req options ↔
      Coincide jwtVerify req options := by
  unfold Coincide
  cases hheader : truthy req.tenantId with
  | some headerTenant => exact agree_header hheader
  | none =>
    cases hclaims : bearerClaims jwtVerify req options with
    | some verified => exact iff_of_true (agree_token hheader hclaims) (.inl rfl)
    | none =>
      rw [agree_host hheader hclaims]
      simp

/-! ### Concrete requests -/

/-- `Host: example.com`, and nothing else. -/
def bareHost : Request where
  tenantId := none
  userId := none
  authorization := none
  host := some "example.com".toList
  urlHost := some "example.com".toList

/-- `x-tenant-id: org_42` and `x-user-id: usr_1`, and no token. -/
def tenantHeader : Request where
  tenantId := some "org_42".toList
  userId := some "usr_1".toList
  authorization := none
  host := some "localhost".toList
  urlHost := some "localhost".toList

/-- `jose` with no valid token. -/
def noToken : Text → Text → Algorithm → Option JWTClaims := fun _ _ _ => none

/-- A bare host is a tenant to one resolver; a tenant header makes a member, and a user, to one. -/
theorem resolvers_differ :
    let options : Options := ⟨none, none, false⟩
    resolveIdentity noToken bareHost options = .ok ⟨"example".toList, none, "member".toList⟩ ∧
      kernelMiddleware noToken bareHost options =
        .ok ⟨"system".toList, none, "anonymous".toList⟩ ∧
      resolveIdentity noToken tenantHeader options =
        .ok ⟨"org_42".toList, some "usr_1".toList, "member".toList⟩ ∧
      kernelMiddleware noToken tenantHeader options =
        .ok ⟨"org_42".toList, none, "anonymous".toList⟩ :=
  ⟨rfl, rfl, rfl, rfl⟩

end Intellibiz.Identity
