import Intellibiz.Extended
import Intellibiz.Identity.Tenancy

/-!
# Answers to thrown values

Model of the two places of `packages/http/src/router.ts` that turn a thrown value into an answer,
with `toJSON` of `packages/core/src/errors.ts`.

* `Thrown` — an `IntellibizError`, another `Error`, or anything else.
* `json` — `c.json`, which throws for a body or a status that no response can have.
* `wrapHandlerCatch`, `onError` — the two places; `handlerAnswer` and `middlewareAnswer` are what
  the client receives, since `onError` is given what is thrown while it answers as well.

Principal results: `handlerAnswer_error`, `middlewareAnswer_error` and `answers_agree_iff`.
-/

namespace Intellibiz.Http

open Db (Text)

/-! ## Thrown values -/

/-- The fields that are read; `δ` are the values of `details`. -/
structure IntellibizError (δ : Type) where
  code : Text
  message : Text
  status : Extended
  details : Option δ

/-- An `Error` of another class, which may have been given a code, a status and details. -/
structure PlainError (δ : Type) where
  message : Text
  code : Option Text
  status : Option Extended
  details : Option δ

inductive Thrown (δ : Type) where
  | intellibiz (e : IntellibizError δ)
  | error (e : PlainError δ)
  | other

/-- What `resolveTenant` throws. -/
def strictTenancyViolation (δ : Type) : Thrown δ :=
  .error
    { message := Identity.StrictTenancyViolation.noTenant.message.toList
      code := some "STRICT_TENANCY_VIOLATION".toList
      status := some (.finite 400)
      details := none }

/-! ## Responses -/

/-- A value under `JSON.stringify`: it throws, leaves the key out, or writes a text. -/
inductive Stringified where
  | throws
  | omitted
  | text (t : Text)
  deriving DecidableEq

/-- The keys of a body in their order. -/
structure Body where
  error : Text
  message : Text
  status : Option Extended
  details : Option Text
  deriving DecidableEq

structure Answer where
  status : ℕ
  body : Body
  deriving DecidableEq

def internalError : Answer where
  status := 500
  body :=
    { error := "INTERNAL_ERROR".toList
      message := "An unexpected error occurred.".toList
      status := none
      details := none }

/-- A number as an unsigned short. -/
def toUint16 : Extended → ℕ
  | .finite q => ((if q < 0 then -⌊-q⌋ else ⌊q⌋) % 2 ^ 16).toNat
  | _ => 0

def nullBodyStatuses : List ℕ := [204, 205, 304]

/-- A status that a response with a body can have. -/
def Constructible (status : Extended) : Prop :=
  200 ≤ toUint16 status ∧ toUint16 status ≤ 599 ∧ toUint16 status ∉ nullBodyStatuses

instance (status : Extended) : Decidable (Constructible status) :=
  inferInstanceAs (Decidable (_ ∧ _ ∧ _))

section Answers

variable {δ : Type}
  -- the details of a body under `JSON.stringify`, and whether they count as true
  (stringify : δ → Stringified) (truthy : δ → Bool)

/-- `c.json`: nothing when it throws. -/
def json (error message : Text) (inBody : Option Extended) (details : Option δ)
    (status : Extended) : Option Answer :=
  let written := details.map stringify
  if written = some .throws ∨ ¬ Constructible status then none
  else
    let text := match written with
      | some (.text t) => some t
      | _ => none
    some ⟨toUint16 status, { error, message, status := inBody, details := text }⟩

/-- `c.json(err.toJSON(), err.status)` -/
def answerIntellibiz (e : IntellibizError δ) : Option Answer :=
  json stringify e.code e.message (some e.status) e.details e.status

/-- The `catch` of `wrapHandler`. -/
def wrapHandlerCatch : Thrown δ → Option Answer
  | .intellibiz e => answerIntellibiz stringify e
  | .error e =>
    match e.code, e.status with
    | some code, some status =>
      json stringify code e.message none (e.details.filter truthy) status
    | _, _ => some internalError
  | .other => some internalError

def onError : Thrown δ → Option Answer
  | .intellibiz e => answerIntellibiz stringify e
  | _ => some internalError

/-- The answer to what is thrown inside a route handler: the errors of `c.json` are given to
`onError`, and are plain ones. -/
def handlerAnswer (v : Thrown δ) : Answer :=
  (wrapHandlerCatch stringify truthy v).getD internalError

/-- The answer to what is thrown inside the kernel middleware. -/
def middlewareAnswer (v : Thrown δ) : Answer := (onError stringify v).getD internalError

/-- The answer that an error with its code and status would have is the internal one. -/
def LooksInternal (code message : Text) (details : Option δ) (status : Extended) : Prop :=
  toUint16 status = 500 ∧ code = "INTERNAL_ERROR".toList ∧
    message = "An unexpected error occurred.".toList ∧
    ∀ d ∈ details, truthy d = true → stringify d = .omitted

/-- What both places answer alike: everything but errors that are recognised by their code and
status; of these, those that no response can be made of or that look like an internal one. -/
def AnsweredAlike : Thrown δ → Prop
  | .error e =>
    ∀ code ∈ e.code, ∀ status ∈ e.status,
      (∃ d ∈ e.details, truthy d = true ∧ stringify d = .throws) ∨ ¬ Constructible status ∨
        LooksInternal stringify truthy code e.message e.details status
  | _ => True

variable {stringify truthy}

/-! ## Where they differ -/

theorem middlewareAnswer_error (e : PlainError δ) :
    middlewareAnswer stringify (.error e) = internalError := rfl

theorem handlerAnswer_unrecognised {e : PlainError δ} (h : e.code = none ∨ e.status = none) :
    handlerAnswer stringify truthy (.error e) = internalError := by
  unfold handlerAnswer wrapHandlerCatch
  rcases h with h | h
  · simp only [h]
    rfl
  · cases hcode : e.code <;> simp only [hcode, h] <;> rfl

/-- The details of an error that are written, when they count as true. -/
theorem written_details {details : Option δ} {s : Stringified} :
    (details.filter truthy).map stringify = some s ↔
      ∃ d ∈ details, truthy d = true ∧ stringify d = s := by
  simp only [Option.map_eq_some_iff, Option.filter_eq_some_iff, Option.mem_def]
  constructor
  · rintro ⟨d, ⟨hd, htrue⟩, hs⟩
    exact ⟨d, hd, htrue, hs⟩
  · rintro ⟨d, hd, htrue, hs⟩
    exact ⟨d, ⟨hd, htrue⟩, hs⟩

theorem no_text_iff {details : Option δ}
    (h : (details.filter truthy).map stringify ≠ some .throws) :
    (match (details.filter truthy).map stringify with
      | some (.text t) => some t
      | _ => none) = none ↔ ∀ d ∈ details, truthy d = true → stringify d = .omitted := by
  cases hwritten : (details.filter truthy).map stringify with
  | none =>
    refine iff_of_true rfl fun d hd htrue => ?_
    have hsome : (details.filter truthy).map stringify = some (stringify d) :=
      written_details.2 ⟨d, hd, htrue, rfl⟩
    rw [hwritten] at hsome
    cases hsome
  | some s =>
    obtain ⟨d, hd, htrue, hs⟩ := written_details.1 hwritten
    cases s with
    | throws => exact absurd hwritten h
    | omitted =>
      refine iff_of_true rfl fun d' hd' _ => ?_
      cases hd.symm.trans hd'
      exact hs
    | text t =>
      refine iff_of_false nofun fun homitted => ?_
      cases hs.symm.trans (homitted d hd htrue)

/-- **An error with a code and a status** is answered with them, unless no response can be. -/
theorem handlerAnswer_error {e : PlainError δ} {code : Text} {status : Extended}
    (hcode : e.code = some code) (hstatus : e.status = some status) :
    handlerAnswer stringify truthy (.error e) =
      (json stringify code e.message none (e.details.filter truthy) status).getD internalError := by
  unfold handlerAnswer wrapHandlerCatch
  simp only [hcode, hstatus]

theorem recognised_agree_iff {e : PlainError δ} {code : Text} {status : Extended}
    (hcode : e.code = some code) (hstatus : e.status = some status) :
    handlerAnswer stringify truthy (.error e) = internalError ↔
      (∃ d ∈ e.details, truthy d = true ∧ stringify d = .throws) ∨ ¬ Constructible status ∨
        LooksInternal stringify truthy code e.message e.details status := by
  rw [handlerAnswer_error hcode hstatus, ← written_details]
  unfold json
  by_cases h : (e.details.filter truthy).map stringify = some .throws ∨ ¬ Constructible status
  · refine iff_of_true (by rw [if_pos h]; rfl) ?_
    rcases h with h | h
    · exact .inl h
    · exact .inr (.inl h)
  · obtain ⟨hthrows, hstatus'⟩ := not_or.1 h
    rw [if_neg h, or_iff_right hthrows, or_iff_right hstatus']
    unfold LooksInternal
    rw [← no_text_iff hthrows]
    simp [internalError]

end Answers

/-- **What both places answer alike**: all values but errors recognised by their code and status,
and of these the ones that cannot be answered or whose answer is the internal one. -/
theorem answers_agree_iff {δ : Type} (stringify : δ → Stringified) (truthy : δ → Bool)
    (v : Thrown δ) :
    handlerAnswer stringify truthy v = middlewareAnswer stringify v ↔
      AnsweredAlike stringify truthy v := by
  cases v with
  | intellibiz e => exact iff_of_true rfl trivial
  | other => exact iff_of_true rfl trivial
  | error e =>
    rw [middlewareAnswer_error]
    unfold AnsweredAlike
    cases hcode : e.code with
    | none =>
      refine iff_of_true (handlerAnswer_unrecognised (.inl hcode)) ?_
      simp [hcode]
    | some code =>
      cases hstatus : e.status with
      | none =>
        refine iff_of_true (handlerAnswer_unrecognised (.inr hstatus)) ?_
        simp [hstatus]
      | some status =>
        rw [recognised_agree_iff hcode hstatus]
        simp [hcode, hstatus]

/-- The middleware's own error, in a handler and in the middleware. -/
theorem strict_violation_answers :
    handlerAnswer (δ := Unit) (fun _ => .omitted) (fun _ => true) (strictTenancyViolation Unit) =
        ⟨400, "STRICT_TENANCY_VIOLATION".toList,
          "No tenant resolved and tenancy.strict is true.".toList, none, none⟩ ∧
      middlewareAnswer (δ := Unit) (fun _ => .omitted) (strictTenancyViolation Unit) =
        ⟨500, "INTERNAL_ERROR".toList, "An unexpected error occurred.".toList, none, none⟩ := by
  refine ⟨?_, rfl⟩
  decide

end Intellibiz.Http
