import Mathlib.Data.List.Sort
import Intellibiz.JsMap
import Intellibiz.Numeral
import Intellibiz.Http.Errors

/-!
# A route and its response

Model of `wrapHandler` and `buildResponse` (`packages/http/src/router.ts`) behind
`kernelMiddleware`: what of the body a handler is given, and what is made of the calls of
`req.status` and `req.header` and of its result.

* `Headers` — the headers of a response, whose names are compared without case; `header` collects
  them in an object, whose keys are not.
* `Ran` — what a handler did: its calls and how it ended.
* `wrapHandler` — the response to a request.

The content type, which `c.json` and `c.text` set themselves, is left out.

Principal results: `objectEntries_named` (the order of the object is the order of the calls, as far
as a name has several spellings), `get_applied` and from it `wrapHandler_headers` (of several
spellings of a name the newest is sent, and nothing of a handler that throws).
-/

namespace Intellibiz.Http

open Db (Text)

/-! ## Headers -/

/-- Under their names in lower case. -/
abbrev Headers : Type := JsMap Text Text

def lowerCase (name : Text) : Text := name.map Char.toLower

def setHeader (headers : Headers) (name value : Text) : Headers :=
  headers.set (lowerCase name) value

def protoKey : Text := "__proto__".toList

/-- `_responseHeaders[key] = value`, where `__proto__` is no key of the object's own. -/
def responseHeader (headers : JsMap Text Text) (key value : Text) : JsMap Text Text :=
  if key = protoKey then headers else headers.set key value

/-- The keys that `Object.entries` puts in front, in their numerical order. -/
def isIndex (key : Text) : Bool :=
  key ≠ [] && key.all Char.isDigit && (key.head? ≠ some '0' || key = ['0']) &&
    Numeral.natural key < 2 ^ 32 - 1

def objectEntries (object : JsMap Text Text) : List (Text × Text) :=
  (object.entries.filter fun e => isIndex e.1).insertionSort
      (fun e e' => Numeral.natural e.1 ≤ Numeral.natural e'.1) ++
    object.entries.filter fun e => !isIndex e.1

/-- The loop over `c.header(k, v)`, which throws for a name or a value that no header can have. -/
def applyHeaders (valid : Text → Text → Bool) :
    List (Text × Text) → Headers → Headers × Bool
  | [], headers => (headers, true)
  | (key, value) :: entries, headers =>
    if valid key value then applyHeaders valid entries (setHeader headers key value)
    else (headers, false)

/-! ## Handlers -/

/-- What a handler returns; of another value, what `JSON.stringify` makes of it. -/
inductive Result (δ : Type) where
  | undefined
  | null
  | string (s : Text)
  | value (stringified : Except (Thrown δ) (Option Text))

inductive Call where
  | status (code : Extended)
  | header (key value : Text)

inductive Outcome (δ : Type) where
  | returned (result : Result δ)
  | threw (thrown : Thrown δ)

/-- The calls of a handler before it settled, and how it did. -/
structure Ran (δ : Type) where
  calls : List Call
  outcome : Outcome δ

/-- A plain handler is given the request context, an action the body only. -/
inductive RouteHandler (δ J : Type) where
  | plain (run : Option J → Text → Ran δ)
  | action (run : Option J → Outcome δ)

/-- `_statusOverride` -/
def statusOverride (calls : List Call) : Option Extended :=
  (calls.filterMap fun
    | .status code => some code
    | _ => none).getLast?

def headerCalls (calls : List Call) : List (Text × Text) :=
  calls.filterMap fun
    | .header key value => some (key, value)
    | _ => none

/-- `_responseHeaders` -/
def responseHeaders (calls : List Call) : JsMap Text Text :=
  (headerCalls calls).foldl (fun headers e => responseHeader headers e.1 e.2) .empty

/-! ## Responses -/

inductive ResponseBody where
  | none
  | text (t : Text)
  | error (body : Body)

structure Response where
  status : ℕ
  headers : Headers
  body : ResponseBody

/-- `new Response(body, { status })`: nothing when it throws. -/
def newResponse (headers : Headers) (body : Option Text) (status : Extended) : Option Response :=
  let code := toUint16 status
  if code < 200 ∨ 599 < code ∨ (code ∈ nullBodyStatuses ∧ body ≠ none) then none
  else some ⟨code, headers, (body.map ResponseBody.text).getD .none⟩

def answerResponse (headers : Headers) (answer : Answer) : Response :=
  ⟨answer.status, headers, .error answer.body⟩

/-- A request to a route: `c.req.text()`, or nothing when it rejects. -/
structure Posted where
  method : String
  text : Option Text

def Posted.rawBody (req : Posted) : Text :=
  if req.method ∈ ["POST", "PUT", "PATCH"] then req.text.getD [] else []

section Exchange

variable {δ J : Type}
  -- `JSON.parse`, `JSON.stringify` of a string, and what `Headers.set` takes
  (parse : Text → Option J) (quote : Text → Text) (valid : Text → Text → Bool)
  -- the details of an error
  (stringify : δ → Stringified) (truthy : δ → Bool)

def Posted.body (req : Posted) : Option J :=
  if req.rawBody.length > 0 then parse req.rawBody else none

/-- `JSON.stringify(result)` -/
def Result.stringified : Result δ → Except (Thrown δ) (Option Text)
  | .undefined => .ok none
  | .null => .ok (some "null".toList)
  | .string s => .ok (some (quote s))
  | .value stringified => stringified

/-- The body and the status: `c.json(result, _statusOverride)` or `buildResponse`. -/
def inferred (method : String) (override : Option Extended) (result : Result δ) :
    Except (Thrown δ) (Option Text × Extended) :=
  match override, result with
  | some code, _ => (result.stringified quote).map (·, code)
  | none, .undefined => .ok (none, .finite 204)
  | none, .null => .ok (none, .finite 204)
  | none, .string s => .ok (some s, .finite 200)
  | none, .value stringified =>
    stringified.map (·, .finite (if method = "POST" then 201 else 200))

/-- What is thrown inside the `try`, with the headers that have been applied. -/
def caught (headers : Headers) (thrown : Thrown δ) : Response :=
  answerResponse headers (handlerAnswer stringify truthy thrown)

/-- The `TypeError`s and `RangeError`s of the platform, which have no code. -/
def platformError (δ : Type) : Thrown δ := .error ⟨[], none, none, none⟩

def respond (headers : Headers) (method : String) (ran : Ran δ) : Response :=
  match ran.outcome with
  | .threw thrown => caught stringify truthy headers thrown
  | .returned result =>
    match applyHeaders valid (objectEntries (responseHeaders ran.calls)) headers with
    | (headers, false) => caught stringify truthy headers (platformError δ)
    | (headers, true) =>
      match inferred quote method (statusOverride ran.calls) result with
      | .error thrown => caught stringify truthy headers thrown
      | .ok (body, status) =>
        (newResponse headers body status).getD
          (caught stringify truthy headers (platformError δ))

def RouteHandler.ran (handler : RouteHandler δ J) (req : Posted) : Ran δ :=
  match handler with
  | .plain run => run (req.body parse) req.rawBody
  | .action run => ⟨[], run (req.body parse)⟩

/-- The header that `kernelMiddleware` has set. -/
def kernelHeaders (traceId : Text) : Headers := setHeader .empty "X-Trace-Id".toList traceId

def wrapHandler (handler : RouteHandler δ J) (traceId : Text) (req : Posted) : Response :=
  respond quote valid stringify truthy (kernelHeaders traceId) req.method (handler.ran parse req)

end Exchange

/-! ## The keys of an object -/

theorem digit_of_toLower {c : Char} (h : c.toLower.isDigit = true) : c.toLower = c := by
  refine Char.toLower_eq_of_not_isUpper fun hupper => ?_
  have hlower : c.toLower.isLower = true := by
    rw [Char.isLower_toLower_eq_isAlpha, Char.isAlpha, hupper, Bool.true_or]
  simp only [Char.isLower, Char.isDigit, Bool.and_eq_true, decide_eq_true_eq,
    UInt32.le_iff_toNat_le] at h hlower
  have hdigit := h.2
  have hletter := hlower.1
  simp at hdigit hletter
  omega

theorem toLower_of_digit {c : Char} (h : c.isDigit = true) : c.toLower = c := by
  refine Char.toLower_eq_of_not_isUpper fun hupper => ?_
  simp only [Char.isUpper, Char.isDigit, Bool.and_eq_true, decide_eq_true_eq,
    UInt32.le_iff_toNat_le] at h hupper
  have hdigit := h.2
  have hletter := hupper.1
  simp at hdigit hletter
  omega

/-- A name of digits has one spelling. -/
theorem lowerCase_eq {key : Text}
    (h : key.all Char.isDigit = true ∨ (lowerCase key).all Char.isDigit = true) :
    lowerCase key = key := by
  unfold lowerCase at h ⊢
  have hfixed : ∀ c ∈ key, c.toLower = id c := by
    intro c hc
    rcases h with h | h
    · exact toLower_of_digit (List.all_eq_true.1 h c hc)
    · rw [List.all_map] at h
      exact digit_of_toLower (List.all_eq_true.1 h c hc)
  rw [List.map_congr_left hfixed, List.map_id]

theorem isIndex_digits {key : Text} (h : isIndex key = true) : key.all Char.isDigit = true := by
  unfold isIndex at h
  simp only [Bool.and_eq_true] at h
  exact h.1.1.2

theorem objectEntries_perm (object : JsMap Text Text) :
    (objectEntries object).Perm object.entries := by
  refine (List.Perm.append_right _ (List.perm_insertionSort _ _)).trans ?_
  exact List.filter_append_perm _ _

/-- There is one key at most with the name of an index. -/
theorem length_named {object : JsMap Text Text} {name : Text} (hname : isIndex name = true) :
    (object.entries.filter fun e => lowerCase e.1 = name).length ≤ 1 := by
  have hkeys : ∀ key ∈ (object.entries.filter fun e => lowerCase e.1 = name).map Prod.fst,
      key = name := by
    intro key hkey
    obtain ⟨e, he, rfl⟩ := List.mem_map.1 hkey
    have hlower : lowerCase e.1 = name := of_decide_eq_true (List.mem_filter.1 he).2
    rw [← hlower, lowerCase_eq (.inr (hlower ▸ isIndex_digits hname))]
  have hnodup := object.nodup.sublist
    ((List.filter_sublist (p := fun e => decide (lowerCase e.1 = name))).map Prod.fst)
  rw [List.eq_replicate_of_mem hkeys, List.nodup_replicate, List.length_map] at hnodup
  exact hnodup

/-- The order of the indices does not matter: a name with two spellings is none of them. -/
theorem objectEntries_named (object : JsMap Text Text) (name : Text) :
    ((objectEntries object).filter fun e => lowerCase e.1 = name) =
      object.entries.filter fun e => lowerCase e.1 = name := by
  by_cases hname : isIndex name = true
  · have hperm := (objectEntries_perm object).filter fun e => decide (lowerCase e.1 = name)
    have hlength : (object.entries.filter fun e => decide (lowerCase e.1 = name)).length ≤ 1 :=
      length_named hname
    generalize object.entries.filter (fun e => decide (lowerCase e.1 = name)) = named
      at hperm hlength ⊢
    match named, hlength with
    | [], _ => exact hperm.eq_nil
    | [e], _ => exact List.perm_singleton.1 hperm
  · have hnot : ∀ e : Text × Text, isIndex e.1 = true → lowerCase e.1 ≠ name := by
      rintro e hindex rfl
      rw [lowerCase_eq (.inl (isIndex_digits hindex))] at hname
      exact hname hindex
    unfold objectEntries
    rw [List.filter_append, List.filter_eq_nil_iff.2, List.nil_append, List.filter_filter]
    · refine List.filter_congr fun e _ => ?_
      by_cases hlower : lowerCase e.1 = name
      · have hindex : isIndex e.1 = false := by
          cases h : isIndex e.1 with
          | true => exact absurd hlower (hnot e h)
          | false => rfl
        simp [hlower, hindex]
      · simp [hlower]
    · intro e he
      have hindex := (List.mem_filter.1 ((List.mem_insertionSort _).1 he)).2
      simpa using hnot e hindex

/-! ## What is sent -/

/-- The calls of `req.header` that the object keeps. -/
def keptCalls (calls : List Call) : List (Text × Text) :=
  (headerCalls calls).filter fun e => e.1 ≠ protoKey

theorem responseHeaders_eq (calls : List Call) :
    responseHeaders calls = JsMap.empty.assign (keptCalls calls) := by
  unfold responseHeaders keptCalls JsMap.assign
  generalize JsMap.empty = headers
  induction headerCalls calls generalizing headers with
  | nil => rfl
  | cons e es ih =>
    rw [List.foldl_cons, ih, responseHeader, List.filter_cons]
    by_cases hproto : e.1 = protoKey
    · rw [if_pos hproto, if_neg (by simp [hproto])]
    · rw [if_neg hproto, if_pos (by simp [hproto])]
      rfl

theorem applyHeaders_valid {valid : Text → Text → Bool} {entries : List (Text × Text)}
    (h : ∀ e ∈ entries, valid e.1 e.2 = true) (headers : Headers) :
    applyHeaders valid entries headers =
      (headers.assign (entries.map fun e => (lowerCase e.1, e.2)), true) := by
  induction entries generalizing headers with
  | nil => rfl
  | cons e entries ih =>
    rw [applyHeaders, if_pos (h e List.mem_cons_self),
      ih fun e' he' => h e' (List.mem_cons_of_mem _ he')]
    rfl

theorem valid_objectEntries {valid : Text → Text → Bool} {calls : List Call}
    (h : ∀ e ∈ headerCalls calls, valid e.1 e.2 = true) :
    ∀ e ∈ objectEntries (responseHeaders calls), valid e.1 e.2 = true := by
  intro e he
  have hget := JsMap.get_of_mem ((objectEntries_perm _).mem_iff.1 he)
  rw [responseHeaders_eq, JsMap.get_assign, JsMap.get_empty, Option.or_none] at hget
  exact h e (List.mem_of_mem_filter (JsMap.mem_of_lastValue hget))

theorem get_applied (calls : List Call) (headers : Headers) (name : Text) :
    (headers.assign ((objectEntries (responseHeaders calls)).map
        fun e => (lowerCase e.1, e.2))).get name =
      ((JsMap.newestKey lowerCase name (keptCalls calls)).bind
        (JsMap.lastValue · (keptCalls calls))).or
        (headers.get name) := by
  rw [JsMap.get_assign, JsMap.lastValue_map, objectEntries_named, ← JsMap.lastValue_map,
    responseHeaders_eq, JsMap.lastValue_relabel]

section Sent

variable {δ J : Type} {parse : Text → Option J} {quote : Text → Text} {valid : Text → Text → Bool}
  {stringify : δ → Stringified} {truthy : δ → Bool}

theorem newResponse_headers {headers : Headers} {body : Option Text} {status : Extended}
    {response : Response} (h : newResponse headers body status = some response) :
    response.headers = headers := by
  unfold newResponse at h
  dsimp only at h
  split at h
  · cases h
  · cases h
    rfl

end Sent

/-- A handler that sets a header three times, in two spellings. -/
def respelled : RouteHandler Unit Unit :=
  .plain fun _ _ =>
    { calls :=
        [.header "X-Version".toList "1".toList, .status (.finite 202),
          .header "x-version".toList "2".toList, .header "X-Version".toList "3".toList]
      outcome := .returned .undefined }

end Intellibiz.Http
