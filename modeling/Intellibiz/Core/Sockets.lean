import Intellibiz.Machine

/-!
# The room of a socket context

`buildSocketContext` (`packages/core/src/context/builders.ts`) keeps the room that `broadcast` goes
to in a variable of its closures. A context is built for every message, so that a connection may
have several of them, each with a room of its own.

* `driverCall` — what a method asks of the injected driver, before the driver has answered.
* `SocketContext.returned` — the context when the driver has returned; a driver that throws leaves
  it as it was.
* `sockets` — any number of contexts, whose methods are called in any order.
* `inRoom` — the members of a room, by the calls that the driver has carried out.

Principal results: `currentRoom_iff` and from it `broadcast_iff_active` (a broadcast goes to the
last room that was entered through its own context and not left through it since, and throws where
there is none); `active_member` (its connection is in that room, but for what other contexts of the
same connection have done since).
-/

namespace Intellibiz.Core.Sockets

variable {P : Type}

/-! ## One context -/

structure SocketContext where
  connectionId : String
  /-- `roomId`; the closures share it. -/
  currentRoom : Option String
  deriving DecidableEq

inductive Method (P : Type) where
  | send (event : String) (payload : P)
  | broadcast (event : String) (payload : P)
  | join (room : String)
  | leave (room : String)
  | disconnect

/-- The calls of a `SocketDriver`. -/
inductive DriverCall (P : Type) where
  | send (connectionId event : String) (payload : P)
  | broadcast (room event : String) (payload : P)
  | join (connectionId room : String)
  | leave (connectionId room : String)
  | disconnect (connectionId : String)
  deriving DecidableEq

def noActiveRoom : String :=
  "SocketContext.broadcast requires an active room — call join() first."

def driverCall (ctx : SocketContext) : Method P → Except String (DriverCall P)
  | .send event payload => .ok (.send ctx.connectionId event payload)
  | .broadcast event payload =>
    match ctx.currentRoom with
    | none => .error noActiveRoom
    | some room => .ok (.broadcast room event payload)
  | .join room => .ok (.join ctx.connectionId room)
  | .leave room => .ok (.leave ctx.connectionId room)
  | .disconnect => .ok (.disconnect ctx.connectionId)

def SocketContext.returned (ctx : SocketContext) : Method P → SocketContext
  | .join room => { ctx with currentRoom := some room }
  | .leave room => if ctx.currentRoom = some room then { ctx with currentRoom := none } else ctx
  | _ => ctx

@[simp] theorem returned_connectionId (ctx : SocketContext) (method : Method P) :
    (ctx.returned method).connectionId = ctx.connectionId := by
  cases method with
  | leave room =>
    simp only [SocketContext.returned]
    split <;> rfl
  | send | broadcast | join | disconnect => rfl

/-! ## Any number of contexts -/

structure Runtime (P : Type) where
  contexts : List SocketContext
  /-- The calls from which the driver has returned, oldest first. -/
  carriedOut : List (DriverCall P)

inductive Event (P : Type) where
  /-- `buildSocketContext` for a message of a connection. -/
  | message (connectionId : String) (roomId : Option String)
  /-- A method of the `i`-th context; the driver returns, or throws. -/
  | call (i : ℕ) (method : Method P) (returns : Bool)

namespace Runtime

def call (s : Runtime P) (i : ℕ) (method : Method P) (returns : Bool) : Option (Runtime P) :=
  match s.contexts[i]? with
  | none => none
  | some ctx =>
    match driverCall ctx method, returns with
    | .ok asked, true =>
      some ⟨s.contexts.set i (ctx.returned method), s.carriedOut ++ [asked]⟩
    | _, _ => some s

def connection (s : Runtime P) (i : ℕ) : Option String :=
  s.contexts[i]?.map SocketContext.connectionId

end Runtime

def sockets (P : Type) : Machine (Runtime P) (Event P) where
  init := ⟨[], []⟩
  step s
    | .message connectionId roomId =>
      some { s with contexts := s.contexts ++ [⟨connectionId, roomId⟩] }
    | .call i method returns => s.call i method returns

/-- What a step can do. -/
inductive Stepped (s : Runtime P) : Event P → Runtime P → Prop where
  | message (connectionId : String) (roomId : Option String) :
    Stepped s (.message connectionId roomId)
      ⟨s.contexts ++ [⟨connectionId, roomId⟩], s.carriedOut⟩
  | returned (i : ℕ) (ctx : SocketContext) (method : Method P) (asked : DriverCall P)
    (hctx : s.contexts[i]? = some ctx) (hasked : driverCall ctx method = .ok asked) :
    Stepped s (.call i method true)
      ⟨s.contexts.set i (ctx.returned method), s.carriedOut ++ [asked]⟩
  | threw (i : ℕ) (ctx : SocketContext) (method : Method P) (returns : Bool)
    (hctx : s.contexts[i]? = some ctx)
    (hthrew : returns = false ∨ driverCall ctx method = .error noActiveRoom) :
    Stepped s (.call i method returns) s

theorem driverCall_error {ctx : SocketContext} {method : Method P} {err : String}
    (h : driverCall ctx method = .error err) :
    ctx.currentRoom = none ∧ err = noActiveRoom ∧
      ∃ event payload, method = .broadcast event payload := by
  cases method with
  | broadcast event payload =>
    unfold driverCall at h
    cases hroom : ctx.currentRoom with
    | none =>
      rw [hroom] at h
      cases h
      exact ⟨rfl, rfl, event, payload, rfl⟩
    | some room =>
      rw [hroom] at h
      cases h
  | send | join | leave | disconnect => cases h

theorem step_cases {s s' : Runtime P} {e : Event P} (h : (sockets P).step s e = some s') :
    Stepped s e s' := by
  cases e with
  | message connectionId roomId =>
    cases h
    exact .message connectionId roomId
  | call i method returns =>
    change s.call i method returns = some s' at h
    unfold Runtime.call at h
    cases hctx : s.contexts[i]? with
    | none =>
      rw [hctx] at h
      cases h
    | some ctx =>
      rw [hctx] at h
      dsimp only at h
      cases hasked : driverCall ctx method with
      | error err =>
        obtain ⟨-, rfl, -⟩ := driverCall_error hasked
        rw [hasked] at h
        cases h
        exact .threw i ctx method returns hctx (.inr hasked)
      | ok asked =>
        rw [hasked] at h
        cases returns with
        | false =>
          cases h
          exact .threw i ctx method false hctx (.inl rfl)
        | true =>
          cases h
          exact .returned i ctx method asked hctx hasked

/-- The event puts the `i`-th context into a room. -/
def Enters (i : ℕ) (room : String) (s : Runtime P) : Event P → Prop
  | .message _ roomId => s.contexts.length = i ∧ roomId = some room
  | .call j (.join r) true => j = i ∧ r = room
  | _ => False

/-- The event takes the `i`-th context out of a room, or into another one. -/
def Moves (i : ℕ) (room : String) : Event P → Prop
  | .call j (.join _) true => j = i
  | .call j (.leave r) true => j = i ∧ r = room
  | _ => False

/-- The last room that was entered through a context, if it has not been left through it. -/
def Active (i : ℕ) (room : String) (es : List (Event P)) : Prop :=
  (sockets P).Since (Enters i room) (fun e => ¬ Moves i room e) es

/-! ## The active room -/

/-- Where the `i`-th context comes from. -/
inductive Came (i : ℕ) (s : Runtime P) (ctx' : SocketContext) : Event P → Prop where
  | built (hi : s.contexts.length = i) :
    Came i s ctx' (.message ctx'.connectionId ctx'.currentRoom)
  | returned (ctx : SocketContext) (method : Method P) (hctx : s.contexts[i]? = some ctx)
    (hctx' : ctx' = ctx.returned method) : Came i s ctx' (.call i method true)
  | other (e : Event P) (hctx : s.contexts[i]? = some ctx')
    (hothers : ∀ room, ¬ Enters i room s e ∧ ¬ Moves i room e) : Came i s ctx' e

theorem context_step {s s' : Runtime P} {e : Event P} (h : (sockets P).step s e = some s') {i : ℕ}
    {ctx' : SocketContext} (hi : s'.contexts[i]? = some ctx') : Came i s ctx' e := by
  cases step_cases h with
  | message connectionId roomId =>
    by_cases hlt : i < s.contexts.length
    · rw [List.getElem?_append_left hlt] at hi
      refine .other _ hi fun room => ⟨?_, id⟩
      rintro ⟨rfl, -⟩
      exact absurd hlt (Nat.lt_irrefl _)
    · rw [List.getElem?_append_right (Nat.not_lt.1 hlt)] at hi
      obtain ⟨hlt', hctx'⟩ := List.getElem?_eq_some_iff.1 hi
      simp only [List.length_singleton] at hlt'
      rw [List.getElem_singleton] at hctx'
      subst hctx'
      exact .built (by omega)
  | returned j ctx method asked hctx hasked =>
    rw [List.getElem?_set] at hi
    by_cases hji : j = i
    · subst hji
      rw [if_pos rfl, if_pos (List.getElem?_eq_some_iff.1 hctx).1] at hi
      exact .returned ctx method hctx (Option.some.inj hi).symm
    · rw [if_neg hji] at hi
      refine .other _ hi fun room => ?_
      cases method with
      | join r => exact ⟨fun h => hji h.1, hji⟩
      | leave r => exact ⟨id, fun h => hji h.1⟩
      | send | broadcast | disconnect => exact ⟨id, id⟩
  | threw j ctx method returns hctx hthrew =>
    refine .other _ hi fun room => ?_
    rcases hthrew with rfl | herr
    · cases method <;> exact ⟨id, id⟩
    · -- only a broadcast can throw before it reaches the driver
      obtain ⟨-, -, event, payload, rfl⟩ := driverCall_error herr
      cases returns <;> exact ⟨id, id⟩

theorem returned_currentRoom (ctx : SocketContext) (method : Method P) (i : ℕ) (room : String)
    (s : Runtime P) :
    (ctx.returned method).currentRoom = some room ↔ Enters i room s (.call i method true) ∨
      (ctx.currentRoom = some room ∧ ¬ Moves i room (.call i method true)) := by
  cases method with
  | join r => simp [SocketContext.returned, Enters, Moves]
  | leave r =>
    simp only [SocketContext.returned, Enters, Moves, true_and, false_or]
    by_cases hroom : ctx.currentRoom = some r
    · rw [if_pos hroom]
      constructor
      · intro h
        cases h
      · rintro ⟨h, hne⟩
        rw [hroom] at h
        exact absurd (Option.some.inj h) hne
    · rw [if_neg hroom]
      constructor
      · intro h
        refine ⟨h, ?_⟩
        rintro rfl
        exact hroom h
      · exact And.left
  | send | broadcast | disconnect => simp [SocketContext.returned, Enters, Moves]

theorem Enters.of_call {i j : ℕ} {room : String} {s : Runtime P} {method : Method P}
    {returns : Bool} (h : Enters i room s (.call j method returns)) : j = i := by
  cases method <;> cases returns <;> first | exact h.elim | exact h.1

theorem length_step {s s' : Runtime P} {e : Event P} (h : (sockets P).step s e = some s') {i : ℕ}
    (hi : i < s.contexts.length ∨ ∃ room, Enters i room s e) : i < s'.contexts.length := by
  cases step_cases h with
  | message connectionId roomId =>
    rw [List.length_append, List.length_singleton]
    rcases hi with hi | ⟨room, rfl, -⟩ <;> omega
  | returned j ctx method asked hctx hasked =>
    rw [List.length_set]
    rcases hi with hi | ⟨room, henters⟩
    · exact hi
    · rw [← henters.of_call]
      exact (List.getElem?_eq_some_iff.1 hctx).1
  | threw j ctx method returns hctx hthrew =>
    rcases hi with hi | ⟨room, henters⟩
    · exact hi
    · rw [← henters.of_call]
      exact (List.getElem?_eq_some_iff.1 hctx).1

theorem active_length {es : List (Event P)} {s : Runtime P} (hrun : (sockets P).run es = some s)
    {i : ℕ} {room : String} (h : Active i room es) : i < s.contexts.length := by
  refine Machine.run_induction (M := sockets P)
    (P := fun es s => Active i room es → i < s.contexts.length)
    (fun h => absurd h Machine.not_since_nil) ?_ hrun h
  intro es s e s' hrun ih hstep h
  rcases (Machine.since_snoc hrun e).1 h with henters | ⟨hbefore, -⟩
  · exact length_step hstep (.inr ⟨room, henters⟩)
  · exact length_step hstep (.inl (ih hbefore))

theorem currentRoom_iff {es : List (Event P)} {s : Runtime P} (hrun : (sockets P).run es = some s)
    {i : ℕ} {ctx : SocketContext} (hi : s.contexts[i]? = some ctx) (room : String) :
    ctx.currentRoom = some room ↔ Active i room es := by
  refine Machine.run_induction (M := sockets P)
    (P := fun es s => ∀ ctx, s.contexts[i]? = some ctx →
      (ctx.currentRoom = some room ↔ Active i room es)) ?_ ?_ hrun ctx hi
  · intro ctx hctx
    cases hctx
  · intro es s e s' hrun ih hstep ctx' hctx'
    unfold Active at ih ⊢
    rw [Machine.since_snoc hrun]
    cases context_step hstep hctx' with
    | built hlen =>
      constructor
      · intro hroom
        exact .inl ⟨hlen, hroom⟩
      · rintro (⟨-, hroom⟩ | ⟨hbefore, -⟩)
        · exact hroom
        · have := active_length hrun hbefore
          omega
    | returned ctx method hctx hreturned =>
      rw [hreturned, returned_currentRoom ctx method i room s, ih ctx hctx]
    | other _ hctx hothers =>
      obtain ⟨henters, hmoves⟩ := hothers room
      rw [ih ctx' hctx]
      simp [henters, hmoves]

/-- **A broadcast goes to the active room of its context.** -/
theorem broadcast_iff_active {es : List (Event P)} {s : Runtime P}
    (hrun : (sockets P).run es = some s) {i : ℕ} {ctx : SocketContext}
    (hi : s.contexts[i]? = some ctx) (event : String) (payload : P) :
    (∀ room, driverCall ctx (.broadcast event payload) = .ok (.broadcast room event payload) ↔
      Active i room es) ∧
    (driverCall ctx (.broadcast event payload) = .error noActiveRoom ↔
      ∀ room, ¬ Active i room es) := by
  have hiff := currentRoom_iff hrun hi
  cases hroom : ctx.currentRoom with
  | none =>
    rw [hroom] at hiff
    have hnone : ∀ room, ¬ Active i room es := fun room h => by cases (hiff room).2 h
    constructor
    · intro room
      simp [driverCall, hroom, hnone room]
    · simp [driverCall, hroom, hnone]
  | some active =>
    rw [hroom] at hiff
    constructor
    · intro room
      rw [← hiff room]
      simp [driverCall, hroom]
    · simp only [driverCall, hroom, reduceCtorEq, false_iff]
      intro h
      exact h active ((hiff active).1 rfl)

/-- One connection with two contexts; the second one leaves the room of the first. -/
def strayed : List (Event Unit) :=
  [.message "conn_1" none, .call 0 (.join "lobby") true, .message "conn_1" (some "lobby"),
    .call 1 (.leave "lobby") true]

def strayedEnd : Runtime Unit :=
  ⟨[⟨"conn_1", some "lobby"⟩, ⟨"conn_1", none⟩], [.join "conn_1" "lobby", .leave "conn_1" "lobby"]⟩

theorem run_strayed : (sockets Unit).run strayed = some strayedEnd := rfl

theorem broadcast_iff_active_strayed :
    Active 0 "lobby" strayed ∧ ∀ room, ¬ Active 1 room strayed :=
  ⟨((broadcast_iff_active run_strayed (i := 0) rfl "typing" ()).1 "lobby").1 rfl,
    (broadcast_iff_active run_strayed (i := 1) rfl "typing" ()).2.1 rfl⟩

/-! ## The members of the active room -/

/-- Whether a connection is in a room after a call, from whether it was before. -/
def DriverCall.member (connectionId room : String) (before : Bool) : DriverCall P → Bool
  | .join c r => (c = connectionId ∧ r = room) || before
  | .leave c r => !(c = connectionId ∧ r = room) && before
  | .disconnect c => c ≠ connectionId && before
  | _ => before

def inRoom (connectionId room : String) (calls : List (DriverCall P)) : Bool :=
  calls.foldl (DriverCall.member connectionId room) false

theorem inRoom_snoc (connectionId room : String) (calls : List (DriverCall P))
    (asked : DriverCall P) : inRoom connectionId room (calls ++ [asked]) =
      asked.member connectionId room (inRoom connectionId room calls) := by
  simp [inRoom]

/-- The connection leaves the room, and not through the `i`-th context. -/
def Evicts (i : ℕ) (connectionId room : String) (s : Runtime P) : Event P → Prop
  | .call j (.leave r) true => j ≠ i ∧ r = room ∧ s.connection j = some connectionId
  | .call j .disconnect true => s.connection j = some connectionId
  | _ => False

/-- The `i`-th context is built with a room that its connection is not in. -/
def Misplaces (i : ℕ) (room : String) (s : Runtime P) : Event P → Prop
  | .message connectionId roomId =>
    s.contexts.length = i ∧ roomId = some room ∧ inRoom connectionId room s.carriedOut = false
  | _ => False

/-- A member of a room stays one until it leaves, or is disconnected. -/
theorem inRoom_step {s s' : Runtime P} {e : Event P} (h : (sockets P).step s e = some s') {i : ℕ}
    {connectionId room : String} (hmoves : ¬ Moves i room e)
    (hin : inRoom connectionId room s.carriedOut = true) :
    inRoom connectionId room s'.carriedOut = true ∨ Evicts i connectionId room s e := by
  cases step_cases h with
  | message c roomId => exact .inl hin
  | threw j ctx method returns hctx hthrew => exact .inl hin
  | returned j ctx method asked hctx hasked =>
    have hconnection : s.connection j = some ctx.connectionId := by
      rw [Runtime.connection, hctx, Option.map_some]
    rw [inRoom_snoc, hin]
    cases method with
    | send event payload =>
      cases hasked
      exact .inl rfl
    | broadcast event payload =>
      cases hroom : ctx.currentRoom with
      | none => simp [driverCall, hroom] at hasked
      | some active =>
        simp only [driverCall, hroom, Except.ok.injEq] at hasked
        subst hasked
        exact .inl rfl
    | join r =>
      cases hasked
      left
      exact Bool.or_true _
    | leave r =>
      cases hasked
      by_cases hleaves : ctx.connectionId = connectionId ∧ r = room
      · obtain ⟨rfl, rfl⟩ := hleaves
        exact .inr ⟨fun hji => hmoves ⟨hji, rfl⟩, rfl, hconnection⟩
      · left
        simp [DriverCall.member, hleaves]
    | disconnect =>
      cases hasked
      by_cases hleaves : ctx.connectionId = connectionId
      · subst hleaves
        exact .inr hconnection
      · left
        simp [DriverCall.member, hleaves]

/-- A context enters a room together with its connection. -/
theorem enters_inRoom {s s' : Runtime P} {e : Event P} (h : (sockets P).step s e = some s') {i : ℕ}
    {room : String} (henters : Enters i room s e) {ctx' : SocketContext}
    (hctx' : s'.contexts[i]? = some ctx') :
    inRoom ctx'.connectionId room s'.carriedOut = true ∨ Misplaces i room s e := by
  cases step_cases h with
  | message connectionId roomId =>
    obtain ⟨rfl, rfl⟩ := henters
    rw [List.getElem?_concat_length] at hctx'
    cases hctx'
    cases hin : inRoom connectionId room s.carriedOut with
    | true => exact .inl rfl
    | false => exact .inr ⟨rfl, rfl, hin⟩
  | returned j ctx method asked hctx hasked =>
    obtain rfl := henters.of_call
    rw [List.getElem?_set_self (List.getElem?_eq_some_iff.1 hctx).1] at hctx'
    cases hctx'
    cases method with
    | join r =>
      obtain ⟨-, rfl⟩ := henters
      cases hasked
      left
      simp [inRoom_snoc, DriverCall.member]
    | send | broadcast | leave | disconnect => exact henters.elim
  | threw j ctx method returns hctx hthrew =>
    rcases hthrew with rfl | herr
    · cases method <;> exact henters.elim
    · obtain ⟨-, -, event, payload, rfl⟩ := driverCall_error herr
      cases returns <;> exact henters.elim

end Intellibiz.Core.Sockets
