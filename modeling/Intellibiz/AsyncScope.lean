import Intellibiz.Machine

/-!
# A slot that follows asynchronous code

A single-threaded event loop with one global slot, as `AsyncLocalStorage` keeps it: `run` sets the
slot for a call and puts the old value back when the call returns at its first `await`; a
continuation remembers the slot it was made under, and finds it there when it is resumed.  What a
promise settles to, and when, is up to the schedule.

* `Code` — asynchronous code by its reads of the slot, its calls and its `await`s; procedures are
  called by name.
* `slots` — the event loop with the global slot.
* `lexical` — the same event loop without a slot: every piece of code carries the value of the
  innermost `run` around it.
* `Confined` — code that enters no other scope and notes only what its scope allows.

Principal results: `slots_lexical` (the two loops do the same, for all code and every schedule) and
`confined_log` (what is noted on behalf of an entry is allowed by the scope of this entry).
-/

namespace AsyncScope

/-- `σ` is what the slot holds, `π` names the procedures, `ο` is what code notes down. -/
inductive Code (σ π ο : Type) where
  | done
  | read (k : Option σ → Code σ π ο)
  | note (o : ο) (k : Code σ π ο)
  /-- A call without its `await`. -/
  | invoke (p : π) (k : Code σ π ο)
  /-- `storage.run(v, body)`, without its `await` -/
  | run (v : σ) (body k : Code σ π ο)
  | await (k : Bool → Code σ π ο)
  /-- A callback for later. -/
  | later (body k : Code σ π ο)

/-- An entry of the event loop, a continuation that is resumed, or one step of the running code. -/
inductive Event (α : Type) where
  | start (a : α)
  | resume (i : ℕ) (ok : Bool)
  | tick

variable {σ π ο α : Type}

/-! ## The global slot -/

/-- A caller that waits for a call to return, and what the return puts into the slot. -/
structure Frame (σ π ο : Type) where
  rest : Code σ π ο
  restore : Option (Option σ)

/-- The running code; `root` is the entry that it goes back to. -/
structure Task (σ π ο : Type) where
  root : ℕ
  code : Code σ π ο
  frames : List (Frame σ π ο)

structure Pending (σ π ο : Type) where
  root : ℕ
  slot : Option σ
  resume : Bool → Code σ π ο

structure Loop (σ π ο α : Type) where
  current : Option σ
  running : Option (Task σ π ο)
  queue : List (Pending σ π ο)
  started : List α
  log : List (ℕ × ο)

namespace Loop

variable (s : Loop σ π ο α) (t : Task σ π ο)

/-- The running code returns to its caller, or to the event loop. -/
def ret : Loop σ π ο α :=
  match t.frames with
  | [] => { s with current := none, running := none }
  | f :: frames =>
    { s with
      current := f.restore.getD s.current
      running := some ⟨t.root, f.rest, frames⟩ }

def continueWith (code : Code σ π ο) : Loop σ π ο α := { s with running := some { t with code } }

def enqueue (resume : Bool → Code σ π ο) : Loop σ π ο α :=
  { s with queue := s.queue ++ [⟨t.root, s.current, resume⟩] }

def tick (procs : π → Code σ π ο) : Loop σ π ο α :=
  match t.code with
  | .done => s.ret t
  | .read k => s.continueWith t (k s.current)
  | .note o k => { s with log := s.log ++ [(t.root, o)] }.continueWith t k
  | .invoke p k => { s with running := some ⟨t.root, procs p, ⟨k, none⟩ :: t.frames⟩ }
  | .run v body k =>
    { s with
      current := some v
      running := some ⟨t.root, body, ⟨k, some s.current⟩ :: t.frames⟩ }
  | .await k => (s.enqueue t k).ret t
  | .later body k => (s.enqueue t fun _ => body).continueWith t k

end Loop

def Loop.step (procs : π → Code σ π ο) (enter : α → Code σ π ο) (s : Loop σ π ο α) :
    Event α → Option (Loop σ π ο α)
  | .start a =>
    match s.running with
    | some _ => none
    | none => some
      { s with running := some ⟨s.started.length, enter a, []⟩, started := s.started ++ [a] }
  | .resume i ok =>
    match s.running, s.queue[i]? with
    | none, some p => some
      { s with
        current := p.slot
        running := some ⟨p.root, p.resume ok, []⟩
        queue := s.queue.eraseIdx i }
    | _, _ => none
  | .tick => s.running.map fun t => s.tick t procs

def slots (procs : π → Code σ π ο) (enter : α → Code σ π ο) :
    Machine (Loop σ π ο α) (Event α) where
  init := ⟨none, none, [], [], []⟩
  step := Loop.step procs enter

/-! ## Scopes -/

/-- Code in the scope of the innermost `run` around it. -/
structure Scoped (σ π ο : Type) where
  scope : Option σ
  code : Code σ π ο

structure ScopedTask (σ π ο : Type) where
  root : ℕ
  scope : Option σ
  code : Code σ π ο
  frames : List (Scoped σ π ο)

structure ScopedLoop (σ π ο α : Type) where
  running : Option (ScopedTask σ π ο)
  queue : List (Pending σ π ο)
  started : List α
  log : List (ℕ × ο)

namespace ScopedLoop

variable (s : ScopedLoop σ π ο α) (t : ScopedTask σ π ο)

def ret : ScopedLoop σ π ο α :=
  match t.frames with
  | [] => { s with running := none }
  | f :: frames => { s with running := some ⟨t.root, f.scope, f.code, frames⟩ }

def continueWith (code : Code σ π ο) : ScopedLoop σ π ο α :=
  { s with running := some { t with code } }

def enqueue (resume : Bool → Code σ π ο) : ScopedLoop σ π ο α :=
  { s with queue := s.queue ++ [⟨t.root, t.scope, resume⟩] }

def tick (procs : π → Code σ π ο) : ScopedLoop σ π ο α :=
  match t.code with
  | .done => s.ret t
  | .read k => s.continueWith t (k t.scope)
  | .note o k => { s with log := s.log ++ [(t.root, o)] }.continueWith t k
  | .invoke p k => { s with running := some ⟨t.root, t.scope, procs p, ⟨t.scope, k⟩ :: t.frames⟩ }
  | .run v body k =>
    { s with running := some ⟨t.root, some v, body, ⟨t.scope, k⟩ :: t.frames⟩ }
  | .await k => (s.enqueue t k).ret t
  | .later body k => (s.enqueue t fun _ => body).continueWith t k

end ScopedLoop

def ScopedLoop.step (procs : π → Code σ π ο) (enter : α → Code σ π ο) (s : ScopedLoop σ π ο α) :
    Event α → Option (ScopedLoop σ π ο α)
  | .start a =>
    match s.running with
    | some _ => none
    | none => some
      { s with running := some ⟨s.started.length, none, enter a, []⟩, started := s.started ++ [a] }
  | .resume i ok =>
    match s.running, s.queue[i]? with
    | none, some p => some
      { s with
        running := some ⟨p.root, p.slot, p.resume ok, []⟩
        queue := s.queue.eraseIdx i }
    | _, _ => none
  | .tick => s.running.map fun t => s.tick t procs

def lexical (procs : π → Code σ π ο) (enter : α → Code σ π ο) :
    Machine (ScopedLoop σ π ο α) (Event α) where
  init := ⟨none, [], [], []⟩
  step := ScopedLoop.step procs enter

/-! ## The slot is the scope -/

/-- The slot `current` of the running code, and what the returns will put there, are the scopes of
the callers. -/
def SameFrames : Option σ → List (Frame σ π ο) → List (Scoped σ π ο) → Prop
  | _, [], [] => True
  | current, f :: frames, g :: callers =>
    f.rest = g.code ∧ f.restore.getD current = g.scope ∧ SameFrames g.scope frames callers
  | _, _, _ => False

inductive SameTask : Option σ → Option (Task σ π ο) → Option (ScopedTask σ π ο) → Prop
  | idle : SameTask none none none
  | running {root : ℕ} {current : Option σ} {code : Code σ π ο} {frames : List (Frame σ π ο)}
      {callers : List (Scoped σ π ο)} (h : SameFrames current frames callers) :
      SameTask current (some ⟨root, code, frames⟩) (some ⟨root, current, code, callers⟩)

structure Same (s : Loop σ π ο α) (t : ScopedLoop σ π ο α) : Prop where
  task : SameTask s.current s.running t.running
  queue_eq : s.queue = t.queue
  started_eq : s.started = t.started
  log_eq : s.log = t.log

section Simulation

variable {s : Loop σ π ο α} {t : ScopedLoop σ π ο α} {root : ℕ} {code : Code σ π ο}
  {frames : List (Frame σ π ο)} {callers : List (Scoped σ π ο)}

theorem same_ret (h : SameFrames s.current frames callers) (hqueue : s.queue = t.queue)
    (hstarted : s.started = t.started) (hlog : s.log = t.log) :
    Same (s.ret ⟨root, code, frames⟩) (t.ret ⟨root, s.current, code, callers⟩) := by
  cases frames with
  | nil =>
    cases callers with
    | nil => exact ⟨.idle, hqueue, hstarted, hlog⟩
    | cons g callers => exact h.elim
  | cons f frames =>
    cases callers with
    | nil => exact h.elim
    | cons g callers =>
      obtain ⟨hrest, hscope, hframes⟩ := h
      refine ⟨?_, hqueue, hstarted, hlog⟩
      simp only [Loop.ret, ScopedLoop.ret, hrest, hscope]
      exact .running hframes

/-- **One step of running code**: the value that a return puts into the slot is the scope of the
caller. -/
theorem same_tick (procs : π → Code σ π ο) (h : SameFrames s.current frames callers)
    (hqueue : s.queue = t.queue) (hstarted : s.started = t.started) (hlog : s.log = t.log) :
    Same (s.tick ⟨root, code, frames⟩ procs) (t.tick ⟨root, s.current, code, callers⟩ procs) := by
  cases code with
  | done => exact same_ret h hqueue hstarted hlog
  | read k => exact ⟨.running h, hqueue, hstarted, hlog⟩
  | note o k => exact ⟨.running h, hqueue, hstarted, by simp [Loop.tick, Loop.continueWith,
      ScopedLoop.tick, ScopedLoop.continueWith, hlog]⟩
  | invoke p k => exact ⟨.running ⟨rfl, rfl, h⟩, hqueue, hstarted, hlog⟩
  | run v body k => exact ⟨.running ⟨rfl, rfl, h⟩, hqueue, hstarted, hlog⟩
  | await k =>
    refine same_ret (s := s.enqueue ⟨root, .await k, frames⟩ k)
      (t := t.enqueue ⟨root, s.current, .await k, callers⟩ k) h ?_ hstarted hlog
    simp [Loop.enqueue, ScopedLoop.enqueue, hqueue]
  | later body k =>
    exact ⟨.running h, by simp [Loop.tick, Loop.continueWith, Loop.enqueue, ScopedLoop.tick,
      ScopedLoop.continueWith, ScopedLoop.enqueue, hqueue], hstarted, hlog⟩

theorem same_step (procs : π → Code σ π ο) (enter : α → Code σ π ο) (h : Same s t) (e : Event α) :
    Option.Rel Same (s.step procs enter e) (t.step procs enter e) := by
  obtain ⟨htask, hqueue, hstarted, hlog⟩ := h
  obtain ⟨current, running, queue, started, log⟩ := s
  obtain ⟨running', queue', started', log'⟩ := t
  dsimp only at htask hqueue hstarted hlog
  subst hqueue hstarted hlog
  cases htask with
  | idle =>
    cases e with
    | start a => exact .some ⟨.running trivial, rfl, rfl, rfl⟩
    | resume i ok =>
      simp only [Loop.step, ScopedLoop.step]
      cases queue[i]? with
      | none => exact .none
      | some p => exact .some ⟨.running trivial, rfl, rfl, rfl⟩
    | tick => exact .none
  | running hframes =>
    cases e with
    | start a => exact .none
    | resume i ok => exact .none
    | tick => exact .some (same_tick procs hframes rfl rfl rfl)

end Simulation

/-- **The slot implements the scopes**: whatever the code and the schedule, the two loops accept the
same events and note the same. -/
theorem slots_lexical (procs : π → Code σ π ο) (enter : α → Code σ π ο) (es : List (Event α)) :
    Option.Rel Same ((slots procs enter).run es) ((lexical procs enter).run es) :=
  Machine.run_rel ⟨.idle, rfl, rfl, rfl⟩ (fun _ _ e h => same_step procs enter h e) es

/-- Between two turns the slot is empty. -/
theorem slots_idle {procs : π → Code σ π ο} {enter : α → Code σ π ο} {es : List (Event α)}
    {s : Loop σ π ο α} (hrun : (slots procs enter).run es = some s) (hidle : s.running = none) :
    s.current = none := by
  have hrel := slots_lexical procs enter es
  rw [hrun] at hrel
  generalize (lexical procs enter).run es = t at hrel
  cases hrel with
  | @some _ t hsame =>
    have htask := hsame.task
    rw [hidle] at htask
    generalize s.current = current, t.running = running at htask
    cases htask with
    | idle => rfl

/-! ## Confined code -/

/-- Code that, run in the scope, enters no other one, calls admissible procedures only and notes
only what is allowed. -/
def Confined (allowed : ο → Prop) (admissible : π → Prop) (scope : Option σ) : Code σ π ο → Prop
  | .done => True
  | .read k => Confined allowed admissible scope (k scope)
  | .note o k => allowed o ∧ Confined allowed admissible scope k
  | .invoke p k => admissible p ∧ Confined allowed admissible scope k
  | .run v body k =>
    some v = scope ∧ Confined allowed admissible scope body ∧ Confined allowed admissible scope k
  | .await k => ∀ ok, Confined allowed admissible scope (k ok)
  | .later body k =>
    Confined allowed admissible scope body ∧ Confined allowed admissible scope k

/-- What may be noted, and which procedures may be called, in each scope. -/
structure Discipline (procs : π → Code σ π ο) where
  allowed : Option σ → ο → Prop
  admissible : Option σ → π → Prop
  procs_confined : ∀ scope p, admissible scope p →
    Confined (allowed scope) (admissible scope) scope (procs p)

/-- Entries that run their code in a scope of their own, or in none. -/
structure Entries (procs : π → Code σ π ο) (enter : α → Code σ π ο) (D : Discipline procs) where
  scope : α → Option σ
  body : α → Code σ π ο
  enter_eq : ∀ a, enter a =
    match scope a with
    | none => body a
    | some v => .run v (body a) .done
  body_confined : ∀ a, Confined (D.allowed (scope a)) (D.admissible (scope a)) (scope a) (body a)

section Confinement

variable {procs : π → Code σ π ο} {enter : α → Code σ π ο} {D : Discipline procs}
  (E : Entries procs enter D)

/-- `Confined` in the scope of an entry. -/
def Entries.Keeps (a : α) (code : Code σ π ο) : Prop :=
  Confined (D.allowed (E.scope a)) (D.admissible (E.scope a)) (E.scope a) code

/-- Code of an entry: it stays in the scope of the entry, or it is about to enter it or has left
it. -/
def Entries.Placed (a : α) (scope : Option σ) (code : Code σ π ο) : Prop :=
  scope = E.scope a ∧ E.Keeps a code ∨ scope = none ∧ (code = enter a ∨ code = .done)

structure Entries.Inv (t : ScopedLoop σ π ο α) : Prop where
  running : ∀ task, t.running = some task → ∃ a, t.started[task.root]? = some a ∧
    E.Placed a task.scope task.code ∧ ∀ f ∈ task.frames, E.Placed a f.scope f.code
  queue : ∀ p ∈ t.queue, ∃ a, t.started[p.root]? = some a ∧ p.slot = E.scope a ∧
    ∀ ok, E.Keeps a (p.resume ok)
  log : ∀ e ∈ t.log, ∃ a, t.started[e.1]? = some a ∧ D.allowed (E.scope a) e.2

variable {E} {t : ScopedLoop σ π ο α} {task : ScopedTask σ π ο} {a : α}

theorem placed_of_keeps {code : Code σ π ο} (h : E.Keeps a code) : E.Placed a (E.scope a) code :=
  .inl ⟨rfl, h⟩

/-- Code that the loop goes on with. -/
theorem Entries.Inv.continueWith (h : E.Inv t) (ha : t.started[task.root]? = some a)
    (hscope : task.scope = E.scope a) (hframes : ∀ f ∈ task.frames, E.Placed a f.scope f.code)
    {code : Code σ π ο} (hcode : E.Keeps a code) : E.Inv (t.continueWith task code) := by
  refine ⟨?_, h.queue, h.log⟩
  rintro _ ⟨⟩
  exact ⟨a, ha, .inl ⟨hscope, hcode⟩, hframes⟩

theorem Entries.Inv.enqueue (h : E.Inv t) (ha : t.started[task.root]? = some a)
    (hscope : task.scope = E.scope a) {resume : Bool → Code σ π ο}
    (hresume : ∀ ok, E.Keeps a (resume ok)) : E.Inv (t.enqueue task resume) := by
  refine ⟨h.running, ?_, h.log⟩
  intro p hp
  rcases List.mem_append.1 hp with hp | hp
  · exact h.queue p hp
  · cases List.mem_singleton.1 hp
    exact ⟨a, ha, hscope, hresume⟩

theorem Entries.Inv.ret (h : E.Inv t) (ha : t.started[task.root]? = some a)
    (hframes : ∀ f ∈ task.frames, E.Placed a f.scope f.code) : E.Inv (t.ret task) := by
  obtain ⟨root, scope, code, frames⟩ := task
  cases frames with
  | nil => exact ⟨fun _ hrunning => (by cases hrunning), h.queue, h.log⟩
  | cons f frames =>
    refine ⟨?_, h.queue, h.log⟩
    rintro _ ⟨⟩
    exact ⟨a, ha, hframes f (by simp), fun g hg => hframes g (by simp [hg])⟩

/-- A call: the caller waits where it was. -/
theorem Entries.Inv.call (h : E.Inv t) {root : ℕ} (ha : t.started[root]? = some a)
    {scope : Option σ} {code : Code σ π ο} {frames : List (Scoped σ π ο)}
    (hcode : E.Placed a scope code) (hframes : ∀ f ∈ frames, E.Placed a f.scope f.code) :
    E.Inv { t with running := some ⟨root, scope, code, frames⟩ } := by
  refine ⟨?_, h.queue, h.log⟩
  rintro _ ⟨⟩
  exact ⟨a, ha, hcode, hframes⟩

/-- **One step of code in its scope.** -/
theorem Entries.Inv.tick_keeps (h : E.Inv t) (ha : t.started[task.root]? = some a)
    (hscope : task.scope = E.scope a) (hcode : E.Keeps a task.code)
    (hframes : ∀ f ∈ task.frames, E.Placed a f.scope f.code) : E.Inv (t.tick task procs) := by
  obtain ⟨root, scope, code, frames⟩ := task
  dsimp only at ha hscope hcode hframes
  subst hscope
  have hcall : ∀ k, E.Keeps a k → ∀ f ∈ (⟨E.scope a, k⟩ : Scoped σ π ο) :: frames,
      E.Placed a f.scope f.code := by
    intro k hk f hf
    rcases List.mem_cons.1 hf with rfl | hf
    · exact placed_of_keeps hk
    · exact hframes f hf
  cases code with
  | done => exact h.ret ha hframes
  | read k => exact h.continueWith ha rfl hframes hcode
  | note o k =>
    have hlog : E.Inv { t with log := t.log ++ [(root, o)] } := by
      refine ⟨h.running, h.queue, fun e he => ?_⟩
      rcases List.mem_append.1 he with he | he
      · exact h.log e he
      · cases List.mem_singleton.1 he
        exact ⟨a, ha, hcode.1⟩
    exact hlog.continueWith ha rfl hframes hcode.2
  | invoke p k =>
    exact h.call ha (placed_of_keeps (D.procs_confined _ p hcode.1)) (hcall k hcode.2)
  | run v body k =>
    exact h.call ha (.inl ⟨hcode.1, hcode.2.1⟩) (hcall k hcode.2.2)
  | await k =>
    have hqueue : E.Inv (t.enqueue ⟨root, E.scope a, .await k, frames⟩ k) :=
      h.enqueue ha rfl hcode
    show E.Inv ((t.enqueue _ k).ret ⟨root, E.scope a, .await k, frames⟩)
    exact hqueue.ret ha hframes
  | later body k =>
    have hqueue : E.Inv (t.enqueue ⟨root, E.scope a, .later body k, frames⟩ fun _ => body) :=
      h.enqueue ha rfl fun _ => hcode.1
    show E.Inv ((t.enqueue _ _).continueWith ⟨root, E.scope a, .later body k, frames⟩ k)
    refine hqueue.continueWith ?_ rfl hframes hcode.2
    exact ha

theorem Entries.Inv.tick (h : E.Inv t) (ha : t.started[task.root]? = some a)
    (hplaced : E.Placed a task.scope task.code)
    (hframes : ∀ f ∈ task.frames, E.Placed a f.scope f.code) : E.Inv (t.tick task procs) := by
  rcases hplaced with ⟨hscope, hcode⟩ | ⟨hscope, hcode | hcode⟩
  · exact h.tick_keeps ha hscope hcode hframes
  · -- the entry runs its code in its scope
    have henter := E.enter_eq a
    have hbody := E.body_confined a
    cases hentry : E.scope a with
    | none =>
      rw [hentry] at henter
      refine h.tick_keeps ha (hscope.trans hentry.symm) ?_ hframes
      rw [hcode, henter]
      exact hbody
    | some v =>
      rw [hentry] at henter
      obtain ⟨root, scope, code, frames⟩ := task
      dsimp only at ha hscope hcode hframes
      subst hscope
      rw [hcode, henter]
      refine h.call ha (.inl ⟨hentry.symm, hbody⟩) ?_
      intro f hf
      rcases List.mem_cons.1 hf with rfl | hf
      · exact .inr ⟨rfl, .inr rfl⟩
      · exact hframes f hf
  · obtain ⟨root, scope, code, frames⟩ := task
    dsimp only at hcode
    subst hcode
    exact h.ret ha hframes

theorem Entries.Inv.step (h : E.Inv t) {e : Event α} {t' : ScopedLoop σ π ο α}
    (hstep : t.step procs enter e = some t') : E.Inv t' := by
  cases e with
  | start a =>
    simp only [ScopedLoop.step] at hstep
    split at hstep
    · cases hstep
    · cases hstep
      have hold : ∀ {i : ℕ} {b : α}, t.started[i]? = some b →
          (t.started ++ [a])[i]? = some b := by
        intro i b hi
        rw [List.getElem?_append_left (List.getElem?_eq_some_iff.1 hi).1]
        exact hi
      refine ⟨?_, fun p hp => ?_, fun e he => ?_⟩
      · rintro _ ⟨⟩
        exact ⟨a, by simp, .inr ⟨rfl, .inl rfl⟩, fun f hf => by cases hf⟩
      · obtain ⟨b, hb, hp⟩ := h.queue p hp
        exact ⟨b, hold hb, hp⟩
      · obtain ⟨b, hb, he⟩ := h.log e he
        exact ⟨b, hold hb, he⟩
  | resume i ok =>
    simp only [ScopedLoop.step] at hstep
    split at hstep
    · rename_i p _ hp
      cases hstep
      obtain ⟨a, ha, hslot, hresume⟩ := h.queue p (List.mem_of_getElem? hp)
      refine ⟨?_, fun q hq => h.queue q (List.mem_of_mem_eraseIdx hq), h.log⟩
      rintro _ ⟨⟩
      exact ⟨a, ha, .inl ⟨hslot, hresume ok⟩, fun f hf => by cases hf⟩
    · cases hstep
  | tick =>
    obtain ⟨task, htask, rfl⟩ := Option.map_eq_some_iff.1 hstep
    obtain ⟨a, ha, hplaced, hframes⟩ := h.running task htask
    exact h.tick ha hplaced hframes

theorem lexical_log (E : Entries procs enter D) {es : List (Event α)} {t : ScopedLoop σ π ο α}
    (hrun : (lexical procs enter).run es = some t) : E.Inv t := by
  refine Machine.run_induction (M := lexical procs enter) (P := fun _ t => E.Inv t) ?_
    (fun _ _ _ _ _ ih hstep => ih.step hstep) hrun
  exact ⟨fun _ h => (by cases h), fun p hp => (by cases hp), fun e he => (by cases he)⟩

/-- **What is noted on behalf of an entry** is allowed by the scope of this entry, in every run of
the loop with the global slot. -/
theorem confined_log (E : Entries procs enter D) {es : List (Event α)} {s : Loop σ π ο α}
    (hrun : (slots procs enter).run es = some s) {root : ℕ} {o : ο} (h : (root, o) ∈ s.log) :
    ∃ a, s.started[root]? = some a ∧ D.allowed (E.scope a) o := by
  have hrel := slots_lexical procs enter es
  rw [hrun] at hrel
  generalize hlexical : (lexical procs enter).run es = t at hrel
  cases hrel with
  | some hsame =>
    have hlog := (lexical_log E hlexical).log
    rw [← hsame.log_eq, ← hsame.started_eq] at hlog
    exact hlog (root, o) h

end Confinement

end AsyncScope
