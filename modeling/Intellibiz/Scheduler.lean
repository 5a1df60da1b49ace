import Mathlib.Algebra.Order.Group.Multiset
import Intellibiz.Machine
import Intellibiz.PriorityQueue

/-!
# The job scheduler

Model of `crates/scheduler`.  A `DateTime<Utc>` is its number of nanoseconds; the mutex makes
every call one step.

* `HeapEntry.cmp` — the order of the heap: earlier `run_at` first, then higher priority.
* `schedule` / `poll` — over any `BinaryHeap` for that order.
* `service` — runs of calls, with the accepted jobs and the answers of `poll` recorded.

Principal results: `poll_spec` (one poll) and `delivers` (every run).
-/

namespace Intellibiz.Scheduling

open Std

/-! ## Jobs -/

inductive SchedulerError where
  | jobNotFound (id : String)
  | invalidPayload (message : String)
  | capacityExceeded
  deriving DecidableEq

inductive JobPriority where
  | low
  | normal
  | high
  | critical
  deriving DecidableEq

def JobPriority.toNat : JobPriority → Nat
  | .low => 0
  | .normal => 1
  | .high => 2
  | .critical => 3

instance : Ord JobPriority := ⟨compareOn JobPriority.toNat⟩

structure ScheduledJob where
  id : String
  queue : String
  payload : String
  run_at : Int
  priority : JobPriority
  attempt : Nat
  max_attempts : Nat
  tenant_id : String
  trace_id : String
  deriving DecidableEq

structure HeapEntry where
  job : ScheduledJob

/-- `other.run_at.cmp(&self.run_at).then_with(|| self.priority.cmp(&other.priority))` -/
def HeapEntry.cmp (self other : HeapEntry) : Ordering :=
  (compare other.job.run_at self.job.run_at).then (compare self.job.priority other.job.priority)

instance : TransCmp HeapEntry.cmp :=
  haveI : TransCmp fun a b : HeapEntry => compare b.job.run_at a.job.run_at :=
    @TransCmp.opposite _ (compareOn fun e : HeapEntry => e.job.run_at) _
  inferInstanceAs (TransCmp (compareLex (fun a b : HeapEntry => compare b.job.run_at a.job.run_at)
    (compareOn fun e : HeapEntry => e.job.priority.toNat)))

/-- What the order of the heap means. -/
theorem HeapEntry.isLE_cmp {self other : HeapEntry} :
    (self.cmp other).isLE ↔ other.job.run_at < self.job.run_at ∨
      other.job.run_at = self.job.run_at ∧
        self.job.priority.toNat ≤ other.job.priority.toNat := by
  have hpriority : (compare self.job.priority other.job.priority).isLE ↔
      self.job.priority.toNat ≤ other.job.priority.toNat := by
    show (compare self.job.priority.toNat other.job.priority.toNat).isLE ↔ _
    rw [Nat.isLE_compare]
  unfold cmp
  rw [Ordering.isLE_then_iff_or, compare_lt_iff_lt, Std.compare_eq_iff_eq, hpriority]

/-! ## The scheduler -/

variable (H : PriorityQueue HeapEntry HeapEntry.cmp)

structure Scheduler where
  heap : H.Carrier
  capacity : Nat

variable {H}

def Scheduler.new (capacity : Nat) : Scheduler H where
  heap := H.empty
  capacity := capacity

def Scheduler.len (s : Scheduler H) : Nat := H.len s.heap

def Scheduler.schedule (job : ScheduledJob) (s : Scheduler H) :
    Except SchedulerError Unit × Scheduler H :=
  if s.capacity ≤ H.len s.heap then (.error .capacityExceeded, s)
  else (.ok (), { s with heap := H.push ⟨job⟩ s.heap })

/-- `entry.0.run_at <= now` -/
def due (now : Int) (entry : HeapEntry) : Bool := entry.job.run_at ≤ now

/-- The ready jobs; `none` if `heap.pop().unwrap()` panics. -/
def Scheduler.poll (now : Int) (s : Scheduler H) : Option (List ScheduledJob × Scheduler H) :=
  (H.popWhile (due now) s.heap []).map fun (ready, heap) =>
    (ready.map HeapEntry.job, { s with heap })

/-- The queued jobs. -/
def Scheduler.queued (s : Scheduler H) : Multiset ScheduledJob := (H.elems s.heap).map HeapEntry.job

/-- `a` comes out before `b`. -/
def Before (a b : ScheduledJob) : Prop :=
  a.run_at < b.run_at ∨ a.run_at = b.run_at ∧ b.priority.toNat ≤ a.priority.toNat

theorem len_eq_card (s : Scheduler H) : s.len = s.queued.card := by
  rw [Scheduler.len, Scheduler.queued, H.len_eq, Multiset.card_map]

/-- What a poll answers and what it leaves. -/
structure Polled (now : Int) (s : Scheduler H) (ready : List ScheduledJob) (s' : Scheduler H) :
    Prop where
  ready_eq : (ready : Multiset ScheduledJob) = s.queued.filter (·.run_at ≤ now)
  left_eq : s'.queued = s.queued.filter (¬ ·.run_at ≤ now)
  ordered : ready.Pairwise Before
  capacity_eq : s'.capacity = s.capacity

theorem poll_spec (now : Int) (s : Scheduler H) :
    ∃ ready s', s.poll now = some (ready, s') ∧ Polled now s ready s' := by
  -- an entry above a due one is due
  have hdue : ∀ a b : HeapEntry, (a.cmp b).isLE → due now a = true → due now b = true := by
    intro a b hle ha
    simp only [due, decide_eq_true_eq] at ha ⊢
    rcases HeapEntry.isLE_cmp.1 hle with h | ⟨h, _⟩ <;> omega
  obtain ⟨popped, heap, hrun, h⟩ := H.popWhile_spec hdue s.heap []
  refine ⟨popped.map HeapEntry.job, { s with heap }, by rw [Scheduler.poll, hrun]; rfl, ?_⟩
  refine ⟨?_, ?_, ?_, rfl⟩
  · rw [← Multiset.map_coe, h.popped_eq, Scheduler.queued, Multiset.filter_map]
    simp [due]
  · rw [Scheduler.queued, h.left_eq, Scheduler.queued, Multiset.filter_map]
    simp [due]
  · rw [List.pairwise_map]
    refine h.descending.imp fun hle => ?_
    rcases HeapEntry.isLE_cmp.1 hle with h | ⟨h, hp⟩
    · exact .inl h
    · exact .inr ⟨h, hp⟩

theorem schedule_full {job : ScheduledJob} {s : Scheduler H} (h : s.capacity ≤ s.len) :
    s.schedule job = (.error .capacityExceeded, s) :=
  if_pos h

theorem schedule_ok {job : ScheduledJob} {s : Scheduler H} (h : s.len < s.capacity) :
    s.schedule job = (.ok (), { s with heap := H.push ⟨job⟩ s.heap }) :=
  if_neg (Nat.not_le.2 h)

theorem queued_push (job : ScheduledJob) (s : Scheduler H) :
    Scheduler.queued { s with heap := H.push ⟨job⟩ s.heap } = job ::ₘ s.queued := by
  rw [Scheduler.queued, H.elems_push, Multiset.map_cons]
  rfl

/-! ## Runs -/

inductive Call where
  | schedule (job : ScheduledJob)
  | poll (now : Int)

/-- A scheduler with the jobs it has accepted and the answers of `poll`, oldest first. -/
structure Service (H : PriorityQueue HeapEntry HeapEntry.cmp) where
  scheduler : Scheduler H
  accepted : List ScheduledJob
  polled : List (List ScheduledJob)

/-- `none` is a panic. -/
def serve (s : Service H) : Call → Option (Service H)
  | .schedule job =>
    match s.scheduler.schedule job with
    | (.ok (), scheduler) => some { s with scheduler, accepted := s.accepted ++ [job] }
    | (.error _, scheduler) => some { s with scheduler }
  | .poll now =>
    (s.scheduler.poll now).map fun (ready, scheduler) =>
      { s with scheduler, polled := s.polled ++ [ready] }

variable (H) in
def service (capacity : Nat) : Machine (Service H) Call where
  init := ⟨.new capacity, [], []⟩
  step := serve

/-- What one call does. -/
theorem serve_cases {s s' : Service H} {call : Call} (h : serve s call = some s') :
    (∃ job, call = .schedule job ∧ s.scheduler.capacity ≤ s.scheduler.len ∧ s' = s) ∨
    (∃ job, call = .schedule job ∧ s.scheduler.len < s.scheduler.capacity ∧
      s' = { s with
        scheduler := { s.scheduler with heap := H.push ⟨job⟩ s.scheduler.heap }
        accepted := s.accepted ++ [job] }) ∨
    (∃ now ready scheduler, call = .poll now ∧ Polled now s.scheduler ready scheduler ∧
      s' = { s with scheduler, polled := s.polled ++ [ready] }) := by
  cases call with
  | schedule job =>
    rw [serve] at h
    by_cases hfull : s.scheduler.capacity ≤ s.scheduler.len
    · rw [schedule_full hfull] at h
      cases h
      exact .inl ⟨job, rfl, hfull, rfl⟩
    · rw [schedule_ok (by omega)] at h
      cases h
      exact .inr (.inl ⟨job, rfl, by omega, rfl⟩)
  | poll now =>
    obtain ⟨ready, scheduler, hpoll, hspec⟩ := poll_spec now s.scheduler
    rw [serve, hpoll] at h
    cases h
    exact .inr (.inr ⟨now, ready, scheduler, rfl, hspec, rfl⟩)

/-- Every accepted job has been polled or is queued, and the queue fits. -/
structure Conserved (capacity : Nat) (s : Service H) : Prop where
  capacity_eq : s.scheduler.capacity = capacity
  len_le : s.scheduler.len ≤ capacity
  accepted_eq : (s.accepted : Multiset ScheduledJob) = s.polled.flatten + s.scheduler.queued

theorem serve_conserved {capacity : Nat} {s s' : Service H} {call : Call}
    (hs : Conserved capacity s) (h : serve s call = some s') : Conserved capacity s' := by
  rcases serve_cases h with ⟨job, _, _, rfl⟩ | ⟨job, _, hlen, rfl⟩ |
    ⟨now, ready, scheduler, _, hpoll, rfl⟩
  · exact hs
  · refine ⟨hs.capacity_eq, ?_, ?_⟩
    · have hcap := hs.capacity_eq
      rw [len_eq_card] at hlen ⊢
      rw [queued_push, Multiset.card_cons]
      omega
    · have hsnoc : ((s.accepted ++ [job] : List ScheduledJob) : Multiset ScheduledJob) =
          job ::ₘ s.accepted :=
        Multiset.coe_eq_coe.2 (List.perm_append_singleton job s.accepted)
      show ((s.accepted ++ [job] : List ScheduledJob) : Multiset ScheduledJob) = _
      rw [hsnoc, hs.accepted_eq, queued_push, Multiset.add_cons]
  · refine ⟨hpoll.capacity_eq.trans hs.capacity_eq, ?_, ?_⟩
    · have hle := Multiset.card_le_card
        (Multiset.filter_le (¬ ·.run_at ≤ now) s.scheduler.queued)
      have hlen := hs.len_le
      rw [len_eq_card] at hlen ⊢
      rw [hpoll.left_eq]
      omega
    · rw [hs.accepted_eq, List.flatten_append, List.flatten_singleton, ← Multiset.coe_add,
        hpoll.ready_eq, hpoll.left_eq, add_assoc, Multiset.filter_add_not]

/-- **Every run** of `schedule` and `poll` calls goes through; the queue fits its capacity, every
accepted job has been polled once or is queued, and the next `schedule` and `poll` do what they
promise. -/
theorem delivers (capacity : Nat) (calls : List Call) :
    ∃ s, (service H capacity).run calls = some s ∧
      s.scheduler.len ≤ capacity ∧
      (s.accepted : Multiset ScheduledJob) = s.polled.flatten + s.scheduler.queued ∧
      (∀ job, s.scheduler.len = capacity →
        s.scheduler.schedule job = (.error .capacityExceeded, s.scheduler)) ∧
      (∀ job, s.scheduler.len < capacity → ∃ s', s.scheduler.schedule job = (.ok (), s') ∧
        s'.queued = job ::ₘ s.scheduler.queued) ∧
      ∀ now, ∃ ready s', s.scheduler.poll now = some (ready, s') ∧
        Polled now s.scheduler ready s' := by
  have htotal : ∀ calls s call, (service H capacity).run calls = some s →
      ((service H capacity).step s call).isSome := by
    intro calls s call _
    show (serve s call).isSome
    cases call with
    | schedule job =>
      rw [serve]
      split <;> rfl
    | poll now =>
      obtain ⟨ready, scheduler, hpoll, _⟩ := poll_spec now s.scheduler
      rw [serve, hpoll]
      rfl
  obtain ⟨s, hs⟩ := Machine.run_total htotal calls
  have hinit : Conserved capacity (service H capacity).init := by
    refine ⟨rfl, ?_, ?_⟩
    · show H.len H.empty ≤ capacity
      rw [H.len_eq, H.elems_empty, Multiset.card_zero]
      omega
    · show 0 = 0 + (H.elems H.empty).map HeapEntry.job
      rw [H.elems_empty]
      rfl
  have hinv : Conserved capacity s := Machine.run_induction (P := fun _ => Conserved capacity)
    hinit (fun _ _ _ _ _ h hstep => serve_conserved h hstep) hs
  have hcap := hinv.capacity_eq
  refine ⟨s, hs, hinv.len_le, hinv.accepted_eq, fun job hfull => ?_, fun job hroom => ?_,
    fun now => poll_spec now s.scheduler⟩
  · exact schedule_full (by omega)
  · exact ⟨_, schedule_ok (by omega), queued_push job s.scheduler⟩

/-- The sorted lists are such a heap. -/
theorem delivers_sortedList :
    ∃ s, (service (.sortedList HeapEntry.cmp) 1).run
        [.schedule ⟨"job_1", "default", "{}", 5, .normal, 0, 3, "org_123", "trc_abc"⟩, .poll 7] =
          some s ∧
      (s.accepted : Multiset ScheduledJob) = s.polled.flatten + s.scheduler.queued := by
  obtain ⟨s, hs, _, haccepted, _⟩ := delivers (H := .sortedList HeapEntry.cmp) 1
    [.schedule ⟨"job_1", "default", "{}", 5, .normal, 0, 3, "org_123", "trc_abc"⟩, .poll 7]
  exact ⟨s, hs, haccepted⟩

end Intellibiz.Scheduling
