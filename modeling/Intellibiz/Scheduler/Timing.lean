import Intellibiz.Scheduler

/-!
# When jobs come out

`next_run_at` of `crates/scheduler`, and the answers of successive polls, over every run of
`schedule` and `poll` calls.

* `nextRunAt` — the time of the next job.
* `Early` — a poll before that time.
* `InTime` — of two calls, the later one is not behind the earlier one: the times of the polls do
  not go back, and no job is scheduled for a time that has been polled.

Principal results: `poll_nil_iff` (an early poll is one that answers nothing),
`early_poll_changes_nothing`, `delivered_when_due` and `polled_in_order`.
-/

namespace Intellibiz.Scheduling

variable {H : PriorityQueue HeapEntry HeapEntry.cmp}

/-- `next_run_at` -/
def Scheduler.nextRunAt (s : Scheduler H) : Option Int :=
  (H.peek s.heap).map fun entry => entry.job.run_at

def Scheduler.Early (s : Scheduler H) (now : Int) : Prop := ∀ t ∈ s.nextRunAt, now < t

theorem nextRunAt_none {s : Scheduler H} (h : s.nextRunAt = none) : s.queued = 0 := by
  rw [Scheduler.queued, H.peek_none s.heap (Option.map_eq_none_iff.1 h), Multiset.map_zero]

/-- **The next time is the earliest one** of the queue. -/
theorem nextRunAt_some {s : Scheduler H} {t : Int} (h : s.nextRunAt = some t) :
    (∃ job ∈ s.queued, job.run_at = t) ∧ ∀ job ∈ s.queued, t ≤ job.run_at := by
  obtain ⟨entry, hpeek, rfl⟩ := Option.map_eq_some_iff.1 h
  obtain ⟨hmem, hmax⟩ := H.peek_some s.heap entry hpeek
  refine ⟨⟨entry.job, Multiset.mem_map_of_mem _ hmem, rfl⟩, fun job hjob => ?_⟩
  obtain ⟨other, hother, rfl⟩ := Multiset.mem_map.1 hjob
  rcases HeapEntry.isLE_cmp.1 (hmax other hother) with hlt | ⟨heq, -⟩
  · exact hlt.le
  · exact heq.le

theorem early_iff {s : Scheduler H} {now : Int} :
    s.Early now ↔ ∀ job ∈ s.queued, now < job.run_at := by
  unfold Scheduler.Early
  cases h : s.nextRunAt with
  | none =>
    rw [nextRunAt_none h]
    simp
  | some t =>
    obtain ⟨⟨first, hfirst, rfl⟩, hle⟩ := nextRunAt_some h
    constructor
    · intro hearly job hjob
      exact (hearly first.run_at rfl).trans_le (hle job hjob)
    · rintro hall t ⟨⟩
      exact hall first hfirst

/-- **A poll answers nothing exactly when it is early.** -/
theorem poll_nil_iff {now : Int} {s s' : Scheduler H} {ready : List ScheduledJob}
    (h : Polled now s ready s') : ready = [] ↔ s.Early now := by
  rw [early_iff, ← Multiset.coe_eq_zero, h.ready_eq, Multiset.filter_eq_nil]
  simp only [not_le]

/-- An early poll leaves the heap as it is. -/
theorem poll_early {now : Int} {s : Scheduler H} (h : s.Early now) : s.poll now = some ([], s) := by
  have hstop : H.popWhile (due now) s.heap [] = some ([], s.heap) := by
    unfold PriorityQueue.popWhile
    cases hpeek : H.peek s.heap with
    | none => rfl
    | some entry =>
      have hlate : now < entry.job.run_at := h _ (by simp [Scheduler.nextRunAt, hpeek])
      simp [due, hlate]
  unfold Scheduler.poll
  rw [hstop]
  rfl

/-- No call panics. -/
theorem service_run (capacity : Nat) (calls : List Call) :
    ∃ s, (service H capacity).run calls = some s := by
  refine Machine.run_total (fun calls s call _ => ?_) calls
  show (serve s call).isSome
  cases call with
  | schedule job =>
    rw [serve]
    split <;> rfl
  | poll now =>
    obtain ⟨ready, scheduler, hpoll, -⟩ := poll_spec now s.scheduler
    rw [serve, hpoll]
    rfl

/-! ## Early polls -/

/-- The same but for the empty answers. -/
structure SameAnswers (s t : Service H) : Prop where
  scheduler_eq : s.scheduler = t.scheduler
  accepted_eq : s.accepted = t.accepted
  polled_eq : s.polled.filter (· ≠ []) = t.polled.filter (· ≠ [])

theorem serve_sameAnswers {s t : Service H} (h : SameAnswers s t) (call : Call) :
    Option.Rel SameAnswers (serve s call) (serve t call) := by
  obtain ⟨hscheduler, haccepted, hpolled⟩ := h
  cases call with
  | schedule job =>
    simp only [serve, ← hscheduler, ← haccepted]
    split
    · exact .some ⟨rfl, rfl, hpolled⟩
    · exact .some ⟨rfl, rfl, hpolled⟩
  | poll now =>
    simp only [serve, ← hscheduler]
    cases s.scheduler.poll now with
    | none => exact .none
    | some answer =>
      refine .some ⟨rfl, haccepted, ?_⟩
      show (s.polled ++ [answer.1]).filter _ = (t.polled ++ [answer.1]).filter _
      rw [List.filter_append, List.filter_append, hpolled]

/-- **An early poll can be left out**: the calls behind it do the same, and all jobs come out in the
same answers. -/
theorem early_poll_changes_nothing {capacity : Nat} {pre post : List Call} {s₀ : Service H}
    {now : Int} (hpre : (service H capacity).run pre = some s₀) (hearly : s₀.scheduler.Early now) :
    Option.Rel SameAnswers ((service H capacity).run (pre ++ .poll now :: post))
      ((service H capacity).run (pre ++ post)) := by
  have hpoll : serve s₀ (.poll now) = some { s₀ with polled := s₀.polled ++ [[]] } := by
    rw [serve, poll_early hearly]
    rfl
  have hfrom : ∀ {s : Service H} {calls : List Call}, (service H capacity).run calls = some s →
      (service H capacity).run (calls ++ post) = (⟨s, serve⟩ : Machine _ _).run post := by
    intro s calls hcalls
    rw [Machine.run, List.foldlM_append]
    exact congrArg (· >>= fun s => post.foldlM serve s) hcalls
  have hcall : (service H capacity).run (pre ++ [.poll now]) =
      some { s₀ with polled := s₀.polled ++ [[]] } := by
    rw [Machine.run_snoc, hpre]
    exact hpoll
  rw [List.append_cons, hfrom hcall, hfrom hpre]
  refine Machine.run_rel ⟨rfl, rfl, ?_⟩ (fun _ _ call h => serve_sameAnswers h call) post
  show (s₀.polled ++ [[]]).filter _ = _
  simp

/-! ### A concrete queue -/

def invoiceJob : ScheduledJob :=
  ⟨"job_1", "invoices", "{}", 5, .normal, 0, 3, "org_123", "trc_abc"⟩

def auditJob : ScheduledJob := ⟨"job_2", "audit", "{}", 5, .high, 0, 3, "org_123", "trc_abd"⟩

def firstCalls : List Call := [.schedule invoiceJob]

def laterCalls : List Call := [.schedule auditJob, .poll 7]

theorem early_poll_changes_nothing_sample :
    Option.Rel SameAnswers
      ((service (.sortedList HeapEntry.cmp) 2).run (firstCalls ++ .poll 3 :: laterCalls))
      ((service (.sortedList HeapEntry.cmp) 2).run (firstCalls ++ laterCalls)) := by
  cases hpre : (service (.sortedList HeapEntry.cmp) 2).run firstCalls with
  | none => cases hpre
  | some s₀ =>
    have hearly : s₀.scheduler.Early 3 := by
      cases hpre
      rintro t ⟨⟩
      decide
    exact early_poll_changes_nothing hpre hearly

/-! ## The first poll that is due -/

/-- A job stays in the queue as long as no poll is due. -/
theorem serve_queued {s s' : Service H} {call : Call} {job : ScheduledJob}
    (hjob : job ∈ s.scheduler.queued) (hcall : ∀ now, call = .poll now → now < job.run_at)
    (h : serve s call = some s') : job ∈ s'.scheduler.queued := by
  rcases serve_cases h with ⟨_, _, _, rfl⟩ | ⟨other, rfl, _, rfl⟩ |
    ⟨now, ready, scheduler, rfl, hpoll, rfl⟩
  · exact hjob
  · rw [queued_push]
    exact Multiset.mem_cons_of_mem hjob
  · rw [hpoll.left_eq, Multiset.mem_filter, not_le]
    exact ⟨hjob, hcall now rfl⟩

/-- **A job comes out at the first poll that is due**: whatever is called in between,
`next_run_at` is not behind the time of the job until then, and the first poll at that time or later
answers it. -/
theorem delivered_when_due {capacity : Nat} {pre mid : List Call} {job : ScheduledJob}
    {s₁ s₂ : Service H} {now : Int} (hpre : (service H capacity).run pre = some s₁)
    (hroom : s₁.scheduler.len < s₁.scheduler.capacity)
    (hmid : ∀ t, Call.poll t ∈ mid → t < job.run_at)
    (hrun : (service H capacity).run (pre ++ .schedule job :: mid) = some s₂)
    (hdue : job.run_at ≤ now) :
    (∃ t, s₂.scheduler.nextRunAt = some t ∧ t ≤ job.run_at) ∧
      ∃ ready s', s₂.scheduler.poll now = some (ready, s') ∧ job ∈ ready ∧
        ∀ t, s'.nextRunAt = some t → now < t := by
  have hstart : (service H capacity).run (pre ++ [.schedule job]) = some
      { s₁ with
        scheduler := { s₁.scheduler with heap := H.push ⟨job⟩ s₁.scheduler.heap }
        accepted := s₁.accepted ++ [job] } := by
    rw [Machine.run_snoc, hpre]
    show serve s₁ (.schedule job) = _
    rw [serve, schedule_ok hroom]
  rw [List.append_cons] at hrun
  have hqueued : job ∈ s₂.scheduler.queued := by
    refine Machine.run_append_induction hstart
      (P := fun post s => (∀ t, Call.poll t ∈ post → t < job.run_at) → job ∈ s.scheduler.queued)
      ?_ ?_ hrun hmid
    · intro _
      rw [queued_push]
      exact Multiset.mem_cons_self _ _
    · intro post s call s' _ ih hstep hpost
      refine serve_queued (ih fun t ht => hpost t (List.mem_append_left _ ht)) ?_ hstep
      rintro t rfl
      exact hpost t (by simp)
  obtain ⟨ready, s', hpoll, hspec⟩ := poll_spec now s₂.scheduler
  refine ⟨?_, ready, s', hpoll, ?_, fun t ht => ?_⟩
  · cases hnext : s₂.scheduler.nextRunAt with
    | none =>
      rw [nextRunAt_none hnext] at hqueued
      exact absurd hqueued (Multiset.notMem_zero job)
    | some t => exact ⟨t, rfl, (nextRunAt_some hnext).2 job hqueued⟩
  · rw [← Multiset.mem_coe, hspec.ready_eq, Multiset.mem_filter]
    exact ⟨hqueued, hdue⟩
  · obtain ⟨⟨first, hfirst, rfl⟩, -⟩ := nextRunAt_some ht
    rw [hspec.left_eq, Multiset.mem_filter, not_le] at hfirst
    exact hfirst.2

theorem delivered_when_due_sample :
    ∃ s₂ ready s', (service (.sortedList HeapEntry.cmp) 2).run
        ([] ++ .schedule invoiceJob :: [.poll 3, .schedule auditJob]) = some s₂ ∧
      s₂.scheduler.poll 7 = some (ready, s') ∧ invoiceJob ∈ ready := by
  have hroom : (service (.sortedList HeapEntry.cmp) 2).init.scheduler.len < 2 := by decide
  have hmid : ∀ t, Call.poll t ∈ [.poll 3, .schedule auditJob] → t < invoiceJob.run_at := by
    intro t ht
    rcases List.mem_cons.1 ht with heq | ht
    · cases heq
      decide
    · cases List.mem_singleton.1 ht
  obtain ⟨s₂, hrun⟩ := service_run (H := .sortedList HeapEntry.cmp) 2
    ([] ++ .schedule invoiceJob :: [.poll 3, .schedule auditJob])
  have hdue : invoiceJob.run_at ≤ 7 := by decide
  obtain ⟨-, ready, s', hpoll, hready, -⟩ :=
    delivered_when_due (Machine.run_nil _) hroom hmid hrun hdue
  exact ⟨s₂, ready, s', hrun, hpoll, hready⟩

/-! ## The order of all answers -/

def InTime : Call → Call → Prop
  | .poll now, .schedule job => now < job.run_at
  | .poll now, .poll now' => now ≤ now'
  | .schedule _, _ => True

/-- What has come out is in order and due, and what is queued was not due at any poll. -/
structure Ordered (calls : List Call) (s : Service H) : Prop where
  ordered : s.polled.flatten.Pairwise Before
  polled_due : ∀ job ∈ s.polled.flatten, ∃ now, Call.poll now ∈ calls ∧ job.run_at ≤ now
  queued_late : ∀ job ∈ s.scheduler.queued, ∀ now, Call.poll now ∈ calls → now < job.run_at

theorem serve_ordered {calls : List Call} {s s' : Service H} {call : Call}
    (hs : Ordered calls s) (hcalls : ∀ earlier ∈ calls, InTime earlier call)
    (h : serve s call = some s') : Ordered (calls ++ [call]) s' := by
  have hdue : ∀ job ∈ s.polled.flatten, ∃ now, Call.poll now ∈ calls ++ [call] ∧
      job.run_at ≤ now := by
    intro job hjob
    obtain ⟨now, hnow, hle⟩ := hs.polled_due job hjob
    exact ⟨now, List.mem_append_left _ hnow, hle⟩
  rcases serve_cases h with ⟨job, rfl, _, rfl⟩ | ⟨job, rfl, _, rfl⟩ |
    ⟨now, ready, scheduler, rfl, hpoll, rfl⟩
  · refine ⟨hs.ordered, hdue, fun job hjob now hnow => ?_⟩
    exact hs.queued_late job hjob now (by simpa using hnow)
  · refine ⟨hs.ordered, hdue, fun j hj now hnow => ?_⟩
    have hnow' : Call.poll now ∈ calls := by simpa using hnow
    rw [queued_push] at hj
    rcases Multiset.mem_cons.1 hj with rfl | hj
    · exact hcalls _ hnow'
    · exact hs.queued_late j hj now hnow'
  · have hready : ∀ job, job ∈ ready ↔ job ∈ s.scheduler.queued ∧ job.run_at ≤ now := by
      intro job
      rw [← Multiset.mem_coe, hpoll.ready_eq, Multiset.mem_filter]
    refine ⟨?_, fun job hjob => ?_, fun job hjob t ht => ?_⟩
    · rw [List.flatten_append, List.flatten_singleton, List.pairwise_append]
      refine ⟨hs.ordered, hpoll.ordered, fun a ha b hb => .inl ?_⟩
      -- what comes out now was not due when the former came out
      obtain ⟨t, ht, hle⟩ := hs.polled_due a ha
      exact hle.trans_lt (hs.queued_late b ((hready b).1 hb).1 t ht)
    · rw [List.flatten_append, List.flatten_singleton] at hjob
      rcases List.mem_append.1 hjob with hjob | hjob
      · exact hdue job hjob
      · exact ⟨now, by simp, ((hready job).1 hjob).2⟩
    · rw [hpoll.left_eq, Multiset.mem_filter, not_le] at hjob
      rcases List.mem_append.1 ht with ht | ht
      · exact hs.queued_late job hjob.1 t ht
      · cases List.mem_singleton.1 ht
        exact hjob.2

/-- **All jobs come out in order**, over all polls of a run whose calls are in time: by `run_at`,
and of the same time the higher priority first. -/
theorem polled_in_order {capacity : Nat} {calls : List Call} {s : Service H}
    (hcalls : calls.Pairwise InTime) (hrun : (service H capacity).run calls = some s) :
    s.polled.flatten.Pairwise Before := by
  have hordered : Ordered calls s := by
    refine Machine.run_induction (M := service H capacity)
      (P := fun calls s => calls.Pairwise InTime → Ordered calls s) ?_ ?_ hrun hcalls
    · refine fun _ => ⟨.nil, nofun, fun job hjob => ?_⟩
      have hnone : (service H capacity).init.scheduler.queued = 0 := by
        show (H.elems H.empty).map HeapEntry.job = 0
        rw [H.elems_empty, Multiset.map_zero]
      rw [hnone] at hjob
      exact absurd hjob (Multiset.notMem_zero job)
    · intro calls s call s' _ ih hstep hpairwise
      obtain ⟨hbefore, -, hlast⟩ := List.pairwise_append.1 hpairwise
      exact serve_ordered (ih hbefore) (fun earlier hmem => hlast earlier hmem call (by simp)) hstep
  exact hordered.ordered

def timedCalls : List Call := firstCalls ++ .poll 3 :: laterCalls

theorem polled_in_order_timedCalls :
    ∃ s, (service (.sortedList HeapEntry.cmp) 2).run timedCalls = some s ∧
      s.polled.flatten.Pairwise Before := by
  have hcalls : timedCalls.Pairwise InTime := by
    unfold timedCalls firstCalls laterCalls
    simp [InTime, invoiceJob, auditJob]
  obtain ⟨s, hrun⟩ := service_run (H := .sortedList HeapEntry.cmp) 2 timedCalls
  exact ⟨s, hrun, polled_in_order hcalls hrun⟩

end Intellibiz.Scheduling
