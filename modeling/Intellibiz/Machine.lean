import Mathlib.Logic.Basic
import Mathlib.Data.List.Induction

/-!
# Machines with partial steps

A machine has an initial state and a step function; `step s e = none` means that the event `e`
cannot happen in `s`.

* `run` — the state after a list of events, if every one of them could happen.
* `run_induction` — the invariant rule, over the whole history: what holds initially and is
  preserved by every step of a run holds at its end.
* `run_append_induction` — the same rule for the part of a run after a given point.
* `Throughout Q` — every state of a run satisfies `Q`.
* `run_rel` — the refinement rule: machines whose steps stay related have related runs.
* `prod` — two machines side by side, neither of which acts on the other.
* `observed` — what is observed along a run, for facts that the state does not keep.
* `eventually_of_bounded` — an event that keeps coming until something is done, but only so often,
  means that it is done at some point.
* `Along C` — every step of a run meets the condition `C` on the state before it and the event;
  `run_induction_along` is the invariant rule for such runs, `along_iff_from` unfolds it event
  by event, and a concrete run is checked by evaluation.
* `Since A B` — some step of a run met `A`, and every event behind it meets `B`.
-/

structure Machine (σ ε : Type*) where
  init : σ
  step : σ → ε → Option σ

namespace Machine

variable {σ ε : Type*} (M : Machine σ ε)

def run (es : List ε) : Option σ := es.foldlM M.step M.init

@[simp] theorem run_nil : M.run [] = some M.init := rfl

theorem run_snoc (es : List ε) (e : ε) : M.run (es ++ [e]) = (M.run es).bind (M.step · e) := by
  simp [run, List.foldlM_append]

variable {M}

theorem run_snoc_some {es : List ε} {e : ε} {s' : σ} (h : M.run (es ++ [e]) = some s') :
    ∃ s, M.run es = some s ∧ M.step s e = some s' := by
  rw [run_snoc] at h
  exact Option.bind_eq_some_iff.1 h

/-- **Run rule.** -/
theorem run_induction {P : List ε → σ → Prop} (hinit : P [] M.init)
    (hstep : ∀ es s e s', M.run es = some s → P es s → M.step s e = some s' → P (es ++ [e]) s') :
    ∀ {es : List ε} {s : σ}, M.run es = some s → P es s := by
  intro es
  induction es using List.reverseRecOn with
  | nil => intro s h; cases h; exact hinit
  | append_singleton es e ih =>
    intro s' h
    obtain ⟨s, hs, he⟩ := run_snoc_some h
    exact hstep es s e s' hs (ih hs) he

/-- **Run rule from a point on.** -/
theorem run_append_induction {pre : List ε} {s₀ : σ} (hpre : M.run pre = some s₀)
    {P : List ε → σ → Prop} (hinit : P [] s₀)
    (hstep : ∀ post s e s', M.run (pre ++ post) = some s → P post s → M.step s e = some s' →
      P (post ++ [e]) s') :
    ∀ {post : List ε} {s : σ}, M.run (pre ++ post) = some s → P post s := by
  intro post
  induction post using List.reverseRecOn with
  | nil =>
    intro s h
    rw [List.append_nil, hpre] at h
    cases h
    exact hinit
  | append_singleton post e ih =>
    intro s' h
    rw [← List.append_assoc] at h
    obtain ⟨s, hs, he⟩ := run_snoc_some h
    exact hstep post s e s' hs (ih hs) he

/-- Every prefix of a list of events that runs, runs. -/
theorem run_prefix {pre post : List ε} {s : σ} (h : M.run (pre ++ post) = some s) :
    ∃ s₀, M.run pre = some s₀ := by
  rw [run, List.foldlM_append] at h
  obtain ⟨s₀, hs₀, -⟩ := Option.bind_eq_some_iff.1 h
  exact ⟨s₀, hs₀⟩

/-- A machine whose reachable states accept every event runs on every list of events. -/
theorem run_total (hstep : ∀ es s e, M.run es = some s → (M.step s e).isSome) (es : List ε) :
    ∃ s, M.run es = some s := by
  induction es using List.reverseRecOn with
  | nil => exact ⟨M.init, rfl⟩
  | append_singleton es e ih =>
    obtain ⟨s, hs⟩ := ih
    obtain ⟨s', hs'⟩ := Option.isSome_iff_exists.1 (hstep es s e hs)
    exact ⟨s', by rw [run_snoc, hs]; exact hs'⟩

variable (M) in
/-- Every state of the run over `es` satisfies `Q`. -/
def Throughout (Q : σ → Prop) (es : List ε) : Prop :=
  ∀ pre post s, es = pre ++ post → M.run pre = some s → Q s

theorem throughout_nil {Q : σ → Prop} : M.Throughout Q [] ↔ Q M.init := by
  constructor
  · intro h
    exact h [] [] M.init rfl rfl
  · rintro h pre post s hes hs
    obtain ⟨rfl, -⟩ := List.append_eq_nil_iff.1 hes.symm
    cases hs
    exact h

theorem throughout_snoc {Q : σ → Prop} {es : List ε} {e : ε} :
    M.Throughout Q (es ++ [e]) ↔ M.Throughout Q es ∧ ∀ s, M.run (es ++ [e]) = some s → Q s := by
  constructor
  · intro h
    refine ⟨fun pre post s hes hs => ?_, fun s hs => h _ [] s (by simp) hs⟩
    exact h pre (post ++ [e]) s (by simp [hes]) hs
  · rintro ⟨h, he⟩ pre post s hes hs
    rcases post.eq_nil_or_concat with rfl | ⟨post, x, rfl⟩
    · rw [List.append_nil] at hes
      subst hes
      exact he s hs
    · rw [List.concat_eq_append, ← List.append_assoc] at hes
      exact h pre post s (List.append_inj' hes rfl).1 hs

variable (M) in
/-- Every step of the run over `es` meets `C`. -/
def Along (C : σ → ε → Prop) (es : List ε) : Prop :=
  ∀ pre e post s, es = pre ++ e :: post → M.run pre = some s → C s e

theorem along_nil (C : σ → ε → Prop) : M.Along C [] := by
  intro pre e post s h
  simp at h

theorem along_snoc {C : σ → ε → Prop} {es : List ε} {e : ε} :
    M.Along C (es ++ [e]) ↔ M.Along C es ∧ ∀ s, M.run es = some s → C s e := by
  constructor
  · intro h
    refine ⟨fun pre x post s hes hs => ?_, fun s hs => h es e [] s rfl hs⟩
    exact h pre x (post ++ [e]) s (by simp [hes]) hs
  · rintro ⟨h, he⟩ pre x post s hes hs
    rcases post.eq_nil_or_concat with rfl | ⟨post, y, rfl⟩
    · obtain ⟨rfl, hx⟩ := List.append_inj' hes rfl
      simp only [List.cons.injEq, and_true] at hx
      subst hx
      exact he s hs
    · rw [List.concat_eq_append, ← List.cons_append, ← List.append_assoc] at hes
      exact h pre x post s (List.append_inj' hes rfl).1 hs

theorem Along.of_append {C : σ → ε → Prop} {pre post : List ε} (h : M.Along C (pre ++ post)) :
    M.Along C pre := by
  intro a e b s hpre hs
  exact h a e (b ++ post) s (by simp [hpre]) hs

variable (M) in
/-- `Along` from a given state, by recursion over the events. -/
def AlongFrom (C : σ → ε → Prop) : σ → List ε → Prop
  | _, [] => True
  | s, e :: es => C s e ∧ ∀ s', M.step s e = some s' → AlongFrom C s' es

/-- The condition along a concrete run can be evaluated. -/
instance decidableAlongFrom (C : σ → ε → Prop) [∀ s e, Decidable (C s e)] :
    ∀ s es, Decidable (M.AlongFrom C s es)
  | _, [] => .isTrue trivial
  | s, e :: es =>
    match hstep : M.step s e with
    | none => decidable_of_iff (C s e) (by simp [AlongFrom, hstep])
    | some s' =>
      haveI := decidableAlongFrom C s' es
      decidable_of_iff (C s e ∧ M.AlongFrom C s' es) (by simp [AlongFrom, hstep])

theorem alongFrom_iff {C : σ → ε → Prop} {s : σ} {es : List ε} :
    M.AlongFrom C s es ↔
      ∀ pre e post s', es = pre ++ e :: post → pre.foldlM M.step s = some s' → C s' e := by
  induction es generalizing s with
  | nil => simp [AlongFrom]
  | cons x es ih =>
    simp only [AlongFrom, ih]
    constructor
    · rintro ⟨hx, h⟩ (_ | ⟨y, pre⟩) e post s' hes hs
      · cases hes
        cases hs
        exact hx
      · cases hes
        obtain ⟨t, ht, hs⟩ := Option.bind_eq_some_iff.1 hs
        exact h t ht pre e post s' rfl hs
    · intro h
      refine ⟨h [] x es s rfl rfl, fun t ht pre e post s' hes hs => ?_⟩
      refine h (x :: pre) e post s' (by simp [hes]) ?_
      rw [List.foldlM_cons, ht]
      exact hs

theorem along_iff_from {C : σ → ε → Prop} {es : List ε} :
    M.Along C es ↔ M.AlongFrom C M.init es :=
  alongFrom_iff.symm

/-- **Run rule for the runs whose steps all meet `C`.** -/
theorem run_induction_along {C : σ → ε → Prop} {P : List ε → σ → Prop} (hinit : P [] M.init)
    (hstep : ∀ es s e s', M.run es = some s → P es s → C s e → M.step s e = some s' →
      P (es ++ [e]) s') :
    ∀ {es : List ε} {s : σ}, M.Along C es → M.run es = some s → P es s := by
  intro es s hC hs
  refine run_induction (P := fun es s => M.Along C es → P es s) (fun _ => hinit) ?_ hs hC
  intro es s e s' hs ih he hC
  obtain ⟨hC, hCe⟩ := along_snoc.1 hC
  exact hstep es s e s' hs (ih hC) (hCe s hs) he

/-- **Refinement rule**: when related states make related steps, the runs over the same events end
in related states, or both end before. -/
theorem run_rel {τ : Type*} {N : Machine τ ε} {R : σ → τ → Prop} (hinit : R M.init N.init)
    (hstep : ∀ s t e, R s t → Option.Rel R (M.step s e) (N.step t e)) (es : List ε) :
    Option.Rel R (M.run es) (N.run es) := by
  induction es using List.reverseRecOn with
  | nil => exact .some hinit
  | append_singleton es e ih =>
    rw [run_snoc, run_snoc]
    generalize M.run es = before, N.run es = before' at ih ⊢
    cases ih with
    | some h => exact hstep _ _ e h
    | none => exact .none

/-! ## Since -/

section Since

variable (M) in
/-- Some step met `A` on the state before it, and every event behind it meets `B`. -/
def Since (A : σ → ε → Prop) (B : ε → Prop) (es : List ε) : Prop :=
  ∃ pre e post s, es = pre ++ e :: post ∧ M.run pre = some s ∧ A s e ∧ ∀ x ∈ post, B x

variable {A : σ → ε → Prop} {B : ε → Prop}

theorem not_since_nil : ¬ M.Since A B [] := by
  rintro ⟨pre, e, post, s, hes, -⟩
  simp at hes

theorem since_snoc {es : List ε} {s : σ} (hrun : M.run es = some s) (e : ε) :
    M.Since A B (es ++ [e]) ↔ A s e ∨ (M.Since A B es ∧ B e) := by
  constructor
  · rintro ⟨pre, x, post, s₀, hes, hpre, hA, hB⟩
    rcases post.eq_nil_or_concat with rfl | ⟨post, y, rfl⟩
    · obtain ⟨rfl, hx⟩ := List.append_inj' hes rfl
      cases hx
      rw [hrun] at hpre
      cases hpre
      exact .inl hA
    · rw [List.concat_eq_append, ← List.cons_append, ← List.append_assoc] at hes
      obtain ⟨rfl, hy⟩ := List.append_inj' hes rfl
      cases hy
      refine .inr ⟨⟨pre, x, post, s₀, rfl, hpre, hA, fun z hz => hB z ?_⟩, hB e ?_⟩
      · simp [hz]
      · simp
  · rintro (hA | ⟨⟨pre, x, post, s₀, rfl, hpre, hA, hB⟩, he⟩)
    · exact ⟨es, e, [], s, rfl, hrun, hA, by simp⟩
    · refine ⟨pre, x, post ++ [e], s₀, by simp, hpre, hA, fun z hz => ?_⟩
      rcases List.mem_append.1 hz with hz | hz
      · exact hB z hz
      · rw [List.mem_singleton.1 hz]
        exact he

end Since

/-! ## Two machines side by side -/

section Product

variable {τ δ : Type*}

/-- The events of `M` are on the left, those of `N` on the right. -/
def prod (M : Machine σ ε) (N : Machine τ δ) : Machine (σ × τ) (ε ⊕ δ) where
  init := (M.init, N.init)
  step
    | (s, t), .inl e => (M.step s e).map (·, t)
    | (s, t), .inr d => (N.step t d).map (s, ·)

/-- A run of both is a run of each on its own events. -/
theorem run_prod {M : Machine σ ε} {N : Machine τ δ} {es : List (ε ⊕ δ)} {s : σ × τ}
    (hrun : (M.prod N).run es = some s) :
    M.run (es.filterMap Sum.getLeft?) = some s.1 ∧
      N.run (es.filterMap Sum.getRight?) = some s.2 := by
  refine run_induction (M := M.prod N)
    (P := fun es s => M.run (es.filterMap Sum.getLeft?) = some s.1 ∧
      N.run (es.filterMap Sum.getRight?) = some s.2) ⟨rfl, rfl⟩ ?_ hrun
  rintro es ⟨s, t⟩ x s' _ ⟨hM, hN⟩ hstep
  rw [List.filterMap_append, List.filterMap_append]
  cases x with
  | inl e =>
    obtain ⟨s₁, hs₁, rfl⟩ := Option.map_eq_some_iff.1 hstep
    constructor
    · show M.run (_ ++ [e]) = _
      rw [run_snoc, hM]
      exact hs₁
    · show N.run (_ ++ []) = _
      rw [List.append_nil]
      exact hN
  | inr d =>
    obtain ⟨t₁, ht₁, rfl⟩ := Option.map_eq_some_iff.1 hstep
    constructor
    · show M.run (_ ++ []) = _
      rw [List.append_nil]
      exact hM
    · show N.run (_ ++ [d]) = _
      rw [run_snoc, hN]
      exact ht₁

end Product

/-! ## Observations -/

section Observations

variable {ο : Type*} (M) (observe : σ → ε → Option ο)

def observedFrom : σ → List ε → List ο
  | _, [] => []
  | s, e :: es =>
    match M.step s e with
    | none => []
    | some s' => (observe s e).toList ++ observedFrom s' es

/-- The observations of a run, in order. -/
def observed (es : List ε) : List ο := M.observedFrom observe M.init es

@[simp] theorem observed_nil : M.observed observe [] = [] := rfl

variable {M observe}

theorem observedFrom_snoc {s s' s'' : σ} {es : List ε} {e : ε}
    (hrun : es.foldlM M.step s = some s') (hstep : M.step s' e = some s'') :
    M.observedFrom observe s (es ++ [e]) =
      M.observedFrom observe s es ++ (observe s' e).toList := by
  induction es generalizing s with
  | nil =>
    cases hrun
    simp [observedFrom, hstep]
  | cons x es ih =>
    rw [List.foldlM_cons] at hrun
    obtain ⟨t, ht, hrun⟩ := Option.bind_eq_some_iff.1 hrun
    simp [observedFrom, ht, ih hrun]

theorem observed_snoc {s s' : σ} {es : List ε} {e : ε} (hrun : M.run es = some s)
    (hstep : M.step s e = some s') :
    M.observed observe (es ++ [e]) = M.observed observe es ++ (observe s e).toList :=
  observedFrom_snoc hrun hstep

end Observations

/-! ## Infinite schedules -/

/-- The first `n` events of a schedule. -/
def firstEvents (events : Nat → ε) (n : Nat) : List ε := (List.range n).map events

theorem firstEvents_succ (events : Nat → ε) (n : Nat) :
    firstEvents events (n + 1) = firstEvents events n ++ [events n] := by
  simp [firstEvents, List.range_succ]

theorem firstEvents_add (events : Nat → ε) (m n : Nat) :
    ∃ rest, firstEvents events (m + n) = firstEvents events m ++ rest := by
  refine ⟨(List.range n).map fun k => events (m + k), ?_⟩
  simp [firstEvents, List.range_add]

theorem countP_firstEvents_mono (events : Nat → ε) (p : ε → Bool) {m n : Nat} (h : m ≤ n) :
    (firstEvents events m).countP p ≤ (firstEvents events n).countP p := by
  obtain ⟨k, rfl⟩ := Nat.exists_eq_add_of_le h
  obtain ⟨rest, hrest⟩ := firstEvents_add events m k
  rw [hrest, List.countP_append]
  omega

/-- **Progress rule.** -/
theorem eventually_of_bounded {events : Nat → ε} {p : ε → Bool} {bound : Nat} {done : Nat → Prop}
    (hbound : ∀ n, (firstEvents events n).countP p ≤ bound)
    (hfair : ∀ n, ¬ done n → ∃ m, n ≤ m ∧ p (events m) = true) : ∃ n, done n := by
  by_contra hnever
  rw [not_exists] at hnever
  have hmany : ∀ k, ∃ n, k ≤ (firstEvents events n).countP p := by
    intro k
    induction k with
    | zero => exact ⟨0, Nat.zero_le _⟩
    | succ k ih =>
      obtain ⟨n, hn⟩ := ih
      obtain ⟨m, hnm, hm⟩ := hfair n (hnever n)
      refine ⟨m + 1, ?_⟩
      have hmono := countP_firstEvents_mono events p hnm
      rw [firstEvents_succ, List.countP_append, List.countP_singleton, if_pos hm]
      omega
  obtain ⟨n, hn⟩ := hmany (bound + 1)
  have := hbound n
  omega

end Machine
