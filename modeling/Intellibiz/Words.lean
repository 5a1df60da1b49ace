import Mathlib.Data.List.Chain

/-!
# Words joined by single separators

* `squeeze` — each run of elements of a kind becomes one separator.
* `strip` — a separator at either end is dropped.
* `Separated` — separators stand alone, and at no end.
* `IsJoined` — a word, and words behind separators.

Principal results: `separated_strip_squeeze`, `Separated.isJoined`, and `squeeze_eq_self` with
`strip_eq_self` (what is separated stays as it is).
-/

namespace Words

variable {α β : Type*}

/-- Every run of elements of `p` becomes one `r`; `inside` such a run it has been written. -/
def squeeze (p : α → Bool) (r : α) (inside : Bool) : List α → List α
  | [] => []
  | x :: l =>
    if p x then if inside then squeeze p r true l else r :: squeeze p r true l
    else x :: squeeze p r false l

/-- No two separators side by side. -/
def Single (d : α) (l : List α) : Prop := l.IsChain fun x y => ¬ (x = d ∧ y = d)

structure Separated (d : α) (l : List α) : Prop where
  single : Single d l
  head : l.head? ≠ some d
  last : l.getLast? ≠ some d

/-- A word, and words behind separators. -/
def IsJoined (word : α → Bool) (d : α) (l : List α) : Prop :=
  ∃ w ws, l = w ++ ws.flatMap (fun v => d :: v) ∧ ∀ v ∈ w :: ws, v ≠ [] ∧ ∀ x ∈ v, word x = true

section Ends

variable [DecidableEq α]

def stripFront (d : α) (l : List α) : List α := if l.head? = some d then l.tail else l

def stripBack (d : α) (l : List α) : List α := if l.getLast? = some d then l.dropLast else l

/-- Without one `d` in front, and without one behind. -/
def strip (d : α) (l : List α) : List α := stripBack d (stripFront d l)

end Ends

variable {p : α → Bool} {r d : α} {l : List α}

/-! ## Runs -/

theorem squeeze_cons (inside : Bool) (x : α) (l : List α) :
    squeeze p r inside (x :: l) =
      if p x then if inside then squeeze p r true l else r :: squeeze p r true l
      else x :: squeeze p r false l := rfl

theorem mem_squeeze {inside : Bool} {x : α} (h : x ∈ squeeze p r inside l) : x = r ∨ x ∈ l := by
  induction l generalizing inside with
  | nil => cases h
  | cons y l ih =>
    have hrest : ∀ i, x ∈ squeeze p r i l → x = r ∨ x ∈ y :: l :=
      fun i hi => (ih hi).imp_right (List.mem_cons_of_mem y)
    rw [squeeze_cons] at h
    split at h
    · split at h
      · exact hrest _ h
      · rcases List.mem_cons.1 h with h | h
        · exact .inl h
        · exact hrest _ h
    · rcases List.mem_cons.1 h with h | h
      · exact .inr (List.mem_cons.2 (.inl h))
      · exact hrest _ h

theorem mem_squeeze_of_not {x : α} (hx : p x = false) (h : x ∈ l) (inside : Bool) :
    x ∈ squeeze p r inside l := by
  induction l generalizing inside with
  | nil => cases h
  | cons y l ih =>
    rw [squeeze_cons]
    rcases List.mem_cons.1 h with rfl | h
    · rw [if_neg (by simp [hx])]
      exact List.mem_cons_self
    · split
      · split
        · exact ih h true
        · exact List.mem_cons_of_mem r (ih h true)
      · exact List.mem_cons_of_mem y (ih h false)

/-- A text without the kind stays as it is. -/
theorem squeeze_eq_self_of_not (h : ∀ x ∈ l, p x = false) (inside : Bool) :
    squeeze p r inside l = l := by
  induction l generalizing inside with
  | nil => rfl
  | cons x l ih =>
    have hx : ¬ p x = true := by simp [h x List.mem_cons_self]
    rw [squeeze_cons, if_neg hx, ih fun y hy => h y (List.mem_cons_of_mem x hy)]

theorem Single.head_tail (h : Single d l) (hhead : l.head? = some d) : l.tail.head? ≠ some d := by
  cases l with
  | nil => cases hhead
  | cons x l => exact fun hl => h.rel_head? hl ⟨Option.some.inj hhead, rfl⟩

theorem head_start {t : List α} (ht : t <+: l) (h : l.head? ≠ some d) : t.head? ≠ some d := by
  obtain ⟨s, rfl⟩ := ht
  cases t with
  | nil => nofun
  | cons x t => exact h

section Separators

variable [DecidableEq α]

/-- Behind a separator that has been written comes none. -/
theorem head_squeeze : (squeeze (fun x => decide (x = d)) d true l).head? ≠ some d := by
  induction l with
  | nil => nofun
  | cons x l ih =>
    rw [squeeze_cons]
    by_cases hx : x = d
    · rw [if_pos (decide_eq_true hx)]
      exact ih
    · rw [if_neg (by simpa using hx)]
      exact fun h => hx (Option.some.inj h)

theorem single_squeeze (inside : Bool) :
    Single d (squeeze (fun x => decide (x = d)) d inside l) := by
  induction l generalizing inside with
  | nil => exact .nil
  | cons x l ih =>
    rw [squeeze_cons]
    by_cases hx : x = d
    · rw [if_pos (decide_eq_true hx)]
      split
      · exact ih true
      · refine (ih true).cons ?_
        rintro y hy ⟨-, rfl⟩
        exact head_squeeze hy
    · rw [if_neg (by simpa using hx)]
      refine (ih false).cons ?_
      rintro y - ⟨h, -⟩
      exact hx h

/-- Single separators are runs of one. -/
theorem squeeze_eq_self (h : Single d l) {inside : Bool}
    (hhead : inside = true → l.head? ≠ some d) :
    squeeze (fun x => decide (x = d)) d inside l = l := by
  induction l generalizing inside with
  | nil => rfl
  | cons x l ih =>
    rw [squeeze_cons]
    by_cases hx : x = d
    · have hfresh : inside = false := by
        rw [← Bool.not_eq_true]
        exact fun hinside => hhead hinside (by rw [hx]; rfl)
      have hnext : l.head? ≠ some d := h.head_tail (by rw [hx]; rfl)
      rw [if_pos (decide_eq_true hx), hfresh, ih h.tail (fun _ => hnext), hx]
      rfl
    · have hkept : squeeze (fun x => decide (x = d)) d false l = l :=
        ih h.tail fun hinside => absurd hinside Bool.false_ne_true
      rw [if_neg (by simpa using hx), hkept]

/-! ## Ends -/

theorem stripFront_rest : stripFront d l <:+ l := by
  unfold stripFront
  split
  · exact List.tail_suffix l
  · exact List.suffix_refl l

theorem stripBack_start : stripBack d l <+: l := by
  unfold stripBack
  split
  · exact List.dropLast_prefix l
  · exact List.prefix_refl l

theorem mem_strip {x : α} (h : x ∈ strip d l) : x ∈ l :=
  stripFront_rest.mem (stripBack_start.mem h)

theorem mem_strip_of_ne {x : α} (hx : x ≠ d) (h : x ∈ l) : x ∈ strip d l := by
  have hfront : x ∈ stripFront d l := by
    unfold stripFront
    split
    · rename_i hd
      obtain ⟨t, rfl⟩ := List.head?_eq_some_iff.1 hd
      exact (List.mem_cons.1 h).resolve_left hx
    · exact h
  unfold strip stripBack
  split
  · rename_i hd
    obtain ⟨t, ht⟩ := List.getLast?_eq_some_iff.1 hd
    rw [ht] at hfront ⊢
    rw [List.dropLast_concat]
    rcases List.mem_append.1 hfront with hfront | hfront
    · exact hfront
    · exact absurd (List.mem_singleton.1 hfront) hx
  · exact hfront

theorem head_stripFront (h : Single d l) : (stripFront d l).head? ≠ some d := by
  unfold stripFront
  split
  · rename_i hd
    exact h.head_tail hd
  · rename_i hd
    exact hd

theorem last_stripBack (h : Single d l) : (stripBack d l).getLast? ≠ some d := by
  unfold stripBack
  split
  · rename_i hd
    obtain ⟨t, rfl⟩ := List.getLast?_eq_some_iff.1 hd
    rw [List.dropLast_concat]
    intro ht
    obtain ⟨s, rfl⟩ := List.getLast?_eq_some_iff.1 ht
    rw [Single, List.append_assoc] at h
    exact (List.isChain_cons_cons.1 h.right_of_append).1 ⟨rfl, rfl⟩
  · rename_i hd
    exact hd

/-- **Single separators are separated without those at the ends.** -/
theorem separated_strip (h : Single d l) : Separated d (strip d l) where
  single := List.IsChain.prefix (h.suffix stripFront_rest) stripBack_start
  head := head_start stripBack_start (head_stripFront h)
  last := last_stripBack (h.suffix stripFront_rest)

theorem separated_strip_squeeze :
    Separated d (strip d (squeeze (fun x => decide (x = d)) d false l)) :=
  separated_strip (single_squeeze false)

theorem strip_eq_self (h : Separated d l) : strip d l = l := by
  unfold strip stripFront
  rw [if_neg h.head]
  exact if_neg h.last

end Separators

/-- A renaming that gives nothing else the name of the separator. -/
theorem Separated.map {e : β} {f : α → β} (h : Separated d l) (hf : ∀ x ∈ l, f x = e → x = d) :
    Separated e (l.map f) where
  single := by
    unfold Single
    rw [List.isChain_map]
    refine h.single.imp_of_mem_imp fun x y hx hy hxy => ?_
    rintro ⟨hfx, hfy⟩
    exact hxy ⟨hf x hx hfx, hf y hy hfy⟩
  head := by
    rw [List.head?_map]
    intro hhead
    obtain ⟨x, hx, hfx⟩ := Option.map_eq_some_iff.1 hhead
    exact h.head (hf x (List.mem_of_mem_head? hx) hfx ▸ hx)
  last := by
    rw [List.getLast?_map]
    intro hlast
    obtain ⟨x, hx, hfx⟩ := Option.map_eq_some_iff.1 hlast
    exact h.last (hf x (List.mem_of_mem_getLast? hx) hfx ▸ hx)

/-! ## Words -/

theorem isJoined_singleton {word : α → Bool} {x : α} (hx : word x = true) :
    IsJoined word d [x] :=
  ⟨[x], [], rfl, by simpa using hx⟩

theorem IsJoined.cons {word : α → Bool} {x : α} (hx : word x = true) (h : IsJoined word d l) :
    IsJoined word d (x :: l) := by
  obtain ⟨w, ws, rfl, hwords⟩ := h
  refine ⟨x :: w, ws, rfl, ?_⟩
  intro v hv
  rcases List.mem_cons.1 hv with rfl | hv
  · have hw := (hwords w List.mem_cons_self).2
    exact ⟨List.cons_ne_nil x w, List.forall_mem_cons.2 ⟨hx, hw⟩⟩
  · exact hwords v (List.mem_cons_of_mem w hv)

theorem IsJoined.separator {word : α → Bool} {x : α} (hx : word x = true) (h : IsJoined word d l) :
    IsJoined word d (x :: d :: l) := by
  obtain ⟨w, ws, rfl, hwords⟩ := h
  refine ⟨[x], w :: ws, rfl, ?_⟩
  intro v hv
  rcases List.mem_cons.1 hv with rfl | hv
  · exact ⟨List.cons_ne_nil x [], by simpa using hx⟩
  · exact hwords v hv

/-- **What is separated consists of words behind single separators.** -/
theorem Separated.isJoined {word : α → Bool} (h : Separated d l) (hne : l ≠ [])
    (hword : ∀ x ∈ l, word x = true ∨ x = d) : IsJoined word d l := by
  induction hn : l.length using Nat.strong_induction_on generalizing l with
  | _ n ih =>
    obtain ⟨x, l, rfl⟩ := List.exists_cons_of_ne_nil hne
    have hx : word x = true :=
      (hword x List.mem_cons_self).resolve_right fun hx => h.head (by rw [hx]; rfl)
    have hrest : ∀ {t : List α}, t <:+ x :: l → t ≠ [] → t.head? ≠ some d → Separated d t := by
      rintro t ⟨s, hs⟩ ht hhead
      refine ⟨h.single.suffix ⟨s, hs⟩, hhead, ?_⟩
      rw [← List.getLast?_append_of_ne_nil s ht, hs]
      exact h.last
    cases l with
    | nil => exact isJoined_singleton hx
    | cons y l =>
      by_cases hy : y = d
      · -- a separator, so another word begins behind it
        subst hy
        have hl : l ≠ [] := by
          rintro rfl
          exact h.last rfl
        refine IsJoined.separator hx (ih _ ?_ (hrest ⟨[x, y], rfl⟩ hl ?_) hl ?_ rfl)
        · rw [← hn, List.length_cons, List.length_cons]
          omega
        · have htail : Single y (y :: l) := h.single.tail
          exact htail.head_tail rfl
        · exact fun z hz => hword z (List.mem_cons_of_mem x (List.mem_cons_of_mem y hz))
      · refine IsJoined.cons hx (ih _ ?_ (hrest ⟨[x], rfl⟩ (List.cons_ne_nil y l) ?_)
          (List.cons_ne_nil y l) ?_ rfl)
        · rw [← hn]
          exact Nat.lt_succ_self _
        · exact fun hhead => hy (Option.some.inj hhead)
        · exact fun z hz => hword z (List.mem_cons_of_mem x hz)

end Words
