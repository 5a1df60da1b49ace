import Mathlib.Data.Multiset.Filter
import Mathlib.Data.List.Sort

/-!
# Priority queues

A priority queue over a comparison is known by the multiset of its elements and by what `peek`
and `pop` return: some maximal element, of equal ones any.

* `PriorityQueue` — the operations and their laws.
* `popWhile` — the loop that looks at the top, and pops while it satisfies a predicate.
* `sortedList` — the lists in descending order are a priority queue.

Principal result: `popWhile_spec`, for a predicate that holds of every element above one that
satisfies it.
-/

open Std

structure PriorityQueue (α : Type) (cmp : α → α → Ordering) where
  Carrier : Type
  elems : Carrier → Multiset α
  empty : Carrier
  len : Carrier → Nat
  push : α → Carrier → Carrier
  peek : Carrier → Option α
  pop : Carrier → Option (α × Carrier)
  elems_empty : elems empty = 0
  len_eq : ∀ q, len q = (elems q).card
  elems_push : ∀ a q, elems (push a q) = a ::ₘ elems q
  peek_none : ∀ q, peek q = none → elems q = 0
  peek_some : ∀ q a, peek q = some a → a ∈ elems q ∧ ∀ b ∈ elems q, (cmp b a).isLE
  pop_none : ∀ q, pop q = none → elems q = 0
  pop_some : ∀ q a q', pop q = some (a, q') →
    elems q = a ::ₘ elems q' ∧ ∀ b ∈ elems q, (cmp b a).isLE

namespace PriorityQueue

variable {α : Type} {cmp : α → α → Ordering} (Q : PriorityQueue α cmp)

theorem len_of_pop {q : Q.Carrier} {a : α} {q' : Q.Carrier} (h : Q.pop q = some (a, q')) :
    Q.len q = Q.len q' + 1 := by
  rw [Q.len_eq, Q.len_eq, (Q.pop_some q a q' h).1, Multiset.card_cons]

/-- `while let Some(a) = q.peek() { if p(a) { out.push(q.pop().unwrap()) } else { break } }`;
`none` if the `unwrap` fails. -/
def popWhile (p : α → Bool) (q : Q.Carrier) (out : List α) : Option (List α × Q.Carrier) :=
  match Q.peek q with
  | none => some (out, q)
  | some a =>
    if p a then
      match _hpop : Q.pop q with
      | none => none
      | some (b, q') => popWhile p q' (out ++ [b])
    else some (out, q)
termination_by Q.len q
decreasing_by
  have := Q.len_of_pop _hpop
  omega

/-- What the loop pops, in order, and what it leaves. -/
structure Popped (p : α → Bool) (q : Q.Carrier) (popped : List α) (q' : Q.Carrier) : Prop where
  popped_eq : (popped : Multiset α) = (Q.elems q).filter (p ·)
  left_eq : Q.elems q' = (Q.elems q).filter (¬ p ·)
  descending : popped.Pairwise fun a b => (cmp b a).isLE

/-- **The loop pops exactly the elements that satisfy the predicate, in descending order.** -/
theorem popWhile_spec {p : α → Bool} (hp : ∀ a b, (cmp a b).isLE → p a = true → p b = true)
    (q : Q.Carrier) (out : List α) :
    ∃ popped q', Q.popWhile p q out = some (out ++ popped, q') ∧ Q.Popped p q popped q' := by
  induction hn : Q.len q generalizing q out with
  | zero =>
    have hnil : Q.elems q = 0 := by
      rw [← Multiset.card_eq_zero, ← Q.len_eq, hn]
    refine ⟨[], q, ?_, by simp [hnil], by simp [hnil], .nil⟩
    unfold popWhile
    cases hpeek : Q.peek q with
    | none => simp
    | some a =>
      have hmem := (Q.peek_some q a hpeek).1
      simp [hnil] at hmem
  | succ n ih =>
    unfold popWhile
    cases hpeek : Q.peek q with
    | none =>
      have hnil := Q.peek_none q hpeek
      rw [Q.len_eq, hnil] at hn
      cases hn
    | some a =>
      obtain ⟨hmem, hmax⟩ := Q.peek_some q a hpeek
      simp only
      split
      · rename_i ha
        split
        · rename_i hpop
          rw [Q.pop_none q hpop] at hmem
          simp at hmem
        · rename_i b q₁ hpop
          obtain ⟨helems, hbmax⟩ := Q.pop_some q b q₁ hpop
          have hb : p b = true := hp a b (hbmax a hmem) ha
          obtain ⟨popped, q', hrun, h⟩ := ih q₁ (out ++ [b]) (by have := Q.len_of_pop hpop; omega)
          refine ⟨b :: popped, q', by rw [hrun, List.append_assoc, List.singleton_append], ?_⟩
          refine ⟨?_, ?_, List.pairwise_cons.2 ⟨fun c hc => ?_, h.descending⟩⟩
          · rw [helems, Multiset.filter_cons_of_pos (p := (p ·)) _ hb, ← h.popped_eq, Multiset.cons_coe]
          · rw [helems, Multiset.filter_cons_of_neg (p := (¬ p ·)) _ (by simp [hb]), h.left_eq]
          · have hc : c ∈ (popped : Multiset α) := Multiset.mem_coe.2 hc
            rw [h.popped_eq] at hc
            exact hbmax c (helems ▸ Multiset.mem_cons_of_mem (Multiset.mem_filter.1 hc).1)
      · rename_i ha
        -- the top is maximal, so nothing below it satisfies the predicate
        have hnone : ∀ b ∈ Q.elems q, ¬ p b = true := fun b hb hpb => ha (hp b a (hmax b hb) hpb)
        refine ⟨[], q, by simp, ?_, ?_, .nil⟩
        · rw [Multiset.filter_eq_nil.2 hnone]
          rfl
        · rw [Multiset.filter_eq_self.2 hnone]

/-! ## Sorted lists -/

section SortedList

variable (cmp)

def insertDescending (a : α) : List α → List α
  | [] => [a]
  | b :: l => if (cmp b a).isLE then a :: b :: l else b :: insertDescending a l

theorem insertDescending_perm (a : α) (l : List α) : (insertDescending cmp a l).Perm (a :: l) := by
  induction l with
  | nil => exact .refl _
  | cons b l ih =>
    unfold insertDescending
    split
    · exact .refl _
    · exact (ih.cons b).trans (.swap a b l)

variable [TransCmp cmp]

theorem insertDescending_sorted (a : α) {l : List α}
    (h : l.Pairwise fun a b => (cmp b a).isLE) :
    (insertDescending cmp a l).Pairwise fun a b => (cmp b a).isLE := by
  induction l with
  | nil => exact List.pairwise_singleton ..
  | cons b l ih =>
    obtain ⟨hb, hl⟩ := List.pairwise_cons.1 h
    unfold insertDescending
    split
    · rename_i hle
      refine List.pairwise_cons.2 ⟨fun c hc => ?_, h⟩
      rcases List.mem_cons.1 hc with rfl | hc
      · exact hle
      · exact TransCmp.isLE_trans (hb c hc) hle
    · rename_i hgt
      refine List.pairwise_cons.2 ⟨fun c hc => ?_, ih hl⟩
      rcases List.mem_cons.1 ((insertDescending_perm cmp a l).mem_iff.1 hc) with rfl | hc
      · exact Ordering.isLE_of_eq_lt (OrientedCmp.lt_of_not_isLE hgt)
      · exact hb c hc

/-- The lists in descending order. -/
def sortedList : PriorityQueue α cmp where
  Carrier := { l : List α // l.Pairwise fun a b => (cmp b a).isLE }
  elems q := q.val
  empty := ⟨[], .nil⟩
  len q := q.val.length
  push a q := ⟨insertDescending cmp a q.val, insertDescending_sorted cmp a q.property⟩
  peek q := q.val.head?
  pop
    | ⟨[], _⟩ => none
    | ⟨a :: l, h⟩ => some (a, ⟨l, (List.pairwise_cons.1 h).2⟩)
  elems_empty := rfl
  len_eq q := rfl
  elems_push a q := Multiset.coe_eq_coe.2 (insertDescending_perm cmp a q.val)
  peek_none := by
    rintro ⟨l, _⟩ h
    cases l with
    | nil => rfl
    | cons a l => cases h
  peek_some := by
    rintro ⟨l, hl⟩ a h
    cases l with
    | nil => cases h
    | cons b l =>
      cases h
      refine ⟨by simp, fun c hc => ?_⟩
      rcases List.mem_cons.1 (Multiset.mem_coe.1 hc) with rfl | hc
      · exact ReflCmp.isLE_rfl
      · exact (List.pairwise_cons.1 hl).1 c hc
  pop_none := by
    rintro ⟨l, _⟩ h
    cases l with
    | nil => rfl
    | cons a l => cases h
  pop_some := by
    rintro ⟨l, hl⟩ a q' h
    cases l with
    | nil => cases h
    | cons b l =>
      cases h
      refine ⟨rfl, fun c hc => ?_⟩
      rcases List.mem_cons.1 (Multiset.mem_coe.1 hc) with rfl | hc
      · exact ReflCmp.isLE_rfl
      · exact (List.pairwise_cons.1 hl).1 c hc

end SortedList

end PriorityQueue
