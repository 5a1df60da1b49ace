import Mathlib.Data.Finset.Card
import Mathlib.Data.List.Chain
import Mathlib.Logic.Relation

/-!
# Depth-first search for a cycle

A directed graph is given by the successors of each vertex.  The search carries the path from its
root and a set of visited vertices that is shared by all branches; it stops at the first vertex
that is already on the path.

* `search` — with a bound on the depth; `Stop` tells a cycle from a search that was cut off.
* `ClosedWalk` — what a report is.
* `Safe` — no cycle is reachable from the vertex.

Principal results: `search_closedWalk` (what is reported is a closed walk), `search_safe` (a search
that ends without a report has a root from which no cycle is reachable) and `search_depth` (a depth
beyond the number of vertices is never cut off).
-/

namespace CycleSearch

open Relation

variable {α : Type} [DecidableEq α] (succ : α → List α)

def Edge (a b : α) : Prop := b ∈ succ a

def Safe (a : α) : Prop := ∀ x, ReflTransGen (Edge succ) a x → ¬ TransGen (Edge succ) x x

/-- A walk along `R` that ends where it starts. -/
structure ClosedWalk (R : α → α → Prop) (vertices : List α) : Prop where
  length_ge : 2 ≤ vertices.length
  closed : vertices.head? = vertices.getLast?
  walk : vertices.IsChain R

inductive Stop (α : Type) where
  | cycle (vertices : List α)
  | cutOff

/-- Visit `a`, at the end of `path`; the result is the new set of visited vertices. -/
def search : Nat → α → List α → List α → Except (Stop α) (List α)
  | 0, _, _, _ => .error .cutOff
  | fuel + 1, a, path, visited =>
    if a ∈ path then .error (.cycle (path.drop (path.idxOf a) ++ [a]))
    else if a ∈ visited then .ok visited
    else (succ a).foldlM (fun visited b => search fuel b (path ++ [a]) visited) (a :: visited)

variable {succ}

/-- The error of a loop is the error of one of its rounds. -/
theorem foldlM_error {σ ε β : Type} {f : σ → β → Except ε σ} {bs : List β} {s : σ} {err : ε}
    (h : bs.foldlM f s = .error err) : ∃ b ∈ bs, ∃ t, f t b = .error err := by
  induction bs generalizing s with
  | nil => cases h
  | cons b bs ih =>
    rw [List.foldlM_cons] at h
    cases hb : f s b with
    | error e =>
      rw [hb] at h
      cases h
      exact ⟨b, by simp, s, hb⟩
    | ok t =>
      rw [hb] at h
      obtain ⟨c, hc, hrest⟩ := ih h
      exact ⟨c, by simp [hc], hrest⟩

theorem foldlM_ok {σ ε β : Type} {f : σ → β → Except ε σ} {I : σ → Prop} {Q : β → Prop}
    (hf : ∀ s b t, I s → f s b = .ok t → Q b ∧ I t) {bs : List β} {s s' : σ} (hs : I s)
    (h : bs.foldlM f s = .ok s') : (∀ b ∈ bs, Q b) ∧ I s' := by
  induction bs generalizing s with
  | nil =>
    cases h
    exact ⟨by simp, hs⟩
  | cons b bs ih =>
    rw [List.foldlM_cons] at h
    cases hb : f s b with
    | error e => rw [hb] at h; cases h
    | ok t =>
      rw [hb] at h
      obtain ⟨hq, ht⟩ := hf s b t hs hb
      obtain ⟨hrest, hs'⟩ := ih ht h
      exact ⟨List.forall_mem_cons.2 ⟨hq, hrest⟩, hs'⟩

omit [DecidableEq α] in
/-- A closed walk passes through a vertex that reaches itself. -/
theorem ClosedWalk.exists_cycle {R : α → α → Prop} {vertices : List α}
    (h : ClosedWalk R vertices) : ∃ x, TransGen R x x := by
  obtain ⟨hlength, hclosed, hwalk⟩ := h
  match vertices, hlength with
  | a :: b :: rest, _ =>
    have hlast : a = (b :: rest).getLast (by simp) := by
      simpa [List.getLast?_eq_some_getLast] using hclosed
    have hreach : (a :: b :: rest).IsChain (TransGen R) := hwalk.imp fun _ _ => .single
    refine ⟨a, ?_⟩
    conv => arg 3; rw [hlast]
    exact hreach.rel_cons (List.getLast_mem _)

/-- **A report is a closed walk**, when the path is a walk to the vertex. -/
theorem search_closedWalk {fuel : Nat} {a : α} {path visited vertices : List α}
    (hpath : (path ++ [a]).IsChain (Edge succ))
    (h : search succ fuel a path visited = .error (.cycle vertices)) :
    ClosedWalk (Edge succ) vertices := by
  induction fuel generalizing a path visited with
  | zero => cases h
  | succ fuel ih =>
    unfold search at h
    split at h
    · rename_i ha
      cases h
      -- the report is the end of the path, from where `a` stands in it
      have hidx : path.idxOf a < path.length := List.idxOf_lt_length_iff.2 ha
      have hdrop : path.drop (path.idxOf a) ++ [a] = (path ++ [a]).drop (path.idxOf a) := by
        rw [List.drop_append_of_le_length (by omega)]
      refine ⟨?_, ?_, ?_⟩
      · rw [List.length_append, List.length_drop, List.length_singleton]
        omega
      · rw [List.getLast?_concat, List.head?_append, List.head?_drop,
          List.getElem?_eq_getElem hidx, List.getElem_idxOf]
        rfl
      · rw [hdrop]
        exact hpath.drop _
    · split at h
      · cases h
      · obtain ⟨b, hb, t, hrec⟩ := foldlM_error h
        refine ih ?_ hrec
        rw [List.isChain_append]
        refine ⟨hpath, .singleton _, fun x hx y hy => ?_⟩
        rw [List.getLast?_concat] at hx
        cases hx
        cases hy
        exact hb

omit [DecidableEq α] in
/-- A vertex is safe if its successors are. -/
theorem Safe.of_succ {a : α} (h : ∀ b ∈ succ a, Safe succ b) : Safe succ a := by
  intro x hx hcycle
  rcases ReflTransGen.cases_head hx with rfl | ⟨b, hb, hbx⟩
  · -- the cycle leaves `a` through a successor, which then reaches it again
    obtain ⟨b, hb, hba⟩ := TransGen.head'_iff.1 hcycle
    exact h b hb a hba hcycle
  · exact h b hb x hbx hcycle

/-- **A search without a report**: if the visited vertices off the path were safe, they still are,
and so is the root. -/
theorem search_safe {fuel : Nat} {a : α} {path visited visited' : List α}
    (hvisited : ∀ v ∈ visited, v ∈ path ∨ Safe succ v)
    (h : search succ fuel a path visited = .ok visited') :
    Safe succ a ∧ ∀ v ∈ visited', v ∈ path ∨ Safe succ v := by
  induction fuel generalizing a path visited visited' with
  | zero => cases h
  | succ fuel ih =>
    unfold search at h
    split at h
    · cases h
    · rename_i ha
      split at h
      · rename_i hmem
        cases h
        exact ⟨(hvisited a hmem).resolve_left ha, hvisited⟩
      · have hstart : ∀ v ∈ a :: visited, v ∈ path ++ [a] ∨ Safe succ v := by
          intro v hv
          rcases List.mem_cons.1 hv with rfl | hv
          · exact .inl (by simp)
          · exact (hvisited v hv).imp_left (List.mem_append_left _)
        obtain ⟨hsucc, hlast⟩ := foldlM_ok (Q := Safe succ)
          (I := fun s => ∀ v ∈ s, v ∈ path ++ [a] ∨ Safe succ v)
          (fun s b t hs hb => ih hs hb) hstart h
        have hsafe : Safe succ a := .of_succ hsucc
        refine ⟨hsafe, fun v hv => ?_⟩
        rcases hlast v hv with hpath | hv
        · rcases List.mem_append.1 hpath with hpath | hpath
          · exact .inl hpath
          · rw [List.mem_singleton.1 hpath]
            exact .inr hsafe
        · exact .inr hv

/-- **Depth.**  The path never repeats a vertex, so a search whose depth exceeds the number of
vertices is not cut off. -/
theorem search_depth {vertices : Finset α} (hclosed : ∀ a ∈ vertices, ∀ b ∈ succ a, b ∈ vertices)
    {fuel : Nat} {a : α} {path visited : List α} (ha : a ∈ vertices) (hnodup : path.Nodup)
    (hpath : ∀ x ∈ path, x ∈ vertices) (hfuel : vertices.card < fuel + path.length) :
    search succ fuel a path visited ≠ .error .cutOff := by
  induction fuel generalizing a path visited with
  | zero =>
    have hcard : path.length ≤ vertices.card := by
      rw [← List.toFinset_card_of_nodup hnodup]
      exact Finset.card_le_card fun x hx => hpath x (List.mem_toFinset.1 hx)
    omega
  | succ fuel ih =>
    intro h
    unfold search at h
    split at h
    · cases h
    · rename_i hnew
      split at h
      · cases h
      · obtain ⟨b, hb, t, hrec⟩ := foldlM_error h
        refine ih (hclosed a ha b hb) ?_ ?_ ?_ hrec
        · rw [List.nodup_append]
          refine ⟨hnodup, List.nodup_singleton a, fun x hx y hy => ?_⟩
          rintro rfl
          rw [List.mem_singleton.1 hy] at hx
          exact hnew hx
        · intro x hx
          rcases List.mem_append.1 hx with hx | hx
          · exact hpath x hx
          · rw [List.mem_singleton.1 hx]
            exact ha
        · rw [List.length_append, List.length_singleton]
          omega

end CycleSearch
