import Mathlib.Data.List.Forall2
import Mathlib.Data.List.Count

/-!
# Fields joined by a delimiter

* `append_cons_inj` — two texts cut at a delimiter agree on both sides as soon as the parts
  before the cut contain the delimiter equally often.
* `intercalate_inj` — joining is injective on lists of fields that correspond and contain the
  delimiter equally often.  Without that side condition it is not: the delimiter of one field
  can be moved into its neighbour.
* `intercalate_inj_of_not_mem` — it is injective on lists of fields without the delimiter.
* `intercalate_merge` — two neighbouring fields may be one field that contains the delimiter.
-/

namespace Delimited

variable {α : Type*} [DecidableEq α]

theorem append_cons_inj {d : α} : ∀ {x y r s : List α}, x.count d = y.count d →
    x ++ d :: r = y ++ d :: s → x = y ∧ r = s
  | [], [], _, _, _, h => ⟨rfl, by simpa using h⟩
  | [], b :: y, _, _, hc, h => by
    simp only [List.nil_append, List.cons_append, List.cons.injEq] at h
    obtain ⟨rfl, _⟩ := h
    simp at hc
  | a :: x, [], _, _, hc, h => by
    simp only [List.nil_append, List.cons_append, List.cons.injEq] at h
    obtain ⟨rfl, _⟩ := h
    simp at hc
  | a :: x, b :: y, r, s, hc, h => by
    simp only [List.cons_append, List.cons.injEq] at h
    obtain ⟨rfl, h⟩ := h
    obtain ⟨rfl, hrs⟩ := append_cons_inj (by simpa [List.count_cons] using hc) h
    exact ⟨rfl, hrs⟩

omit [DecidableEq α] in
/-- **Two cuts of one text** are the same, or a delimiter was moved across. -/
theorem append_cons_eq_iff {d : α} {x y r s : List α} :
    x ++ d :: r = y ++ d :: s ↔ (x = y ∧ r = s) ∨ (∃ z, y = x ++ d :: z ∧ r = z ++ d :: s) ∨
      ∃ z, x = y ++ d :: z ∧ s = z ++ d :: r := by
  constructor
  · intro h
    rcases List.append_eq_append_iff.1 h with ⟨z, rfl, hz⟩ | ⟨z, rfl, hz⟩
    · cases z with
      | nil => exact .inl ⟨(List.append_nil x).symm, (List.cons.inj hz).2⟩
      | cons a z =>
        obtain ⟨rfl, rfl⟩ := List.cons.inj hz
        exact .inr (.inl ⟨z, rfl, rfl⟩)
    · cases z with
      | nil => exact .inl ⟨List.append_nil y, (List.cons.inj hz).2.symm⟩
      | cons a z =>
        obtain ⟨rfl, rfl⟩ := List.cons.inj hz
        exact .inr (.inr ⟨z, rfl, rfl⟩)
  · rintro (⟨rfl, rfl⟩ | ⟨z, rfl, rfl⟩ | ⟨z, rfl, rfl⟩) <;> simp

/-- Texts are cut at their last delimiter. -/
theorem append_cons_inj_last {d : α} {x y r s : List α} (hr : d ∉ r) (hs : d ∉ s)
    (h : x ++ d :: r = y ++ d :: s) : x = y ∧ r = s := by
  have hcount := congrArg (List.count d) h
  rw [List.count_append, List.count_append, List.count_cons_self, List.count_cons_self,
    List.count_eq_zero_of_not_mem hr, List.count_eq_zero_of_not_mem hs] at hcount
  exact append_cons_inj (by omega) h

/-- **Joining is injective on fields with equal delimiter counts.** -/
theorem intercalate_inj {d : α} {xs ys : List (List α)}
    (hc : List.Forall₂ (fun x y => x.count d = y.count d) xs ys)
    (h : [d].intercalate xs = [d].intercalate ys) : xs = ys := by
  induction hc with
  | nil => rfl
  | @cons x y xs ys hxy hrest ih =>
    cases hrest with
    | nil => simpa [List.intercalate] using h
    | @cons x' y' xs ys hxy' hrest =>
      -- at least two fields on both sides: cut at the first delimiter
      have hcut : x ++ d :: [d].intercalate (x' :: xs) = y ++ d :: [d].intercalate (y' :: ys) := by
        simpa [List.intercalate, List.intersperse] using h
      obtain ⟨rfl, htail⟩ := append_cons_inj hxy hcut
      rw [ih htail]

theorem intercalate_inj_of_not_mem {d : α} {xs ys : List (List α)} (hxs : ∀ x ∈ xs, d ∉ x)
    (hys : ∀ y ∈ ys, d ∉ y) (hx : xs ≠ []) (hy : ys ≠ [])
    (h : [d].intercalate xs = [d].intercalate ys) : xs = ys := by
  have hsplit := congrArg (List.splitOn d) h
  rw [List.splitOn_intercalate d hxs hx, List.splitOn_intercalate d hys hy] at hsplit
  exact hsplit

omit [DecidableEq α] in
theorem intercalate_merge (d : α) (before : List (List α)) (x y : List α) (after : List (List α)) :
    [d].intercalate (before ++ (x ++ d :: y) :: after) =
      [d].intercalate (before ++ x :: y :: after) := by
  induction before with
  | nil =>
    cases after with
    | nil => simp [List.intercalate_cons_cons]
    | cons z after => simp [List.intercalate_cons_cons]
  | cons b before ih =>
    rw [List.cons_append, List.cons_append, List.intercalate_cons_of_ne_nil (by simp),
      List.intercalate_cons_of_ne_nil (by simp), ih]

/-- Without the delimiter, the fields are left. -/
theorem filter_intercalate {d : α} {xs : List (List α)} (h : ∀ x ∈ xs, d ∉ x) :
    ([d].intercalate xs).filter (· ≠ d) = xs.flatten := by
  have hfield : ∀ x : List α, d ∉ x → x.filter (· ≠ d) = x := by
    intro x hx
    refine List.filter_eq_self.2 fun c hc => decide_eq_true ?_
    rintro rfl
    exact hx hc
  induction xs with
  | nil => rfl
  | cons x xs ih =>
    obtain ⟨hx, hxs⟩ := List.forall_mem_cons.1 h
    cases xs with
    | nil => simpa using hfield x hx
    | cons y xs =>
      rw [List.intercalate_cons_cons, List.filter_append, List.filter_append, ih hxs, hfield x hx]
      simp

end Delimited
