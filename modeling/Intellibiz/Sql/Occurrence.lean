import Mathlib.Data.List.Infix
import Mathlib.Data.List.Basic

/-!
# Counting occurrences of a word in a text

`occ f pat l` is the number of positions of `l` at which `pat` starts, where letters are compared
after `f` (for a search that ignores case, `f` is the folding).

* `occ_append_ge` — a text has at least the occurrences of its parts.
* `occ_append_left`, `occ_append_right` — it has no others where a letter foreign to the word
  stands at the joint.
* `Spread`, `Spread.occ_le` — a text into which foreign pieces are put has no new occurrences.
-/

namespace Occurrence

variable {α β : Type} [DecidableEq β] (f : α → β) (pat : List β)

def occ : List α → Nat
  | [] => 0
  | c :: l => (if pat <+: (c :: l).map f then 1 else 0) + occ l

variable {f pat}

@[simp] theorem occ_nil : occ f pat [] = 0 := rfl

theorem occ_cons (c : α) (l : List α) :
    occ f pat (c :: l) = (if pat <+: (c :: l).map f then 1 else 0) + occ f pat l :=
  rfl

theorem occ_le_cons (c : α) (l : List α) : occ f pat l ≤ occ f pat (c :: l) := by
  rw [occ_cons]
  omega

/-- An occurrence cuts the text before it. -/
theorem exists_of_occ {l : List α} (h : occ f pat l ≠ 0) :
    ∃ a b, l = a ++ b ∧ pat <+: b.map f := by
  induction l with
  | nil => exact absurd rfl h
  | cons c l ih =>
    by_cases hp : pat <+: (c :: l).map f
    · exact ⟨[], c :: l, rfl, hp⟩
    · rw [occ_cons, if_neg hp, Nat.zero_add] at h
      obtain ⟨a, b, rfl, hb⟩ := ih h
      exact ⟨c :: a, b, rfl, hb⟩

theorem occ_append_ge (a b : List α) : occ f pat a + occ f pat b ≤ occ f pat (a ++ b) := by
  induction a with
  | nil => simp
  | cons c a ih =>
    rw [List.cons_append, occ_cons, occ_cons]
    have hmono : pat <+: (c :: a).map f → pat <+: (c :: (a ++ b)).map f := by
      intro h
      rw [← List.cons_append, List.map_append]
      exact h.trans (List.prefix_append _ _)
    split
    · rename_i h
      rw [if_pos (hmono h)]
      omega
    · omega

theorem occ_le_append_right (a b : List α) : occ f pat b ≤ occ f pat (a ++ b) := by
  have := @occ_append_ge _ _ _ f pat a b
  omega

theorem occ_le_append_left (a b : List α) : occ f pat a ≤ occ f pat (a ++ b) := by
  have := @occ_append_ge _ _ _ f pat a b
  omega

omit [DecidableEq β] in
/-- A word without the letter `x` that starts before an `x` ends before it. -/
theorem prefix_before {u v : List β} {x : β} (hx : x ∉ pat) (h : pat <+: u ++ x :: v) :
    pat <+: u := by
  rcases Nat.lt_or_ge u.length pat.length with hlt | hle
  · obtain ⟨t, ht⟩ := h
    have hmem : x ∈ pat := by
      have hget : (pat ++ t)[u.length]? = some x := by rw [ht]; simp
      rw [List.getElem?_append_left hlt] at hget
      exact List.mem_of_getElem? hget
    exact absurd hmem hx
  · exact List.prefix_of_prefix_length_le h (List.prefix_append u _) hle

theorem occ_break (hpat : pat ≠ []) {c : α} (hc : f c ∉ pat) (a b : List α) :
    occ f pat (a ++ c :: b) = occ f pat a + occ f pat b := by
  induction a with
  | nil =>
    have hno : ¬ pat <+: (c :: b).map f := by
      intro h
      have hnil : pat <+: [] := prefix_before hc (by simpa using h)
      exact hpat (List.prefix_nil.1 hnil)
    rw [List.nil_append, occ_cons, if_neg hno]
    simp
  | cons x a ih =>
    have hiff : pat <+: (x :: (a ++ c :: b)).map f ↔ pat <+: (x :: a).map f := by
      rw [← List.cons_append, List.map_append, List.map_cons]
      exact ⟨prefix_before hc, fun h => h.trans (List.prefix_append _ _)⟩
    rw [List.cons_append, occ_cons, occ_cons, ih]
    simp only [hiff]
    omega

/-- A foreign letter ends the left part. -/
theorem occ_append_left (hpat : pat ≠ []) {a : List α} (ha : ∀ c ∈ a.getLast?, f c ∉ pat)
    (b : List α) : occ f pat (a ++ b) = occ f pat a + occ f pat b := by
  rcases a.eq_nil_or_concat with rfl | ⟨a, c, rfl⟩
  · simp
  · have hc : f c ∉ pat := ha c (by simp)
    have hnil := occ_break hpat hc a []
    rw [List.concat_eq_append, hnil, List.append_assoc]
    have := occ_break hpat hc a b
    simp at this ⊢
    omega

/-- A foreign letter starts the right part. -/
theorem occ_append_right (hpat : pat ≠ []) (a : List α) {b : List α}
    (hb : ∀ c ∈ b.head?, f c ∉ pat) : occ f pat (a ++ b) = occ f pat a + occ f pat b := by
  cases b with
  | nil => simp
  | cons c b =>
    have hc : f c ∉ pat := hb c (by simp)
    have hnil := occ_break hpat hc [] b
    rw [List.nil_append] at hnil
    rw [occ_break hpat hc, hnil]
    simp

theorem occ_map (g : α → α) (hg : ∀ c, f (g c) = f c) (l : List α) :
    occ f pat (l.map g) = occ f pat l := by
  induction l with
  | nil => rfl
  | cons c l ih =>
    have hmap : (c :: l).map f = ((c :: l).map g).map f := by
      rw [List.map_map]
      exact List.map_congr_left fun x _ => (hg x).symm
    rw [occ_cons c l, hmap, List.map_cons, occ_cons, ih]

/-! ## Foreign pieces -/

/-- No occurrence in `g`, and none that starts before it reaches into it. -/
structure Foreign (f : α → β) (pat : List β) (g : List α) : Prop where
  head : ∀ c ∈ g.head?, f c ∉ pat
  free : occ f pat g = 0

/-- The second text is the first with pieces of it left out or replaced by foreign ones. -/
inductive Spread (f : α → β) (pat : List β) : List α → List α → Prop where
  | stop {t g : List α} (hg : Foreign f pat g) : Spread f pat t g
  | keep {t r : List α} (c : α) (h : Spread f pat t r) : Spread f pat (c :: t) (c :: r)
  | replace {t r : List α} (s : List α) {g : List α} (hne : g ≠ []) (hg : Foreign f pat g)
      (hlast : ∀ c ∈ g.getLast?, f c ∉ pat) (h : Spread f pat t r) :
      Spread f pat (s ++ t) (g ++ r)

omit [DecidableEq β] in
theorem prefix_nil_of_head {g : List α} (hg : ∀ c ∈ g.head?, f c ∉ pat) {q : List β}
    (hq : ∀ x ∈ q, x ∈ pat) (h : q <+: g.map f) : q = [] := by
  cases q with
  | nil => rfl
  | cons x q =>
    cases g with
    | nil => simp at h
    | cons c g =>
      rw [List.map_cons, List.cons_prefix_cons] at h
      exact absurd (h.1 ▸ hq x (by simp)) (hg c (by simp))

theorem Spread.prefix_of {t r : List α} (h : Spread f pat t r) {q : List β}
    (hq : ∀ x ∈ q, x ∈ pat) (hr : q <+: r.map f) : q <+: t.map f := by
  induction h generalizing q with
  | stop hg => rw [prefix_nil_of_head hg.head hq hr]; exact List.nil_prefix
  | keep c _ ih =>
    cases q with
    | nil => exact List.nil_prefix
    | cons x q =>
      rw [List.map_cons, List.cons_prefix_cons] at hr ⊢
      exact ⟨hr.1, ih (fun y hy => hq y (by simp [hy])) hr.2⟩
  | @replace t r s g hne hg _ _ _ =>
    have hhead : ∀ c ∈ (g ++ r).head?, f c ∉ pat := by
      cases g with
      | nil => exact absurd rfl hne
      | cons c g => exact hg.head
    rw [prefix_nil_of_head hhead hq hr]
    exact List.nil_prefix

/-- **Foreign pieces add no occurrence.** -/
theorem Spread.occ_le (hpat : pat ≠ []) {t r : List α} (h : Spread f pat t r) :
    occ f pat r ≤ occ f pat t := by
  induction h with
  | stop hg => rw [hg.free]; omega
  | @keep t r c h ih =>
    rw [occ_cons, occ_cons]
    have hmono : pat <+: (c :: r).map f → pat <+: (c :: t).map f :=
      (Spread.keep c h).prefix_of fun x hx => hx
    split
    · rename_i hp
      rw [if_pos (hmono hp)]
      omega
    · omega
  | @replace t r s g _ hg hlast _ ih =>
    have hright := @occ_le_append_right _ _ _ f pat s t
    rw [occ_append_left hpat hlast, hg.free]
    omega

end Occurrence
