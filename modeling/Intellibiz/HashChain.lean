import Mathlib.Data.List.Forall2
import Mathlib.Data.List.Nodup
import Mathlib.Data.List.Chain

/-!
# Hash chains

Blocks of any type that store the hash of their predecessor (`prev`) and their own (`hash`).

* `Linked` — every block stores the hash of the block before it.
* `Anchored h l` — `l` is linked and its first block stores `h`; `tip h l` is the hash a next
  block has to store.  `anchored_snoc` and `anchored_append` are the rules for a chain that
  grows one block at a time and is read back in batches.
* `commit` — the hash of the last block commits to every block, for any relation `R` that
  equal hashes enforce together with equal predecessors.
* `Anchored.linked_iff_segment` — where all hashes differ, the linked selections of a chain are its
  contiguous segments.
-/

namespace HashChain

/-- What a block stores of the chain. -/
structure Links (α H : Type*) where
  prev : α → H
  hash : α → H

variable {α H : Type*} (L : Links α H)

def Linked (l : List α) : Prop := l.IsChain (fun a b => L.prev b = L.hash a)

/-- The hash that the block after `l` has to store, when `l` follows a block of hash `h`. -/
def tip (h : H) (l : List α) : H := (l.getLast?.map L.hash).getD h

structure Anchored (h : H) (l : List α) : Prop where
  linked : Linked L l
  first : ∀ a ∈ l.head?, L.prev a = h

@[simp] theorem tip_nil (h : H) : tip L h [] = h := rfl

@[simp] theorem tip_snoc (h : H) (l : List α) (b : α) : tip L h (l ++ [b]) = L.hash b := by
  simp [tip]

theorem anchored_nil (h : H) : Anchored L h [] :=
  ⟨List.isChain_nil, by simp⟩

variable {L}

/-- **A chain grows by a block that stores its tip.** -/
theorem anchored_snoc {h : H} {l : List α} {b : α} (hl : Anchored L h l)
    (hb : L.prev b = tip L h l) : Anchored L h (l ++ [b]) := by
  refine ⟨?_, ?_⟩
  · refine List.isChain_append.2 ⟨hl.linked, List.isChain_singleton b, ?_⟩
    intro a ha c hc
    simp only [List.head?_cons, Option.mem_some_iff] at hc
    subst hc
    simp only [Option.mem_def] at ha
    simpa [tip, ha] using hb
  · intro a ha
    cases l with
    | nil =>
      simp only [List.nil_append, List.head?_cons, Option.mem_some_iff] at ha
      subst ha
      simpa using hb
    | cons c l => exact hl.first a (by simpa using ha)

theorem Anchored.left_of_append {h : H} {l m : List α} (hl : Anchored L h (l ++ m)) :
    Anchored L h l := by
  refine ⟨List.IsChain.left_of_append hl.linked, fun a ha => hl.first a ?_⟩
  rw [List.head?_append, Option.mem_def.1 ha]
  rfl

/-- **The last hash commits to the whole chain.**  If equal hashes of corresponding blocks
enforce `R` and equal predecessor hashes, two linked lists whose last hashes agree have equal
hashes and are related by `R` at every position. -/
theorem commit {R : α → α → Prop} : ∀ {l m : List α}, Linked L l → Linked L m →
    l.getLast?.map L.hash = m.getLast?.map L.hash →
    List.Forall₂ (fun a b => L.hash a = L.hash b → R a b ∧ L.prev a = L.prev b) l m →
    List.Forall₂ (fun a b => L.hash a = L.hash b ∧ R a b ∧ L.prev a = L.prev b) l m
  | [], [], _, _, _, _ => .nil
  | [a], [b], _, _, hlast, .cons hab .nil => by
    have hh : L.hash a = L.hash b := by simpa using hlast
    exact .cons ⟨hh, hab hh⟩ .nil
  | a :: a' :: l, b :: b' :: m, hl, hm, hlast, .cons hab hrest => by
    obtain ⟨ha, hl'⟩ := List.isChain_cons_cons.1 hl
    obtain ⟨hb, hm'⟩ := List.isChain_cons_cons.1 hm
    have ih := commit hl' hm' (by simpa [List.getLast?_cons_cons] using hlast) hrest
    -- the successors store the same predecessor hash, which is the hash of `a` and of `b`
    have hh : L.hash a = L.hash b := by
      cases ih with
      | cons h _ => rw [← ha, ← hb, h.2.2]
    exact .cons ⟨hh, hab hh⟩ ih

/-! ## Selections -/

/-- The hashes of a chain tell its blocks and its anchor apart. -/
structure Distinct (L : Links α H) (h : H) (l : List α) : Prop where
  nodup : (l.map L.hash).Nodup
  anchor : h ∉ l.map L.hash

variable {h : H} {l m : List α}

/-- Two blocks of one hash are one block. -/
theorem Distinct.eq_of_hash_eq (hd : Distinct L h l) {a b : α} (ha : a ∈ l) (hb : b ∈ l)
    (heq : L.hash a = L.hash b) : a = b :=
  List.inj_on_of_nodup_map hd.nodup ha hb heq

/-- **The predecessor of a block is unique**: a block that stores the hash of `a` comes right
after `a`. -/
theorem Anchored.predecessor (hl : Anchored L h l) (hd : Distinct L h l) {a b : α} {xs ys : List α}
    (hsplit : l = xs ++ b :: ys) (ha : a ∈ l) (hab : L.prev b = L.hash a) :
    ∃ zs, xs = zs ++ [a] := by
  rcases List.eq_nil_or_concat xs with rfl | ⟨zs, c, rfl⟩
  · -- the first block stores the anchor
    have hfirst := hl.first b (by simp [hsplit])
    refine absurd ?_ hd.anchor
    rw [← hfirst, hab]
    exact List.mem_map_of_mem ha
  · rw [List.concat_eq_append] at hsplit ⊢
    have hlinked := hl.linked
    rw [hsplit, Linked, List.append_assoc, List.singleton_append,
      List.isChain_append_cons_cons] at hlinked
    have hc : c ∈ l := by simp [hsplit]
    have hca : c = a := hd.eq_of_hash_eq hc ha (by rw [← hlinked.2.1, hab])
    exact ⟨zs, by rw [hca]⟩

theorem Anchored.segment_of_linked (hl : Anchored L h l) (hd : Distinct L h l) :
    ∀ {m : List α}, m ⊆ l → Linked L m → m <:+: l
  | [], _, _ => List.nil_infix
  | [a], hsub, _ => by
    obtain ⟨xs, ys, hsplit⟩ := List.append_of_mem (hsub (List.mem_singleton_self a))
    exact ⟨xs, ys, by simp [hsplit]⟩
  | a :: b :: m, hsub, hm => by
    obtain ⟨hab, hrest⟩ := List.isChain_cons_cons.1 hm
    obtain ⟨ha, hsub'⟩ := List.cons_subset.1 hsub
    obtain ⟨xs, ys, hsplit⟩ := hl.segment_of_linked hd hsub' hrest
    have hb : l = xs ++ b :: (m ++ ys) := by simp [← hsplit]
    obtain ⟨zs, rfl⟩ := hl.predecessor hd hb ha hab
    exact ⟨zs, ys, by simp [← hsplit]⟩

/-- **The linked selections of a chain are its contiguous segments.** -/
theorem Anchored.linked_iff_segment (hl : Anchored L h l) (hd : Distinct L h l) (hsub : m ⊆ l) :
    Linked L m ↔ m <:+: l :=
  ⟨hl.segment_of_linked hd hsub, fun hinfix => List.IsChain.infix hl.linked hinfix⟩

theorem Distinct.nodup_blocks (hd : Distinct L h l) : l.Nodup := hd.nodup.of_map _

/-- A gap in a list of different blocks is no segment of it. -/
theorem gap_not_segment {xs ys : List α} {b : α} (hnodup : (xs ++ b :: ys).Nodup) (hxs : xs ≠ [])
    (hys : ys ≠ []) : ¬ xs ++ ys <:+: xs ++ b :: ys := by
  rintro ⟨s, t, heq⟩
  have hlength := congrArg List.length heq
  simp only [List.length_append, List.length_cons] at hlength
  rcases s with _ | ⟨c, s⟩
  · -- the segment starts at the start, so the block behind `xs` is the next one
    obtain ⟨y, ys, rfl⟩ := List.exists_cons_of_ne_nil hys
    rw [List.nil_append, List.append_assoc] at heq
    have htail := List.append_cancel_left heq
    obtain ⟨rfl, -⟩ := List.cons.inj htail
    simp [List.nodup_append] at hnodup
  · obtain rfl : t = [] := List.length_eq_zero_iff.1 (by simp at hlength; omega)
    obtain rfl : s = [] := List.length_eq_zero_iff.1 (by simp at hlength; omega)
    obtain ⟨x, xs, rfl⟩ := List.exists_cons_of_ne_nil hxs
    -- otherwise it starts one block later, so `x` would occur twice
    simp only [List.append_nil, List.cons_append, List.nil_append, List.cons.injEq] at heq
    obtain ⟨rfl, heq⟩ := heq
    have hmem : c ∈ xs ++ b :: ys := by rw [← heq]; simp
    simp only [List.cons_append, List.nodup_cons] at hnodup
    exact hnodup.1 hmem

end HashChain
