import Mathlib.Data.List.Nodup
import Mathlib.Data.List.Basic
import Mathlib.Data.List.Induction

/-!
# The insertion-ordered `Map` of JavaScript

Entries in insertion order, with pairwise different keys; the latter is a field.

* `get` / `has` / `set` / `delete` / `filter` — `set` on a present key keeps its place, `filter`
  is the loop that deletes the entries failing a test.
* `assign`, `spread` — several entries, or those of another map, set one after another.
* `get_set`, `get_delete`, `get_filter`, `get_spread` — the lookup after each operation.
* `lastValue` — what a list of writes gives a key; `get_assign` and `keys_assign` read a map that
  has been written with `assign`, and `lastValue_relabel` its entries under other
  names.
-/

structure JsMap (κ ν : Type) where
  entries : List (κ × ν)
  nodup : (entries.map Prod.fst).Nodup

namespace JsMap

variable {κ ν : Type} [DecidableEq κ]

def empty : JsMap κ ν := ⟨[], List.nodup_nil⟩

def get (m : JsMap κ ν) (k : κ) : Option ν := (m.entries.find? (fun p => p.1 == k)).map Prod.snd

def has (m : JsMap κ ν) (k : κ) : Bool := (m.get k).isSome

theorem mem_of_get {m : JsMap κ ν} {k : κ} {v : ν} (h : m.get k = some v) : (k, v) ∈ m.entries := by
  simp only [get, Option.map_eq_some_iff] at h
  obtain ⟨⟨k', v'⟩, hp, rfl⟩ := h
  have hk : k' = k := by simpa using List.find?_some hp
  rw [← hk]
  exact List.mem_of_find?_eq_some hp

theorem get_of_mem {m : JsMap κ ν} {k : κ} {v : ν} (h : (k, v) ∈ m.entries) : m.get k = some v := by
  obtain ⟨es, hnd⟩ := m
  simp only [get] at h ⊢
  induction es with
  | nil => cases h
  | cons p es ih =>
    simp only [List.map_cons, List.nodup_cons] at hnd
    rcases List.mem_cons.1 h with rfl | h
    · simp
    · have hne : p.1 ≠ k := by
        intro hp
        exact hnd.1 (hp ▸ List.mem_map.2 ⟨(k, v), h, rfl⟩)
      rw [List.find?_cons_of_neg (by simpa using hne)]
      exact ih hnd.2 h

theorem get_eq_some_iff {m : JsMap κ ν} {k : κ} {v : ν} :
    m.get k = some v ↔ (k, v) ∈ m.entries :=
  ⟨mem_of_get, get_of_mem⟩

@[simp] theorem get_empty (k : κ) : (empty : JsMap κ ν).get k = none := rfl

/-- The loop that deletes every entry failing `p`. -/
def filter (m : JsMap κ ν) (p : κ → ν → Bool) : JsMap κ ν :=
  ⟨m.entries.filter (fun e => p e.1 e.2), m.nodup.sublist (List.filter_sublist.map _)⟩

theorem get_filter_eq_some {m : JsMap κ ν} {p : κ → ν → Bool} {k : κ} {v : ν} :
    (m.filter p).get k = some v ↔ m.get k = some v ∧ p k v = true := by
  simp [get_eq_some_iff, filter]

def delete (m : JsMap κ ν) (k : κ) : JsMap κ ν := m.filter (fun k' _ => k' != k)

theorem get_delete (m : JsMap κ ν) (k k' : κ) :
    (m.delete k).get k' = if k' = k then none else m.get k' := by
  ext v
  rw [delete, get_filter_eq_some]
  split <;> simp_all

/-- A present key keeps its place, a new one goes to the end. -/
def set (m : JsMap κ ν) (k : κ) (v : ν) : JsMap κ ν :=
  if h : k ∈ m.entries.map Prod.fst then
    ⟨m.entries.map (fun p => if p.1 = k then (k, v) else p), by
      have : (m.entries.map (fun p => if p.1 = k then (k, v) else p)).map Prod.fst =
          m.entries.map Prod.fst := by
        rw [List.map_map]
        refine List.map_congr_left fun p _ => ?_
        by_cases hp : p.1 = k <;> simp [hp]
      rw [this]; exact m.nodup⟩
  else
    ⟨m.entries ++ [(k, v)], by
      rw [List.map_append]
      exact m.nodup.append (List.nodup_singleton k) (by simpa [List.disjoint_singleton] using h)⟩

theorem get_set (m : JsMap κ ν) (k : κ) (v : ν) (k' : κ) :
    (m.set k v).get k' = if k' = k then some v else m.get k' := by
  ext w
  rw [get_eq_some_iff]
  unfold set
  split
  · rename_i hk
    obtain ⟨p, hp, hpk⟩ := List.mem_map.1 hk
    simp only [List.mem_map]
    constructor
    · rintro ⟨q, hq, hqe⟩
      split at hqe
      · cases hqe; simp
      · rename_i hne
        subst hqe
        rw [if_neg hne]
        exact get_of_mem hq
    · intro h
      split at h
      · rename_i he
        cases h
        exact ⟨p, hp, by simp [hpk, he]⟩
      · rename_i hne
        exact ⟨(k', w), mem_of_get h, by simp [hne]⟩
  · rename_i hk
    simp only [List.mem_append, List.mem_singleton, Prod.mk.injEq]
    constructor
    · rintro (h | ⟨rfl, rfl⟩)
      · have hne : k' ≠ k := fun he => hk (he ▸ List.mem_map.2 ⟨_, h, rfl⟩)
        rw [if_neg hne]
        exact get_of_mem h
      · simp
    · intro h
      split at h
      · rename_i he
        cases h
        exact .inr ⟨he, rfl⟩
      · exact .inl (mem_of_get h)

def assign (m : JsMap κ ν) (es : List (κ × ν)) : JsMap κ ν := es.foldl (fun m e => m.set e.1 e.2) m

/-- `{ ...m, ...m' }` -/
def spread (m m' : JsMap κ ν) : JsMap κ ν := m.assign m'.entries

theorem get_assign_of_not_mem {es : List (κ × ν)} {k : κ} (h : k ∉ es.map Prod.fst)
    (m : JsMap κ ν) : (m.assign es).get k = m.get k := by
  induction es generalizing m with
  | nil => rfl
  | cons e es ih =>
    rw [List.map_cons, List.mem_cons, not_or] at h
    change ((m.set e.1 e.2).assign es).get k = m.get k
    rw [ih h.2, get_set, if_neg h.1]

theorem get_assign_of_mem {es : List (κ × ν)} (hnodup : (es.map Prod.fst).Nodup) {k : κ} {v : ν}
    (h : (k, v) ∈ es) (m : JsMap κ ν) : (m.assign es).get k = some v := by
  induction es generalizing m with
  | nil => cases h
  | cons e es ih =>
    rw [List.map_cons, List.nodup_cons] at hnodup
    change ((m.set e.1 e.2).assign es).get k = some v
    rcases List.mem_cons.1 h with rfl | h
    · rw [get_assign_of_not_mem hnodup.1, get_set, if_pos rfl]
    · exact ih hnodup.2 h _

theorem get_spread (m m' : JsMap κ ν) (k : κ) : (m.spread m').get k = (m'.get k).or (m.get k) := by
  unfold spread
  cases hk : m'.get k with
  | some v => exact get_assign_of_mem m'.nodup (mem_of_get hk) m
  | none =>
    refine get_assign_of_not_mem ?_ m
    intro hmem
    obtain ⟨e, he, rfl⟩ := List.mem_map.1 hmem
    rw [get_of_mem he] at hk
    cases hk

/-! ## Lists of writes -/

/-- The value that a list of writes gives a key last. -/
def lastValue (k : κ) (es : List (κ × ν)) : Option ν :=
  ((es.filter fun e => e.1 = k).getLast?).map Prod.snd

theorem lastValue_snoc (k : κ) (es : List (κ × ν)) (e : κ × ν) :
    lastValue k (es ++ [e]) = if e.1 = k then some e.2 else lastValue k es := by
  unfold lastValue
  rw [List.filter_append]
  by_cases hk : e.1 = k
  · simp [hk]
  · simp [hk]

theorem assign_snoc (m : JsMap κ ν) (es : List (κ × ν)) (e : κ × ν) :
    m.assign (es ++ [e]) = (m.assign es).set e.1 e.2 := by
  simp [assign]

theorem get_assign (m : JsMap κ ν) (es : List (κ × ν)) (k : κ) :
    (m.assign es).get k = (lastValue k es).or (m.get k) := by
  induction es using List.reverseRecOn with
  | nil => rfl
  | append_singleton es e ih =>
    rw [assign_snoc, get_set, lastValue_snoc, ih]
    by_cases hk : k = e.1
    · rw [if_pos hk, if_pos hk.symm]
      rfl
    · rw [if_neg hk, if_neg (Ne.symm hk)]

theorem keys_set (m : JsMap κ ν) (k : κ) (v : ν) :
    (m.set k v).entries.map Prod.fst =
      if k ∈ m.entries.map Prod.fst then m.entries.map Prod.fst
      else m.entries.map Prod.fst ++ [k] := by
  unfold set
  split
  · rw [List.map_map]
    refine List.map_congr_left fun p _ => ?_
    by_cases hp : p.1 = k <;> simp [hp]
  · rw [List.map_append]
    rfl

/-- The keys stand in the order of their first writes. -/
theorem keys_assign (es : List (κ × ν)) :
    ((empty : JsMap κ ν).assign es).entries.map Prod.fst = (es.map Prod.fst).eraseDups := by
  induction es using List.reverseRecOn with
  | nil => rfl
  | append_singleton es e ih =>
    rw [assign_snoc, keys_set, ih, List.map_append, List.eraseDups_append]
    by_cases hk : e.1 ∈ es.map Prod.fst
    · rw [if_pos (List.mem_eraseDups.2 hk)]
      simp [List.removeAll, hk]
    · rw [if_neg (fun h => hk (List.mem_eraseDups.1 h))]
      simp [List.removeAll, hk, List.eraseDups_cons]

theorem mem_of_lastValue {k : κ} {v : ν} {es : List (κ × ν)} (h : lastValue k es = some v) :
    (k, v) ∈ es := by
  obtain ⟨e, he, rfl⟩ := Option.map_eq_some_iff.1 h
  obtain ⟨hmem, hk⟩ := List.mem_filter.1 (List.mem_of_getLast? he)
  rw [← of_decide_eq_true hk]
  exact hmem

omit [DecidableEq κ] in
theorem lastValue_map {ι : Type} [DecidableEq ι] (f : κ → ι) (es : List (κ × ν)) (i : ι) :
    lastValue i (es.map fun e => (f e.1, e.2)) =
      (es.filter fun e => f e.1 = i).getLast?.map Prod.snd := by
  rw [lastValue, List.filter_map, List.getLast?_map, Option.map_map]
  rfl

/-- Of the keys with one name under `f`, the last one to be written for the first time. -/
def newestKey {ι : Type} [DecidableEq ι] (f : κ → ι) (i : ι) (es : List (κ × ν)) : Option κ :=
  ((es.map Prod.fst).eraseDups.filter fun k => f k = i).getLast?

/-- **Keys under other names**: of the keys with one name it is the newest that counts. -/
theorem lastValue_relabel {ι : Type} [DecidableEq ι] (f : κ → ι) (es : List (κ × ν)) (i : ι) :
    lastValue i (((empty : JsMap κ ν).assign es).entries.map fun e => (f e.1, e.2)) =
      (newestKey f i es).bind (lastValue · es) := by
  have hkeys : newestKey f i es =
      (((empty : JsMap κ ν).assign es).entries.filter fun e => f e.1 = i).getLast?.map
        Prod.fst := by
    rw [newestKey, ← keys_assign, List.filter_map, List.getLast?_map]
    rfl
  rw [lastValue_map, hkeys]
  cases hlast : (((empty : JsMap κ ν).assign es).entries.filter fun e => f e.1 = i).getLast? with
  | none => rfl
  | some e =>
    have hget := get_assign empty es e.1
    rw [get_of_mem (List.mem_of_mem_filter (List.mem_of_getLast? hlast)), get_empty,
      Option.or_none] at hget
    exact hget

end JsMap
