import Intellibiz.Db.Template

/-!
# The text of the filter

Where a statement has a `WHERE`, the filter is the replacement string of a regular expression
replacement, in which `$$`, `$&`, `` $` `` and `$'` stand for other text.

* `filled` — what the replacement makes of the tenant id and of the text after it.
* `replaces` — a tenant id that it does not keep.

Principal results: `literal_filled` and `literal_filled_ne` (the literal of the emitted text is
the tenant id exactly if it is kept), `spread_filled` (the replacement adds no mention of `org_id`).
-/

namespace Intellibiz.Db

open Sql Occurrence

/-- The filter up to the value of the tenant id. -/
def opening : Text := "WHERE org_id = '".toList

theorem opening_eq : opening =
    ['W', 'H', 'E', 'R', 'E', ' ', 'o', 'r', 'g', '_', 'i', 'd', ' ', '=', ' ', '\''] := rfl

/-- The mentions of `org_id` in a text. -/
abbrev mentions (l : Text) : Nat := occ Char.toLower "org_id".toList l

/-- In a replacement string the tenant id has one of `$$`, `$&`, `` $` `` and `$'`, the last one
also where it ends with `$` and the closing quote follows. -/
def replaces : Text → Bool
  | [] => false
  | ['$'] => true
  | '$' :: c :: t => c = '$' || c = '&' || c = '`' || c = '\'' || replaces t
  | _ :: t => replaces t

/-- The filter after the tenant id, in front of the rest of the condition. -/
def filterRest : Text := "' AND deleted_at IS NULL AND".toList

/-- The replacement string from the tenant id on, at a match. -/
def filled (before matched after tenantId : Text) : Text :=
  expand before matched after (escape tenantId ++ filterRest)

/-! ## The replacement string -/

section Expand

variable {before matched after : Text}

theorem expand_cons {c : Char} (hc : c ≠ '$') (s : Text) :
    expand before matched after (c :: s) = c :: expand before matched after s :=
  expand.eq_5 before matched after c s (fun _ h _ => hc h) (fun _ h _ => hc h) (fun _ h _ => hc h)
    (fun _ h _ => hc h)

theorem expand_append {a : Text} (ha : '$' ∉ a) (s : Text) :
    expand before matched after (a ++ s) = a ++ expand before matched after s := by
  induction a with
  | nil => rfl
  | cons c a ih =>
    simp only [List.mem_cons, not_or] at ha
    rw [List.cons_append, expand_cons (Ne.symm ha.1), ih ha.2, List.cons_append]

theorem expand_of_not_mem {a : Text} (ha : '$' ∉ a) : expand before matched after a = a := by
  have h := @expand_append before matched after a ha []
  simpa [expand] using h

end Expand

/-- The filter of the source, opened. -/
theorem where_combined (tenantId z : Text) :
    "WHERE ".toList ++ (combined tenantId ++ z) =
      opening ++ (escape tenantId ++ ("' AND deleted_at IS NULL".toList ++ z)) := by
  have hopen : opening = "WHERE ".toList ++ "org_id = '".toList := rfl
  have hrest : "' AND deleted_at IS NULL".toList =
      "'".toList ++ (" AND ".toList ++ softDeleteFilter) := rfl
  rw [hopen, hrest]
  unfold combined tenantFilter
  simp only [List.append_assoc]

/-- The replacement string of the source. -/
theorem expand_filter (before matched after tenantId : Text) :
    expand before matched after ("WHERE ".toList ++ (combined tenantId ++ " AND".toList)) =
      opening ++ filled before matched after tenantId := by
  have hopening : '$' ∉ opening := by decide
  rw [where_combined, expand_append hopening]
  rfl

/-- The characters that a replacement string reads after a `$`. -/
def special : List Char := ['$', '&', '`', '\'']

/-- The sequences of a replacement string in the tenant id, and its other characters. -/
theorem tenant_induction {P : Text → Prop} (nil : P []) (last : P ['$'])
    (dollar : ∀ t, P t → P ('$' :: '$' :: t)) (amp : ∀ t, P t → P ('$' :: '&' :: t))
    (backtick : ∀ t, P t → P ('$' :: '`' :: t)) (quote : ∀ t, P t → P ('$' :: '\'' :: t))
    (other : ∀ c t, c ∉ special → P t → P ('$' :: c :: t)) (double : ∀ t, P t → P ('\'' :: t))
    (plain : ∀ c t, c ≠ '$' → c ≠ '\'' → P t → P (c :: t)) (t : Text) : P t := by
  induction t using replaces.induct with
  | case1 => exact nil
  | case2 => exact last
  | case3 c t ih =>
    by_cases hc : c ∈ special
    · simp only [special, List.mem_cons, List.not_mem_nil, or_false] at hc
      rcases hc with rfl | rfl | rfl | rfl
      · exact dollar t ih
      · exact amp t ih
      · exact backtick t ih
      · exact quote t ih
    · exact other c t hc ih
  | case4 c t hlast hdollar ih =>
    have hc : c ≠ '$' := by
      intro hc
      cases t with
      | nil => exact hlast hc rfl
      | cons d t => exact hdollar d t hc rfl
    by_cases hq : c = '\''
    · subst hq
      exact double t ih
    · exact plain c t hc hq ih

theorem replaces_cons {c : Char} (hc : c ≠ '$') (t : Text) : replaces (c :: t) = replaces t :=
  replaces.eq_4 c t (fun h _ => hc h) (fun _ _ h _ => hc h)

theorem escape_cons {c : Char} (hc : c ≠ '\'') (t : Text) : escape (c :: t) = c :: escape t := by
  simp [escape, hc]

section Filled

variable (before matched after : Text)

theorem filled_nil : filled before matched after [] = filterRest :=
  expand_of_not_mem (by decide)

theorem filled_last : filled before matched after ['$'] =
    after ++ " AND deleted_at IS NULL AND".toList := by
  have hrest : '$' ∉ " AND deleted_at IS NULL AND".toList := by decide
  show after ++ expand before matched after " AND deleted_at IS NULL AND".toList = _
  rw [expand_of_not_mem hrest]

theorem filled_dollar (t : Text) :
    filled before matched after ('$' :: '$' :: t) = '$' :: filled before matched after t := rfl

theorem filled_amp (t : Text) :
    filled before matched after ('$' :: '&' :: t) = matched ++ filled before matched after t := rfl

theorem filled_backtick (t : Text) :
    filled before matched after ('$' :: '`' :: t) = before ++ filled before matched after t := rfl

theorem filled_quote (t : Text) : filled before matched after ('$' :: '\'' :: t) =
    after ++ '\'' :: filled before matched after t := rfl

variable {before matched after}

theorem filled_cons {c : Char} (hc : c ≠ '$') (hq : c ≠ '\'') (t : Text) :
    filled before matched after (c :: t) = c :: filled before matched after t := by
  rw [filled, escape_cons hq, List.cons_append, expand_cons hc, filled]

theorem filled_cons_quote (t : Text) :
    filled before matched after ('\'' :: t) = '\'' :: '\'' :: filled before matched after t := rfl

theorem filled_other {c : Char} (hc : c ∉ special) (t : Text) :
    filled before matched after ('$' :: c :: t) = '$' :: c :: filled before matched after t := by
  simp only [special, List.mem_cons, List.not_mem_nil, or_false, not_or] at hc
  obtain ⟨hd, ha, hb, hq⟩ := hc
  have hstep : expand before matched after ('$' :: c :: (escape t ++ filterRest)) =
      '$' :: expand before matched after (c :: (escape t ++ filterRest)) := by
    rw [expand.eq_5]
    · exact fun _ _ h => hd (List.cons.inj h).1
    · exact fun _ _ h => ha (List.cons.inj h).1
    · exact fun _ _ h => hb (List.cons.inj h).1
    · exact fun _ _ h => hq (List.cons.inj h).1
  rw [filled, escape_cons (by decide), escape_cons hq, List.cons_append, List.cons_append, hstep,
    expand_cons hd, filled]

end Filled

theorem replaces_other {c : Char} (hc : c ∉ special) (t : Text) :
    replaces ('$' :: c :: t) = replaces t := by
  simp only [special, List.mem_cons, List.not_mem_nil, or_false, not_or] at hc
  simp [replaces, hc]

theorem not_special {c : Char} (hc : c ∉ special) : c ≠ '$' ∧ c ≠ '\'' :=
  ⟨fun h => hc (by simp [special, h]), fun h => hc (by simp [special, h])⟩

/-- A tenant id without these sequences is put in verbatim. -/
theorem filled_verbatim {before matched after t : Text} (h : replaces t = false) :
    filled before matched after t = escape t ++ filterRest := by
  induction t using tenant_induction with
  | nil => rw [filled_nil]; rfl
  | last | dollar t | amp t | backtick t | quote t => cases h
  | other c t hc ih =>
    rw [replaces_other hc] at h
    rw [filled_other hc, ih h, escape_cons (by decide), escape_cons (not_special hc).2]
    rfl
  | double t ih =>
    rw [replaces_cons (by decide)] at h
    rw [filled_cons_quote, ih h]
    rfl
  | plain c t hc hq ih =>
    rw [replaces_cons hc] at h
    rw [filled_cons hc hq, ih h, escape_cons hq]
    rfl

/-! ## The match -/

/-- A match of `WHERE` inside a statement without a mention. -/
structure Around (before matched after : Text) : Prop where
  beforeNe : before ≠ []
  beforeHead : ∀ c ∈ before.head?, c ∉ watched
  beforeLast : ∀ c ∈ before.getLast?, isWordChar c = false
  keyword : matched.map Char.toUpper = "WHERE".toList
  afterHead : ∀ c ∈ after.head?, isWordChar c = false
  free : mentions (before ++ (matched ++ after)) = 0

/-- The first and the last letter of the matched keyword. -/
theorem ends_of_where {m : Text} (h : m.map Char.toUpper = "WHERE".toList) :
    ∃ a l e, m = a :: (l ++ [e]) ∧ a.toUpper = 'W' ∧ (e = 'E' ∨ e = 'e') := by
  have hlist : "WHERE".toList = ['W', 'H', 'E', 'R', 'E'] := rfl
  rw [hlist] at h
  rcases m with _ | ⟨a, _ | ⟨b, _ | ⟨c, _ | ⟨d, _ | ⟨e, _ | ⟨f, m⟩⟩⟩⟩⟩⟩ <;>
    simp only [List.map_cons, List.map_nil, List.cons.injEq, reduceCtorEq, and_true,
      and_false] at h
  exact ⟨a, [b, c, d], e, rfl, h.1, of_toUpper_eq h.2.2.2.2⟩

/-! ## The literal of the emitted text -/

/-- A `$` in front of a digit, as in a parameter. -/
def Sealed (after : Text) : Prop :=
  ∀ l, after = '$' :: l → ∃ d l', l = d :: l' ∧ d.isDigit = true

theorem literal_ne_dollar {c : Char} (hc : c ≠ '$') (l q : Text) : literal (c :: l) ≠ '$' :: q := by
  by_cases hq : c = '\''
  · subst hq
    cases l with
    | nil => simp [literal]
    | cons d l =>
      by_cases hd : d = '\''
      · subst hd
        simp [literal]
      · simp [literal_end hd]
  · rw [literal_cons hq]
    exact fun h => hc (List.cons.inj h).1

theorem literal_sealed_ne {after : Text} (ha : Sealed after) {z : Text}
    (hz : ∀ c ∈ z.head?, c ≠ '$') {q : Text} (hq : ∀ d ∈ q.head?, d.isDigit = false) :
    literal (after ++ z) ≠ '$' :: q := by
  cases after with
  | nil =>
    cases z with
    | nil => simp [literal]
    | cons c z => exact literal_ne_dollar (hz c (by simp)) z q
  | cons c l =>
    by_cases hc : c = '$'
    · subst hc
      obtain ⟨d, l, rfl, hd⟩ := ha l rfl
      have hne : d ≠ '\'' := by
        rintro rfl
        cases hd
      rw [List.cons_append, List.cons_append, literal_cons (by decide), literal_cons hne]
      intro h
      have hqd : q = d :: literal (l ++ z) := (List.cons.inj h).2.symm
      have hdig := hq d (by simp [hqd])
      rw [hd] at hdig
      cases hdig
    · exact literal_ne_dollar hc (l ++ z) q

theorem dollars_cons (k : Nat) (r : Text) :
    List.replicate k '$' ++ '$' :: r = '$' :: (List.replicate k '$' ++ r) := by
  induction k with
  | zero => rfl
  | succ k ih => rw [List.replicate_succ, List.cons_append, ih, List.cons_append]

/-- What follows dollars that are dropped is not equal to what follows them in the text. -/
theorem cons_ne_dollars {c : Char} (hc : c ≠ '$') {k : Nat} {b : Bool} {x r : Text}
    (h : 0 < k ∨ b = true) (ih : b = true → x ≠ r) :
    c :: x ≠ List.replicate k '$' ++ c :: r := by
  intro heq
  cases k with
  | zero =>
    have hb : b = true := by simpa using h
    exact ih hb (List.cons.inj heq).2
  | succ k =>
    rw [List.replicate_succ, List.cons_append] at heq
    exact hc (List.cons.inj heq).1

theorem head_dollars {r : Text} (hr : ∀ d ∈ r.head?, d.isDigit = false) (k : Nat) :
    ∀ d ∈ (List.replicate k '$' ++ r).head?, d.isDigit = false := by
  cases k with
  | zero => simpa using hr
  | succ k => simp [List.replicate_succ]

theorem literal_filled {t : Text} (h : replaces t = false) (before matched after : Text) :
    literal (filled before matched after t ++ after) = t := by
  have hrest : filterRest = '\'' :: ' ' :: "AND deleted_at IS NULL AND".toList := rfl
  rw [filled_verbatim h, hrest, List.append_assoc]
  exact literal_escape t (by decide) _

/-- **A tenant id with one of the sequences is not what the emitted text compares with.**  The
induction also counts the dollars that `$$` has dropped so far. -/
theorem literal_filled_ne {before matched after : Text} (haround : Around before matched after)
    (hafter : Sealed after) {t : Text} {k : Nat} (h : 0 < k ∨ replaces t = true) :
    literal (filled before matched after t ++ after) ≠ List.replicate k '$' ++ t := by
  obtain ⟨b, before, rfl⟩ := List.exists_cons_of_ne_nil haround.beforeNe
  obtain ⟨m, matched, e, rfl, hupper, -⟩ := ends_of_where haround.keyword
  have hb : b ≠ '$' := by
    rintro rfl
    exact haround.beforeHead '$' (by simp) (by decide)
  have hm : m ≠ '$' := by
    rintro rfl
    cases hupper
  induction t using tenant_induction generalizing k with
  | nil =>
    have hk : 0 < k := h.resolve_right (by simp [replaces])
    have hlit : literal (filled (b :: before) (m :: (matched ++ [e])) after [] ++ after) = [] := by
      rw [filled_nil]
      exact literal_end (by decide) _
    rw [hlit]
    cases k with
    | zero => omega
    | succ k => simp [List.replicate_succ]
  | last =>
    rw [filled_last, List.append_assoc, dollars_cons]
    exact literal_sealed_ne hafter (by simp) (head_dollars (by simp) k)
  | dollar t ih =>
    rw [dollars_cons, filled_dollar, List.cons_append, literal_cons (by decide), dollars_cons]
    intro heq
    exact ih (.inl (Nat.succ_pos k)) (List.cons.inj heq).2
  | amp t ih =>
    rw [dollars_cons, filled_amp, List.cons_append, List.cons_append]
    exact literal_ne_dollar hm _ _
  | backtick t ih =>
    rw [dollars_cons, filled_backtick, List.cons_append, List.cons_append]
    exact literal_ne_dollar hb _ _
  | quote t ih =>
    rw [dollars_cons, filled_quote, List.append_assoc]
    exact literal_sealed_ne hafter (by simp) (head_dollars (by simp) k)
  | other c t hc ih =>
    obtain ⟨hd, hq⟩ := not_special hc
    rw [replaces_other hc] at h
    rw [dollars_cons, filled_other hc, List.cons_append, List.cons_append,
      literal_cons (by decide), literal_cons hq]
    intro heq
    refine cons_ne_dollars hd h (fun hrep => ?_) (List.cons.inj heq).2
    simpa using ih (k := 0) (.inr hrep)
  | double t ih =>
    rw [replaces_cons (by decide)] at h
    rw [filled_cons_quote, List.cons_append, List.cons_append, literal]
    refine cons_ne_dollars (by decide) h fun hrep => ?_
    simpa using ih (k := 0) (.inr hrep)
  | plain c t hc hq ih =>
    rw [replaces_cons hc] at h
    rw [filled_cons hc hq, List.cons_append, literal_cons hq]
    refine cons_ne_dollars hc h fun hrep => ?_
    simpa using ih (k := 0) (.inr hrep)

/-! ## Mentions in the emitted text -/

theorem wordChar_of_toLower {c : Char} (h : c.toLower ∈ "org_id".toList) : isWordChar c = true := by
  have hmem : ∀ u ∈ ['o', 'r', 'g', '_', 'i', 'd'],
      isWordChar u = true ∧ isWordChar u.toUpper = true := by
    simp [isWordChar]
  rcases of_toLower_eq (u := c.toLower) rfl with hc | hc
  · rw [hc]
    exact (hmem _ h).1
  · rw [hc]
    exact (hmem _ h).2

section Mentions

variable {before matched after : Text}

theorem foreign_of_not_word {c : Char} (h : isWordChar c = false) :
    c.toLower ∉ "org_id".toList := by
  intro hc
  rw [wordChar_of_toLower hc] at h
  cases h

theorem foreign_of_not_watched {c : Char} (h : c ∉ watched) : c.toLower ∉ "org_id".toList :=
  fun hc => h (watched_of_toLower hc)

theorem org_id_ne_nil : "org_id".toList ≠ [] := by decide

theorem Around.parts (h : Around before matched after) :
    mentions before = 0 ∧ mentions matched = 0 ∧ mentions after = 0 := by
  have hfree : occ Char.toLower "org_id".toList (before ++ (matched ++ after)) = 0 := h.free
  have houter := @occ_append_ge _ _ _ Char.toLower "org_id".toList before (matched ++ after)
  have hinner := @occ_append_ge _ _ _ Char.toLower "org_id".toList matched after
  unfold mentions
  omega

theorem Around.foreign_before (h : Around before matched after) :
    Foreign Char.toLower "org_id".toList before :=
  ⟨fun c hc => foreign_of_not_watched (h.beforeHead c hc), h.parts.1⟩

theorem Around.foreign_matched (h : Around before matched after) :
    Foreign Char.toLower "org_id".toList matched ∧
      ∀ c ∈ matched.getLast?, c.toLower ∉ "org_id".toList := by
  obtain ⟨a, l, e, rfl, ha, he⟩ := ends_of_where h.keyword
  have hlower : a = 'W' ∨ a = 'w' := of_toUpper_eq ha
  refine ⟨⟨?_, h.parts.2.1⟩, ?_⟩
  · rcases hlower with rfl | rfl <;> simp
  · rw [← List.cons_append, List.getLast?_concat]
    rcases he with rfl | rfl <;> simp

/-- The text after the match in front of a text that starts with a foreign character. -/
theorem Around.foreign_after (h : Around before matched after) {z : Text}
    (hz : Foreign Char.toLower "org_id".toList z) :
    Foreign Char.toLower "org_id".toList (after ++ z) := by
  refine ⟨fun c hc => ?_, ?_⟩
  · cases after with
    | nil => exact hz.head c hc
    | cons d l => exact foreign_of_not_word (h.afterHead c (by simpa using hc))
  · rw [occ_append_right org_id_ne_nil after hz.head, hz.free]
    exact h.parts.2.2

theorem Around.foreign_rest (h : Around before matched after) :
    Foreign Char.toLower "org_id".toList after := by
  have hnil : Foreign Char.toLower "org_id".toList ([] : Text) := ⟨by simp, rfl⟩
  simpa using h.foreign_after hnil

theorem spread_quote {t r : Text} (h : Spread Char.toLower "org_id".toList t r) :
    Spread Char.toLower "org_id".toList ('\'' :: t) ('\'' :: '\'' :: r) :=
  .replace ['\''] (g := ['\'', '\'']) (by simp) ⟨by simp, by decide⟩ (by simp) h

theorem spread_filled (h : Around before matched after) (t : Text) :
    Spread Char.toLower "org_id".toList t (filled before matched after t ++ after) := by
  induction t using tenant_induction with
  | nil =>
    have hrest : Foreign Char.toLower "org_id".toList (filterRest ++ after) := by
      have hcons : filterRest = '\'' :: " AND deleted_at IS NULL AND".toList := rfl
      refine ⟨by simp [hcons], ?_⟩
      rw [occ_append_right org_id_ne_nil _ h.foreign_rest.head, h.foreign_rest.free]
      decide
    rw [filled_nil]
    exact .stop hrest
  | last =>
    have hrest : Foreign Char.toLower "org_id".toList
        (" AND deleted_at IS NULL AND".toList ++ after) := by
      refine ⟨by simp, ?_⟩
      rw [occ_append_right org_id_ne_nil _ h.foreign_rest.head, h.foreign_rest.free]
      decide
    rw [filled_last, List.append_assoc]
    exact .stop (h.foreign_after hrest)
  | dollar t ih =>
    rw [filled_dollar, List.cons_append]
    exact .replace ['$', '$'] (g := ['$']) (by simp) ⟨by simp, by decide⟩ (by simp) ih
  | amp t ih =>
    rw [filled_amp, List.append_assoc]
    obtain ⟨a, l, e, hm, -⟩ := ends_of_where h.keyword
    have hne : matched ≠ [] := by simp [hm]
    exact .replace ['$', '&'] hne h.foreign_matched.1 h.foreign_matched.2 ih
  | backtick t ih =>
    rw [filled_backtick, List.append_assoc]
    exact .replace ['$', '`'] h.beforeNe h.foreign_before
      (fun c hc => foreign_of_not_word (h.beforeLast c hc)) ih
  | quote t ih =>
    have hquote : Foreign Char.toLower "org_id".toList ['\''] := ⟨by simp, by decide⟩
    have hcut : filled before matched after ('$' :: '\'' :: t) ++ after =
        (after ++ ['\'']) ++ (filled before matched after t ++ after) := by
      rw [filled_quote]
      simp
    rw [hcut]
    exact .replace ['$', '\''] (by simp) (h.foreign_after hquote) (by simp) ih
  | other c t hc ih =>
    rw [filled_other hc, List.cons_append, List.cons_append]
    exact .keep '$' (.keep c ih)
  | double t ih =>
    rw [filled_cons_quote, List.cons_append, List.cons_append]
    exact spread_quote ih
  | plain c t hc hq ih =>
    rw [filled_cons hc hq, List.cons_append]
    exact .keep c ih

theorem spread_escape {z : Text} (hz : Foreign Char.toLower "org_id".toList z) (t : Text) :
    Spread Char.toLower "org_id".toList t (escape t ++ z) := by
  induction t with
  | nil => exact .stop hz
  | cons c t ih =>
    by_cases hq : c = '\''
    · subst hq
      exact spread_quote ih
    · rw [escape_cons hq, List.cons_append]
      exact .keep c ih

/-- The rest of the filter in front of a text without a mention. -/
theorem foreign_filter {z : Text} (hz : mentions z = 0) :
    Foreign Char.toLower "org_id".toList
      ('\'' :: ' ' :: ("AND deleted_at IS NULL ".toList ++ z)) := by
  refine ⟨by simp, ?_⟩
  have hcut : '\'' :: ' ' :: ("AND deleted_at IS NULL ".toList ++ z) =
      "' AND deleted_at IS NULL ".toList ++ z := rfl
  have hlit : occ Char.toLower "org_id".toList "' AND deleted_at IS NULL ".toList = 0 := by decide
  rw [hcut, occ_append_left org_id_ne_nil (by simp), hlit, Nat.zero_add]
  exact hz

end Mentions

end Intellibiz.Db
