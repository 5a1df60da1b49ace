import Intellibiz.Db.Scope

/-!
# The tenant literal of the filter

Whether the injector puts one filter into the text, with a literal that stands for the tenant id.

* `readLiteral` — a string literal read to its closing quote.
* `FilterInserted` — the text with one filter put in, and nothing else changed.
* `kept` — a tenant id that the replacement string keeps, for the text after the match.

Principal results: `filled_eq_iff` (which ids the replacement keeps), `inserted_iff` (one match)
and `filterInserted_iff`.
-/

namespace Intellibiz.Db

open Sql Occurrence

/-! ## Reading a literal -/

/-- The value of a string literal of which the opening quote was read, and the text after its
closing quote; `''` is one quote. -/
def readLiteral : Text → Option (Text × Text)
  | [] => none
  | '\'' :: '\'' :: s => (readLiteral s).map fun (value, rest) => ('\'' :: value, rest)
  | '\'' :: s => some ([], s)
  | c :: s => (readLiteral s).map fun (value, rest) => (c :: value, rest)

theorem readLiteral_cons {c : Char} (hc : c ≠ '\'') (s : Text) :
    readLiteral (c :: s) =
      (readLiteral s).map fun (value, rest) => (c :: value, rest) := by
  rw [readLiteral.eq_4]
  · exact fun _ h _ => hc h
  · exact hc

theorem readLiteral_end {s : Text} (hs : ∀ c ∈ s.head?, c ≠ '\'') :
    readLiteral ('\'' :: s) = some ([], s) := by
  rw [readLiteral.eq_3]
  rintro s' rfl
  exact hs '\'' (by simp) rfl

/-- A literal is its value with the quotes doubled, and the closing quote. -/
theorem eq_of_readLiteral {s value rest : Text} (h : readLiteral s = some (value, rest)) :
    s = escape value ++ '\'' :: rest := by
  induction s using readLiteral.induct generalizing value with
  | case1 => cases h
  | case2 s ih =>
    rw [readLiteral, Option.map_eq_some_iff] at h
    obtain ⟨⟨value', rest'⟩, hread, heq⟩ := h
    cases heq
    rw [ih hread]
    rfl
  | case3 s hs =>
    rw [readLiteral.eq_3 s hs] at h
    cases h
    rfl
  | case4 c s hdouble hc =>
    rename_i ih
    have hc : c ≠ '\'' := fun h => hc h
    rw [readLiteral_cons hc, Option.map_eq_some_iff] at h
    obtain ⟨⟨value', rest'⟩, hread, heq⟩ := h
    cases heq
    rw [ih hread, escape_cons hc, List.cons_append]

theorem readLiteral_escape (value : Text) {rest : Text} (hrest : ∀ c ∈ rest.head?, c ≠ '\'') :
    readLiteral (escape value ++ '\'' :: rest) = some (value, rest) := by
  induction value with
  | nil => exact readLiteral_end hrest
  | cons c value ih =>
    by_cases hc : c = '\''
    · subst hc
      show readLiteral ('\'' :: '\'' :: (escape value ++ '\'' :: rest)) = _
      rw [readLiteral, ih]
      rfl
    · rw [escape_cons hc, List.cons_append, readLiteral_cons hc, ih]
      rfl

example : readLiteral "O''Neil' AND id = $1".toList =
    some ("O'Neil".toList, " AND id = $1".toList) := by decide +kernel

/-! ## The ids that the replacement keeps -/

/-- The text after the match makes up for `k` dollars that `$$` dropped, in front of a `$` that is
read with the quote after it. -/
abbrev makesUp (after : Text) (k : Nat) : Bool :=
  decide (after = List.replicate (k + 1) '$' ++ ['\''])

/-- The replacement string keeps the tenant id, after `k` dollars that `$$` dropped before. -/
def kept (after : Text) : Nat → Text → Bool
  | k, [] => decide (k = 0)
  | k, ['$'] => makesUp after k
  | k, '$' :: c :: t =>
    if c = '$' then kept after (k + 1) t
    else if c = '\'' then makesUp after k && kept after 0 t
    else c ≠ '&' && c ≠ '`' && decide (k = 0) && kept after 0 t
  | k, _ :: t => decide (k = 0) && kept after 0 t

theorem kept_cons {after : Text} {c : Char} (hc : c ≠ '$') (k : Nat) (t : Text) :
    kept after k (c :: t) = (decide (k = 0) && kept after 0 t) :=
  kept.eq_4 after k c t (fun h _ => hc h) (fun _ _ h _ => hc h)

theorem kept_other {after : Text} {c : Char} (hc : c ∉ special) (k : Nat) (t : Text) :
    kept after k ('$' :: c :: t) = (decide (k = 0) && kept after 0 t) := by
  simp only [special, List.mem_cons, List.not_mem_nil, or_false, not_or] at hc
  simp [kept, hc]

/-- Where the text after the match is not a run of dollars and a quote, an id is kept exactly if it
has none of the sequences. -/
theorem kept_eq_not_replaces {after : Text}
    (hafter : ∀ k, after ≠ List.replicate (k + 1) '$' ++ ['\'']) (t : Text) :
    kept after 0 t = !replaces t := by
  have hnone : ∀ k, makesUp after k = false := fun k => decide_eq_false (hafter k)
  have hdropped : ∀ (k : Nat) (t : Text), kept after (k + 1) t = false := by
    intro k t
    induction t using tenant_induction generalizing k with
    | nil => rfl
    | last => exact hnone (k + 1)
    | dollar t ih => exact ih (k + 1)
    | quote t ih => simp [kept, hnone]
    | amp t | backtick t | other c t hc | double t | plain c t hc hq => simp [kept, *]
  induction t using tenant_induction with
  | nil => rfl
  | last => exact hnone 0
  | dollar t ih => exact hdropped 0 t
  | amp t | backtick t => rfl
  | quote t ih => simp [kept, hnone, replaces]
  | other c t hc ih =>
    rw [kept_other hc, replaces_other hc, ih]
    rfl
  | double t ih =>
    rw [kept_cons (by decide), replaces_cons (by decide), ih]
    rfl
  | plain c t hc hq ih =>
    rw [kept_cons hc, replaces_cons hc, ih]
    rfl

section Filled

variable {before matched after : Text}

/-- With a quote after the match, the replacement drops none of the quotes. -/
theorem count_quote_filled (hafter : 1 ≤ after.count '\'') (t : Text) :
    (escape t ++ filterRest).count '\'' ≤ (filled before matched after t).count '\'' := by
  have hlead : ∀ (l r : Text), r.count '\'' ≤ (l ++ r).count '\'' := by
    intro l r
    rw [List.count_append]
    omega
  induction t using tenant_induction with
  | nil => rw [filled_nil]; exact Nat.le_refl _
  | last =>
    have hone : (escape ['$'] ++ filterRest).count '\'' = 1 := by decide
    rw [hone, filled_last, List.count_append]
    omega
  | dollar t ih =>
    rw [filled_dollar]
    simpa [escape] using ih
  | amp t ih =>
    rw [filled_amp]
    refine Nat.le_trans ?_ (hlead matched _)
    simpa [escape] using ih
  | backtick t ih =>
    rw [filled_backtick]
    refine Nat.le_trans ?_ (hlead before _)
    simpa [escape] using ih
  | quote t ih =>
    have hpair : escape ('$' :: '\'' :: t) = '$' :: '\'' :: '\'' :: escape t := rfl
    rw [filled_quote, hpair]
    simp only [List.cons_append, List.count_append, List.count_cons] at ih ⊢
    simp
    omega
  | other c t hc ih =>
    obtain ⟨hd, hq⟩ := not_special hc
    rw [filled_other hc, escape_cons (by decide), escape_cons hq]
    simpa [hq] using ih
  | double t ih =>
    have hpair : escape ('\'' :: t) = '\'' :: '\'' :: escape t := rfl
    rw [filled_cons_quote, hpair]
    simpa using ih
  | plain c t hc hq ih =>
    rw [filled_cons hc hq, escape_cons hq]
    simpa [hq] using ih

/-- The replacement starts with no quote where the text after the match starts with a dollar. -/
theorem filled_ne_quote (haround : Around before matched after) (hquote : before.head? ≠ some '\'')
    {rest : Text} (hafter : after = '$' :: rest) (t : Text) :
    filled before matched after t ≠ '\'' :: (escape t ++ filterRest) := by
  obtain ⟨b, before, rfl⟩ := List.exists_cons_of_ne_nil haround.beforeNe
  obtain ⟨m, matched, e, rfl, hupper, -⟩ := ends_of_where haround.keyword
  have hb : b ≠ '\'' := by simpa using hquote
  have hm : m ≠ '\'' := by
    rintro rfl
    cases hupper
  intro h
  induction t using tenant_induction with
  | nil =>
    rw [filled_nil] at h
    revert h
    decide
  | last =>
    rw [filled_last, hafter] at h
    exact absurd (List.cons.inj h).1 (by decide)
  | dollar t ih =>
    rw [filled_dollar] at h
    exact absurd (List.cons.inj h).1 (by decide)
  | amp t ih =>
    rw [filled_amp, List.cons_append] at h
    exact hm (List.cons.inj h).1
  | backtick t ih =>
    rw [filled_backtick, List.cons_append] at h
    exact hb (List.cons.inj h).1
  | quote t ih =>
    rw [filled_quote, hafter] at h
    exact absurd (List.cons.inj h).1 (by decide)
  | other c t hc ih =>
    rw [filled_other hc] at h
    exact absurd (List.cons.inj h).1 (by decide)
  | double t ih =>
    rw [filled_cons_quote] at h
    exact ih (List.cons.inj (List.cons.inj h).2).2
  | plain c t hc hq ih =>
    rw [filled_cons hc hq] at h
    exact hq (List.cons.inj h).1

theorem cons_eq_dollars {c : Char} (hc : c ≠ '$') {k : Nat} {x r : Text} :
    c :: x = List.replicate k '$' ++ c :: r ↔ k = 0 ∧ x = r := by
  cases k with
  | zero => simp
  | succ k => simp [List.replicate_succ, hc]

/-- What `$'` puts in is the sequence itself, quote doubled, after `k` dollars that are missing. -/
theorem quote_made_up (haround : Around before matched after)
    (hquote : before.head? ≠ some '\'') (k : Nat) (t : Text) :
    after ++ '\'' :: filled before matched after t =
        List.replicate (k + 1) '$' ++ '\'' :: '\'' :: (escape t ++ filterRest) ↔
      after = List.replicate (k + 1) '$' ++ ['\''] ∧
        filled before matched after t = escape t ++ filterRest := by
  have hstart : ∀ {rest}, List.replicate (k + 1) '$' = rest →
      rest = '$' :: List.replicate k '$' := fun h => by rw [← h, List.replicate_succ]
  constructor
  · intro h
    rcases List.append_eq_append_iff.1 h with ⟨d, hd, hfill⟩ | ⟨d, hd, hfill⟩
    · -- `after` is a run of dollars
      cases d with
      | nil =>
        have hafter : after = '$' :: List.replicate k '$' := hstart (by simpa using hd)
        exact absurd (List.cons.inj hfill).2 (filled_ne_quote haround hquote hafter t)
      | cons c d =>
        have hc : c ∈ List.replicate (k + 1) '$' := by
          rw [hd]
          simp
        obtain rfl := List.eq_of_mem_replicate hc
        exact absurd (List.cons.inj hfill).1 (by decide)
    · rcases d with _ | ⟨c, _ | ⟨c', d⟩⟩
      · have hafter : after = '$' :: List.replicate k '$' := hstart (by simpa using hd.symm)
        exact absurd (List.cons.inj hfill).2.symm (filled_ne_quote haround hquote hafter t)
      · obtain ⟨rfl, hrest⟩ := List.cons.inj hfill
        exact ⟨hd, (List.cons.inj hrest).2.symm⟩
      · -- the quotes after the match are more than the doubled one
        obtain ⟨rfl, htail⟩ := List.cons.inj hfill
        obtain ⟨rfl, hmore⟩ := List.cons.inj htail
        have hone : 1 ≤ after.count '\'' := by
          rw [hd, List.count_append, List.count_cons_self]
          omega
        have hle := @count_quote_filled before matched after hone t
        have hcount : (escape t ++ filterRest).count '\'' =
            d.count '\'' + ((filled before matched after t).count '\'' + 1) := by
          have hsplit : escape t ++ filterRest = d ++ '\'' :: filled before matched after t := hmore
          rw [hsplit, List.count_append, List.count_cons_self]
        omega
  · rintro ⟨hafter, hfill⟩
    rw [hfill]
    nth_rewrite 1 [hafter]
    simp

/-- **The ids that the replacement puts in verbatim.**  The induction also counts the dollars that
`$$` has dropped so far. -/
theorem filled_eq_iff (haround : Around before matched after)
    (hquote : before.head? ≠ some '\'') (t : Text) (k : Nat) :
    filled before matched after t = List.replicate k '$' ++ (escape t ++ filterRest) ↔
      kept after k t = true := by
  obtain ⟨b, before, rfl⟩ := List.exists_cons_of_ne_nil haround.beforeNe
  obtain ⟨m, matched, e, rfl, hupper, -⟩ := ends_of_where haround.keyword
  have hb : b ≠ '$' := by
    rintro rfl
    exact haround.beforeHead '$' (by simp) (by decide)
  have hm : m ≠ '$' := by
    rintro rfl
    cases hupper
  induction t using tenant_induction generalizing k with
  | nil =>
    rw [filled_nil]
    cases k with
    | zero => exact iff_of_true rfl rfl
    | succ k =>
      refine iff_of_false (fun h => ?_) (by simp [kept])
      rw [List.replicate_succ] at h
      exact absurd (List.cons.inj h).1 (by decide)
  | last =>
    have hlast : List.replicate k '$' ++ (escape ['$'] ++ filterRest) =
        (List.replicate (k + 1) '$' ++ ['\'']) ++ " AND deleted_at IS NULL AND".toList := by
      have hrest : escape ['$'] ++ filterRest =
          '$' :: (['\''] ++ " AND deleted_at IS NULL AND".toList) := rfl
      rw [hrest, dollars_cons, List.replicate_succ]
      simp only [List.cons_append, List.append_assoc]
    rw [filled_last, hlast, List.append_left_inj]
    simp [kept, makesUp]
  | dollar t ih =>
    have hpair : escape ('$' :: '$' :: t) ++ filterRest =
        '$' :: '$' :: (escape t ++ filterRest) := rfl
    have hdropped : '$' :: (List.replicate k '$' ++ (escape t ++ filterRest)) =
        List.replicate (k + 1) '$' ++ (escape t ++ filterRest) := rfl
    rw [filled_dollar, hpair, dollars_cons, List.cons_inj_right, dollars_cons, hdropped]
    exact (ih (k + 1)).trans (by simp [kept])
  | amp t ih =>
    have hpair : escape ('$' :: '&' :: t) ++ filterRest =
        '$' :: '&' :: (escape t ++ filterRest) := rfl
    rw [filled_amp, hpair, dollars_cons, List.cons_append]
    simp [kept, hm]
  | backtick t ih =>
    have hpair : escape ('$' :: '`' :: t) ++ filterRest =
        '$' :: '`' :: (escape t ++ filterRest) := rfl
    rw [filled_backtick, hpair, dollars_cons, List.cons_append]
    simp [kept, hb]
  | quote t ih =>
    have hpair : escape ('$' :: '\'' :: t) ++ filterRest =
        '$' :: '\'' :: '\'' :: (escape t ++ filterRest) := rfl
    have hmade := quote_made_up haround hquote k t
    rw [List.replicate_succ, List.cons_append] at hmade
    rw [filled_quote, hpair, dollars_cons, hmade]
    refine (and_congr_right fun _ => ih 0).trans ?_
    simp [kept, makesUp, List.replicate_succ]
  | other c t hc ih =>
    obtain ⟨hd, hq⟩ := not_special hc
    rw [filled_other hc, kept_other hc, escape_cons (by decide), escape_cons hq, List.cons_append,
      List.cons_append, dollars_cons, List.cons_inj_right, cons_eq_dollars hd]
    exact (and_congr_right fun _ => ih 0).trans (by simp)
  | double t ih =>
    have hpair : escape ('\'' :: t) ++ filterRest = '\'' :: '\'' :: (escape t ++ filterRest) := rfl
    rw [filled_cons_quote, hpair, kept_cons (by decide), cons_eq_dollars (by decide),
      List.cons_inj_right]
    exact (and_congr_right fun _ => ih 0).trans (by simp)
  | plain c t hc hq ih =>
    rw [filled_cons hc hq, kept_cons hc, escape_cons hq, List.cons_append, cons_eq_dollars hc]
    exact (and_congr_right fun _ => ih 0).trans (by simp)

end Filled

/-! ## One filter put in -/

/-- What the filter has in front of ` org_id = '...'` and behind it: at a `WHERE`, in front of
another clause, at the end. -/
def filterShapes : List (Text × Text) :=
  [([], " AND deleted_at IS NULL AND".toList),
    ("WHERE".toList, " AND deleted_at IS NULL ".toList),
    (" WHERE".toList, " AND deleted_at IS NULL".toList)]

def valueOpening : Text := " org_id = '".toList

/-- The emitted text is `q` with one filter of a fixed shape put in at one place, and the literal of
the filter is read as `t` and ends at the filter's closing quote. -/
def FilterInserted (q t emitted : Text) : Prop :=
  ∃ shape ∈ filterShapes, ∃ x y body : Text, q = x ++ y ∧
    emitted = x ++ (shape.1 ++ (valueOpening ++ (body ++ '\'' :: (shape.2 ++ y)))) ∧
    readLiteral (body ++ '\'' :: (shape.2 ++ y)) = some (t, shape.2 ++ y)

/-- The literal is the tenant id with its quotes doubled. -/
theorem filterInserted_iff_escape {q t emitted : Text} :
    FilterInserted q t emitted ↔ ∃ shape ∈ filterShapes, ∃ x y : Text, q = x ++ y ∧
      emitted = x ++ (shape.1 ++ (valueOpening ++ (escape t ++ '\'' :: (shape.2 ++ y)))) := by
  constructor
  · rintro ⟨shape, hshape, x, y, body, hq, hemitted, hread⟩
    rw [eq_of_readLiteral hread] at hemitted
    exact ⟨shape, hshape, x, y, hq, hemitted⟩
  · rintro ⟨shape, hshape, x, y, hq, hemitted⟩
    refine ⟨shape, hshape, x, y, escape t, hq, hemitted, ?_⟩
    apply readLiteral_escape
    have hhead : ∀ shape ∈ filterShapes, ∃ l, shape.2 = ' ' :: l := by
      simp [filterShapes]
    obtain ⟨l, hl⟩ := hhead shape hshape
    rw [hl]
    simp

/-- Where the text in front has no mention, the filter starts at one place only. -/
theorem opening_ne_later {a d u v : Text} (hfree : mentions (a ++ d) = 0) (hd : d ≠ []) :
    valueOpening ++ u ≠ d ++ (valueOpening ++ v) := by
  intro h
  have hopen : valueOpening = ' ' :: ("org_id".toList ++ " = '".toList) := rfl
  rw [hopen] at h
  cases d with
  | nil => exact hd rfl
  | cons c d =>
    have hrest : "org_id".toList ++ (" = '".toList ++ u) =
        d ++ ' ' :: ("org_id".toList ++ " = '".toList ++ v) := by
      rw [← List.append_assoc]
      exact (List.cons.inj h).2
    have hpre : "org_id".toList <+: d := by
      apply @prefix_before _ "org_id".toList d _ ' ' (by decide)
      rw [← hrest]
      apply List.prefix_append
    obtain ⟨w, rfl⟩ := hpre
    have hone : occ Char.toLower "org_id".toList "org_id".toList = 1 := by decide
    have hle := @occ_le_append_left _ _ _ Char.toLower "org_id".toList "org_id".toList w
    have hle' := @occ_le_append_right _ _ _ Char.toLower "org_id".toList (a ++ [c])
      ("org_id".toList ++ w)
    rw [List.append_assoc, List.singleton_append] at hle'
    unfold mentions at hfree
    omega

theorem opening_place {a b u v : Text} (ha : mentions a = 0) (hb : mentions b = 0)
    (h : a ++ (valueOpening ++ u) = b ++ (valueOpening ++ v)) : a = b ∧ u = v := by
  have hsame : ∀ {a b d u v : Text}, mentions b = 0 → b = a ++ d →
      valueOpening ++ u = d ++ (valueOpening ++ v) → a = b ∧ u = v := by
    intro a b d u v hb hd hrest
    rw [hd] at hb
    have hnil : d = [] := by
      by_contra hne
      exact opening_ne_later hb hne hrest
    subst hnil
    exact ⟨by simpa using hd.symm, List.append_cancel_left hrest⟩
  rcases List.append_eq_append_iff.1 h with ⟨d, hd, hrest⟩ | ⟨d, hd, hrest⟩
  · exact hsame hb hd hrest
  · obtain ⟨hab, huv⟩ := hsame ha hd hrest
    exact ⟨hab.symm, huv.symm⟩

theorem filled_suffix (before matched after t : Text) :
    " AND deleted_at IS NULL AND".toList <:+ filled before matched after t := by
  induction t using tenant_induction with
  | nil =>
    rw [filled_nil]
    exact ⟨['\''], rfl⟩
  | last =>
    rw [filled_last]
    apply List.suffix_append
  | dollar t ih =>
    rw [filled_dollar]
    exact ih.trans (List.suffix_cons _ _)
  | amp t ih =>
    rw [filled_amp]
    exact ih.trans (List.suffix_append _ _)
  | backtick t ih =>
    rw [filled_backtick]
    exact ih.trans (List.suffix_append _ _)
  | quote t ih =>
    rw [filled_quote]
    exact (ih.trans (List.suffix_cons _ _)).trans (List.suffix_append _ _)
  | other c t hc ih =>
    rw [filled_other hc]
    exact (ih.trans (List.suffix_cons _ _)).trans (List.suffix_cons _ _)
  | double t ih =>
    rw [filled_cons_quote]
    exact (ih.trans (List.suffix_cons _ _)).trans (List.suffix_cons _ _)
  | plain c t hc hq ih =>
    rw [filled_cons hc hq]
    exact ih.trans (List.suffix_cons _ _)

/-- The replacement does not end with the keyword. -/
theorem filled_ne_keyword {kw : Text} (hkw : kw.map Char.toUpper = "WHERE".toList)
    (before matched after t z : Text) : filled before matched after t ≠ z ++ kw := by
  intro h
  obtain ⟨l, hl⟩ := filled_suffix before matched after t
  obtain ⟨a, m, e, rfl, -, he⟩ := ends_of_where hkw
  have hcut : " AND deleted_at IS NULL AND".toList = " AND deleted_at IS NULL AN".toList ++ ['D'] :=
    rfl
  have hends : (l ++ " AND deleted_at IS NULL AN".toList) ++ ['D'] = (z ++ a :: m) ++ [e] := by
    rw [List.append_assoc, ← hcut, hl, h]
    simp
  have hlast : 'D' = e := by simpa using (List.append_inj' hends rfl).2
  rw [← hlast] at he
  revert he
  decide

theorem Around.quiet_where {before matched after : Text} (h : Around before matched after) :
    mentions (before ++ "WHERE".toList) = 0 := by
  have hone : occ Char.toLower "org_id".toList "WHERE".toList = 0 := by decide
  unfold mentions
  rw [occ_append_right org_id_ne_nil before (by simp), hone]
  exact h.parts.1

theorem quiet_of_shape {shape : Text × Text} (hshape : shape ∈ filterShapes) :
    (∀ c ∈ shape.1.head?, c.toLower ∉ "org_id".toList) ∧ mentions shape.1 = 0 := by
  simp only [filterShapes, List.mem_cons, List.not_mem_nil, or_false] at hshape
  rcases hshape with rfl | rfl | rfl
  · exact ⟨by simp, rfl⟩
  · exact ⟨by simp, by decide⟩
  · exact ⟨by simp, by decide⟩

/-- The injected text at a match of `WHERE`, read as an insertion into a text with this keyword. -/
theorem inserted_iff {before kw matched after : Text} (hkw : Around before kw after)
    (hmatch : Around before matched after) (hquote : before.head? ≠ some '\'') (t : Text) :
    FilterInserted (before ++ (kw ++ after)) t
        (before ++ ((opening ++ filled before matched after t) ++ after)) ↔
      kw = "WHERE".toList ∧ kept after 0 t = true := by
  have hemit : before ++ ((opening ++ filled before matched after t) ++ after) =
      (before ++ "WHERE".toList) ++ (valueOpening ++ (filled before matched after t ++ after)) := by
    have hopen : opening = "WHERE".toList ++ valueOpening := rfl
    rw [hopen]
    simp only [List.append_assoc]
  have hkept := filled_eq_iff hmatch hquote t 0
  rw [List.replicate_zero, List.nil_append] at hkept
  have hclose : ∀ close y : Text, escape t ++ '\'' :: (close ++ y) =
      (escape t ++ '\'' :: close) ++ y := by simp
  rw [filterInserted_iff_escape, hemit]
  constructor
  · rintro ⟨shape, hshape, x, y, hq, hemitted⟩
    have hx : mentions x = 0 := by
      have hfree : occ Char.toLower "org_id".toList (x ++ y) = 0 := hq ▸ hkw.free
      have hle := @occ_le_append_left _ _ _ Char.toLower "org_id".toList x y
      unfold mentions
      omega
    have hlead : mentions (x ++ shape.1) = 0 := by
      obtain ⟨hhead, hfree⟩ := quiet_of_shape hshape
      unfold mentions at hx hfree ⊢
      rw [occ_append_right org_id_ne_nil x hhead, hx, hfree]
    rw [← List.append_assoc x] at hemitted
    obtain ⟨hplace, hrest⟩ := opening_place hmatch.quiet_where hlead hemitted
    simp only [filterShapes, List.mem_cons, List.not_mem_nil, or_false] at hshape
    rcases hshape with rfl | rfl | rfl
    · -- the filter stands behind the keyword
      rw [List.append_nil] at hplace
      subst hplace
      rw [List.append_assoc] at hq
      have hlen : kw.length = "WHERE".toList.length := by
        rw [← hkw.keyword, List.length_map]
      obtain ⟨rfl, rfl⟩ := List.append_inj (List.append_cancel_left hq) hlen
      refine ⟨rfl, hkept.1 ?_⟩
      rw [hclose] at hrest
      exact List.append_cancel_right hrest
    · -- in front of it: then the keyword would end the replacement
      obtain rfl := List.append_cancel_right hplace
      obtain rfl := List.append_cancel_left hq
      rw [hclose, ← List.append_assoc] at hrest
      exact absurd (List.append_cancel_right hrest) (filled_ne_keyword hkw.keyword _ _ _ _ _)
    · have hspace : " WHERE".toList = [' '] ++ "WHERE".toList := rfl
      rw [hspace, ← List.append_assoc] at hplace
      obtain rfl := List.append_cancel_right hplace
      rw [List.append_assoc] at hq
      obtain rfl := List.append_cancel_left hq
      rw [hclose, ← List.append_assoc, ← List.append_assoc] at hrest
      exact absurd (List.append_cancel_right hrest) (filled_ne_keyword hkw.keyword _ _ _ _ _)
  · rintro ⟨rfl, hk⟩
    refine ⟨_, List.mem_cons_self, before ++ "WHERE".toList, after, ?_, ?_⟩
    · rw [List.append_assoc]
    · have hrest : filterRest = '\'' :: " AND deleted_at IS NULL AND".toList := rfl
      rw [hkept.2 hk, hrest, ← hclose, List.append_assoc]
      simp only [List.append_assoc, List.nil_append]

/-- The same text with the keyword in capitals. -/
theorem Around.capitals {before matched after : Text} (h : Around before matched after) :
    Around before "WHERE".toList after := by
  refine ⟨h.beforeNe, h.beforeHead, h.beforeLast, by decide, h.afterHead, ?_⟩
  have hafter : ∀ c ∈ after.head?, c.toLower ∉ "org_id".toList := fun c hc =>
    foreign_of_not_word (h.afterHead c hc)
  have hwhere : occ Char.toLower "org_id".toList (before ++ "WHERE".toList) = 0 := h.quiet_where
  have hrest : occ Char.toLower "org_id".toList after = 0 := h.parts.2.2
  unfold mentions
  rw [← List.append_assoc, occ_append_right org_id_ne_nil _ hafter, hwhere, hrest]

/-! ## What the injector emits -/

section Emitted

variable {q before matched after : Text} (hsel : isSelect q = true)
  (horg : mentionsOrgId q = false) (t : Text)

include hsel in
theorem head_ne_quote (hq : q = before ++ (matched ++ after)) (hne : before ≠ []) :
    before.head? ≠ some '\'' := by
  obtain ⟨b, before, rfl⟩ := List.exists_cons_of_ne_nil hne
  intro hhead
  obtain rfl : b = '\'' := by simpa using hhead
  have hspace : isJsSpace '\'' = false := by simp [isJsSpace]
  rw [hq, List.cons_append, not_select_of_head hspace (by decide)] at hsel
  cases hsel

include hsel horg

theorem inserted_of_where (hw : exec whereKeyword q = some (before, matched, after)) :
    (FilterInserted q t (injectFilters q t) ↔
      matched = "WHERE".toList ∧ kept after 0 t = true) ∧
    (FilterInserted (before ++ ("WHERE".toList ++ after)) t (injectFilters q t) ↔
      kept after 0 t = true) := by
  have hmatch := around_where hsel horg hw
  have hq : q = before ++ (matched ++ after) := (execFrom_spec hw).1
  have hquote := head_ne_quote hsel hq hmatch.beforeNe
  rw [injectFilters_of_where hsel horg t hw, expand_filter]
  constructor
  · rw [← inserted_iff hmatch hmatch hquote t, ← hq]
  · rw [inserted_iff hmatch.capitals hmatch hquote t]
    exact and_iff_right rfl

theorem inserted_of_clause (hw : exec whereKeyword q = none)
    (hc : exec clauseKeywords q = some (before, matched, after)) :
    FilterInserted q t (injectFilters q t) := by
  rw [injectFilters_of_clause hsel horg t hw hc, filterInserted_iff_escape]
  refine ⟨("WHERE".toList, " AND deleted_at IS NULL ".toList), by simp [filterShapes], before,
    matched ++ after, (execFrom_spec hc).1, ?_⟩
  have hopen : opening = "WHERE".toList ++ valueOpening := rfl
  rw [where_combined, hopen]
  simp only [List.append_assoc]
  rfl

theorem inserted_of_end (hw : exec whereKeyword q = none) (hc : exec clauseKeywords q = none) :
    FilterInserted q t (injectFilters q t) := by
  rw [injectFilters_of_end hsel horg t hw hc, filterInserted_iff_escape]
  refine ⟨(" WHERE".toList, " AND deleted_at IS NULL".toList), by simp [filterShapes], q, [],
    (List.append_nil q).symm, ?_⟩
  unfold combined tenantFilter
  simp only [List.append_assoc]
  rfl

/-- **The injector puts in one filter with the tenant's literal exactly if** it finds no `WHERE`, or
finds it in capitals and the tenant id is one that the replacement string keeps.  The second part
reads the text with the keyword in capitals, as the injector writes it; the third says which ids are
kept, where the text after the keyword is not a run of dollars and a quote. -/
theorem filterInserted_iff :
    (FilterInserted q t (injectFilters q t) ↔
      ∀ before matched after, exec whereKeyword q = some (before, matched, after) →
        matched = "WHERE".toList ∧ kept after 0 t = true) ∧
    ∀ before matched after, exec whereKeyword q = some (before, matched, after) →
      (FilterInserted (before ++ ("WHERE".toList ++ after)) t (injectFilters q t) ↔
        kept after 0 t = true) ∧
      ((∀ k, after ≠ List.replicate (k + 1) '$' ++ ['\'']) →
        (kept after 0 t = true ↔ replaces t = false)) := by
  refine ⟨?_, fun before matched after hw => ⟨(inserted_of_where hsel horg t hw).2, ?_⟩⟩
  · cases hw : exec whereKeyword q with
    | none =>
      refine iff_of_true ?_ (by simp)
      cases hc : exec clauseKeywords q with
      | none => exact inserted_of_end hsel horg t hw hc
      | some found => exact inserted_of_clause hsel horg t hw hc
    | some found =>
      obtain ⟨before, matched, after⟩ := found
      rw [(inserted_of_where hsel horg t hw).1]
      constructor
      · intro h _ _ _ heq
        cases heq
        exact h
      · intro h
        exact h before matched after rfl
  · intro hafter
    rw [kept_eq_not_replaces hafter]
    simp

end Emitted

def byId : Text := "SELECT * FROM orders WHERE id = $1".toList

theorem filterInserted_iff_byId :
    (isSelect byId = true ∧ mentionsOrgId byId = false) ∧
      (FilterInserted byId "o'brien".toList (injectFilters byId "o'brien".toList) ↔
        ∀ before matched after, exec whereKeyword byId = some (before, matched, after) →
          matched = "WHERE".toList ∧ kept after 0 "o'brien".toList = true) :=
  ⟨⟨by decide, by decide⟩, (filterInserted_iff (by decide) (by decide) _).1⟩

/-- **A tenant id with `$&`.**  The literal has the keyword in place of the two characters. -/
theorem ampersand_not_inserted :
    isSelect byId = true ∧ mentionsOrgId byId = false ∧
      injectFilters byId "a$&b".toList = ("SELECT * FROM orders WHERE org_id = 'aWHEREb' " ++
        "AND deleted_at IS NULL AND id = $1").toList ∧
      ¬ FilterInserted byId "a$&b".toList (injectFilters byId "a$&b".toList) := by
  have hsel : isSelect byId = true := by decide
  have horg : mentionsOrgId byId = false := by decide
  have hw : exec whereKeyword byId =
      some ("SELECT * FROM orders ".toList, "WHERE".toList, " id = $1".toList) := by decide
  refine ⟨hsel, horg, by decide, fun h => ?_⟩
  have hkept := ((inserted_of_where hsel horg _ hw).1.1 h).2
  revert hkept
  decide

end Intellibiz.Db
