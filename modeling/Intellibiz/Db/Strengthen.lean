import Intellibiz.Db.Scope
import Intellibiz.Sql.Condition

/-!
# The condition of the emitted text

The injector puts `org_id = '...' AND deleted_at IS NULL AND` in front of the text of a condition.
Read with the precedence of SQL, that joins the filter to the first operand of a top-level `OR`
and leaves the other operands as they are.

* `Strengthens` — the emitted condition holds of the tenant's rows that satisfy the condition.
* `Inserts` — the injector puts the filter at the `WHERE` of the clause.

Principal results: `parse_filter` (the emitted condition), `strengthens_inserted`,
`strengthens_same` and `strengthened_iff`.
-/

namespace Intellibiz.Db

open Sql Occurrence

/-- The names of the columns of the filter. -/
def orgIdColumn : List Char := "org_id".toList

def deletedAtColumn : List Char := "deleted_at".toList

/-- The filter joined to a condition. -/
def filtered (t : Text) (c : Cond) : Cond :=
  .and (.compare .eq (.column orgIdColumn) (.const (.text t)))
    (.and (.isNull (.column deletedAtColumn)) c)

/-- A row of the tenant that is not deleted. -/
def Visible (t : Text) (row : Row) : Prop :=
  row orgIdColumn = .text t ∧ row deletedAtColumn = .null

theorem holds_filtered {env : Env} {t : Text} {c : Cond} {row : Row} :
    (filtered t c).Holds env row ↔ Visible t row ∧ c.Holds env row := by
  unfold filtered Visible
  rw [holds_and, holds_and, holds_eq_text, holds_isNull, and_assoc]
  rfl

/-- The condition of the text holds of the rows of the tenant of which `c` holds. -/
def Strengthens (env : Env) (t text : Text) (c : Cond) : Prop :=
  ∃ sel, (tokens text).bind parseSelect = some sel ∧
    ∀ row, sel.cond.Holds env row ↔ Visible t row ∧ c.Holds env row

/-! ## The emitted condition -/

/-- The tokens of the filter up to the condition that follows it. -/
def filterCond (t : Text) : List Token :=
  [.word orgId, .sym '=', .str t, .word "AND".toList, .word "DELETED_AT".toList,
    .word "IS".toList, .word "NULL".toList, .word "AND".toList]

theorem parse_and_filter {t : Text} {rest mid : List Token} {a : Cond}
    (h : parse .and rest = some (a, mid)) :
    parse .and (filterCond t ++ rest) = some (filtered t a, mid) := by
  have hdeleted : parse .and (.word "DELETED_AT".toList :: .word "IS".toList ::
      .word "NULL".toList :: .word "AND".toList :: rest) =
      some (.and (.isNull (.column deletedAtColumn)) a, mid) :=
    parse_and_cons rfl rfl rfl h
  exact parse_and_cons rfl rfl rfl hdeleted

/-- **The filter is joined to the first operand of the top-level `OR`.** -/
theorem parse_filter {t : Text} {rest tail : List Token} {c : Cond}
    (h : parse .or rest = some (c, tail)) :
    parse .or (filterCond t ++ rest) = some (c.mapFirst (filtered t), tail) :=
  parse_or_mapFirst (fun _ _ ha => parse_and_filter ha) h

example : (tokens "a = $1 OR b = $2".toList).bind
    (fun rest => parse .or (filterCond "t".toList ++ rest)) =
      some (.or (filtered "t".toList (.compare .eq (.column ['a']) (.param ['1'])))
        (.compare .eq (.column ['b']) (.param ['2'])), []) := by decide +kernel

section Rows

variable {env : Env} {t : Text} {c : Cond}

/-- The row with another value in the column of the tenant. -/
def ofTenant (row : Row) (v : Value) : Row := fun name => if name = orgIdColumn then v else row name

theorem holds_ofTenant (hcol : orgIdColumn ∉ c.columns) {row : Row} (h : c.Holds env row) (v : Value) :
    c.Holds env (ofTenant row v) := by
  refine (Cond.eval_congr fun name hname => ?_).trans h
  have hne : name ≠ orgIdColumn := by
    rintro rfl
    exact hcol hname
  simp [ofTenant, hne]

/-- A condition that does not name the column and holds of visible rows only holds of none. -/
theorem unsat_of_visible (hcol : orgIdColumn ∉ c.columns)
    (h : ∀ row, c.Holds env row → Visible t row) (row : Row) : ¬ c.Holds env row := by
  intro hc
  have hvis := h _ (holds_ofTenant hcol hc .null)
  have htenant := hvis.1
  simp [ofTenant] at htenant

theorem mapFirst_iff (hcol : orgIdColumn ∉ c.columns) :
    (∀ row, (c.mapFirst (filtered t)).Holds env row ↔ Visible t row ∧ c.Holds env row) ↔
      ∀ b ∈ c.later, ∀ row, ¬ b.Holds env row := by
  cases c with
  | or a b =>
    have hb : orgIdColumn ∉ b.columns := fun hmem => hcol (by simp [Cond.columns, hmem])
    simp only [Cond.mapFirst, Cond.later, Option.mem_some_iff, forall_eq', holds_or, holds_filtered]
    constructor
    · intro h
      exact unsat_of_visible (t := t) hb fun row hrow => ((h row).1 (.inr hrow)).1
    · intro h row
      have hrow := h row
      tauto
  | _ => simp [Cond.mapFirst, Cond.later, holds_filtered]

end Rows

/-- Emitted with the filter at its `WHERE`. -/
theorem strengthens_inserted {env : Env} {t text : Text} {sel sel' : Select}
    (htext : (tokens text).bind parseSelect = some sel')
    (hcond : sel'.cond = sel.cond.mapFirst (filtered t)) (hcol : orgIdColumn ∉ sel.cond.columns) :
    Strengthens env t text sel.cond ↔ ∀ b ∈ sel.cond.later, ∀ row, ¬ b.Holds env row := by
  unfold Strengthens
  rw [htext]
  simp only [Option.some.injEq, exists_eq_left', hcond]
  exact mapFirst_iff hcol

/-- Emitted with its condition as it is. -/
theorem strengthens_same {env : Env} {t text : Text} {sel sel' : Select}
    (htext : (tokens text).bind parseSelect = some sel') (hcond : sel'.cond = sel.cond)
    (hcol : orgIdColumn ∉ sel.cond.columns) :
    Strengthens env t text sel.cond ↔ ∀ row, ¬ sel.cond.Holds env row := by
  unfold Strengthens
  rw [htext]
  simp only [Option.some.injEq, exists_eq_left', hcond]
  constructor
  · intro h
    exact unsat_of_visible (t := t) hcol fun row hrow => ((h row).1 hrow).1
  · intro h row
    have hrow := h row
    tauto

/-! ## Where the filter is put -/

/-- The first `WHERE` stands in no string literal and is not a part of a longer name. -/
def FirstWhere (s : Text) : Prop :=
  ∀ before matched after, exec whereKeyword s = some (before, matched, after) →
    (∀ acc, (scan .gap before).2 ≠ .str acc ∧ (scan .gap before).2 ≠ .word acc) ∧
      ∀ c ∈ after.head?, isIdent c = false

/-- The injector adds the filter, and the first `WHERE` is the keyword of a clause. -/
def Inserts (s : Text) : Prop :=
  isSelect s = true ∧ mentionsOrgId s = false ∧
    ∃ before matched after, exec whereKeyword s = some (before, matched, after) ∧
      (cut before).isSome = true

/-- A letter, a digit, `_` or `-`. -/
def tenantChar (c : Char) : Bool := c.isAlphanum || c = '_' || c = '-'

theorem plain_of_tenantChar {c : Char} (h : tenantChar c = true) : Plain c ∧ c ≠ '$' ∧ c ≠ '\'' := by
  have hbad : ∀ d ∈ ['"', '\n', '*', '/', '$', '\''], tenantChar d = false := by
    simp [tenantChar, Char.isAlphanum, Char.isAlpha, Char.isUpper, Char.isLower, Char.isDigit]
  have hne : ∀ d ∈ ['"', '\n', '*', '/', '$', '\''], c ≠ d := by
    rintro d hd rfl
    rw [hbad c hd] at h
    cases h
  refine ⟨⟨hne _ ?_, hne _ ?_, hne _ ?_, hne _ ?_⟩, hne _ ?_, hne _ ?_⟩ <;> simp

section Tenant

variable {t : Text} (ht : ∀ c ∈ t, tenantChar c = true)

include ht

theorem replaces_tenant : replaces t = false := by
  induction t with
  | nil => rfl
  | cons c t ih =>
    have hc := plain_of_tenantChar (ht c (by simp))
    rw [replaces_cons hc.2.1]
    exact ih fun d hd => ht d (by simp [hd])

theorem escape_tenant : escape t = t := by
  induction t with
  | nil => rfl
  | cons c t ih =>
    have hc := plain_of_tenantChar (ht c (by simp))
    rw [escape_cons hc.2.2, ih fun d hd => ht d (by simp [hd])]

/-- The inserted text ends no quoted name and no comment. -/
theorem plain_inserted : ∀ c ∈ opening ++ (escape t ++ filterRest), Plain c := by
  rw [escape_tenant ht]
  have hopen : ∀ c ∈ opening, Plain c := by
    rw [opening_eq]
    simp [Plain]
  have hrest : ∀ c ∈ filterRest, Plain c := by
    have hlist : filterRest = ['\'', ' ', 'A', 'N', 'D', ' ', 'd', 'e', 'l', 'e', 't', 'e', 'd', '_',
      'a', 't', ' ', 'I', 'S', ' ', 'N', 'U', 'L', 'L', ' ', 'A', 'N', 'D'] := rfl
    rw [hlist]
    simp [Plain]
  refine List.forall_mem_append.2 ⟨hopen, List.forall_mem_append.2 ⟨fun c hc => ?_, hrest⟩⟩
  exact (plain_of_tenantChar (ht c hc)).1

end Tenant

/-! ## The three outcomes -/

section Outcomes

variable {s t : Text} {sel : Select} {before matched after : Text}

/-- A condition stands after a `WHERE` that the search finds. -/
theorem exec_of_select (hsel : (tokens s).bind parseSelect = some sel) :
    ∃ before matched after, exec whereKeyword s = some (before, matched, after) := by
  obtain ⟨ts, hts, hparse⟩ := Option.bind_eq_some_iff.1 hsel
  obtain ⟨us, vs, rfl, -, hvs⟩ := exists_of_parseSelect hparse
  have happ := lex_append .gap s []
  rw [List.append_nil, lex] at happ
  obtain ⟨fin, hfin, hcut⟩ := emit_eq_some (happ.symm.trans hts)
  -- the last token alone is completed by the end of the text
  have hmem : .word "WHERE".toList ∈ (scan .gap s).1 := by
    have hlen : fin.length ≤ 1 := finish_length hfin
    obtain ⟨vs, z, rfl⟩ := (List.eq_nil_or_concat vs).resolve_left hvs
    have hinner : us ++ .word "WHERE".toList :: (vs ++ [z]) =
        (us ++ .word "WHERE".toList :: vs) ++ [z] := by simp
    rw [List.concat_eq_append, hinner] at hcut
    have hwhere : .word "WHERE".toList ∈ us ++ .word "WHERE".toList :: vs := by simp
    rcases fin with _ | ⟨f, _ | ⟨g, fin⟩⟩
    · rw [List.append_nil] at hcut
      rw [← hcut]
      exact List.mem_append_left _ hwhere
    · rw [← (List.append_inj' hcut rfl).1]
      exact hwhere
    · simp at hlen
  have hfits : Fits ([] : Text) .gap := by simp [Fits, EndsWord]
  obtain ⟨x, m, c, y, hs, hm, hx, hc⟩ := word_stands hfits hmem
  obtain ⟨b, k, a, hexec, -⟩ := exec_where hm hx (y := c :: y) (wordEnds_cons hc y)
  refine ⟨b, k, a, ?_⟩
  rw [← hexec]
  exact congrArg _ (by simpa using hs)

theorem takeWhile_ident (h : ∀ c ∈ after.head?, isIdent c = false) :
    after.takeWhile isIdent = [] ∧ after.dropWhile isIdent = after := by
  cases after with
  | nil => exact ⟨rfl, rfl⟩
  | cons c after =>
    have hc : isIdent c = false := h c (by simp)
    simp [hc]

/-- **At the `WHERE` of the clause the filter is joined to the condition.** -/
theorem select_inserted (hsel : isSelect s = true) (horg : mentionsOrgId s = false)
    (hw : exec whereKeyword s = some (before, matched, after)) {ts : List Token}
    (hcut : cut before = some ts) (hafter : ∀ c ∈ after.head?, isIdent c = false)
    (hrep : replaces t = false) (hparse : (tokens s).bind parseSelect = some sel) :
    ∃ sel', (tokens (injectFilters s t)).bind parseSelect = some sel' ∧
      sel'.cond = sel.cond.mapFirst (filtered t) := by
  have hs : s = before ++ (matched ++ after) := (execFrom_spec hw).1
  have haround := around_where hsel horg hw
  have hclear := (clear_before_where horg hw).cut hcut
  obtain ⟨htake, hdrop⟩ := takeWhile_ident hafter
  obtain ⟨all, hall, hparse⟩ := Option.bind_eq_some_iff.1 hparse
  have hemit := tokens_inserted hcut hrep matched after
  have hkey : upper matched = "WHERE".toList := haround.keyword
  rw [hs, tokens_where hcut haround.keyword, lex_word, htake, hdrop, List.append_nil, hkey] at hall
  obtain ⟨vs, hvs, rfl⟩ := emit_eq_some hall
  obtain ⟨rest, hlex, rfl⟩ := emit_eq_some hvs
  obtain ⟨hhead, -, hor, htail⟩ := (parseSelect_iff hclear.1).1 hparse
  refine ⟨⟨ts, sel.cond.mapFirst (filtered t), sel.tail⟩, ?_, rfl⟩
  have hfilter : ts ++ (openingTokens ++ filterTokens t ++
      [.word (upper ("AND".toList ++ []))]) ++ rest =
      ts ++ .word "WHERE".toList :: (filterCond t ++ rest) := by
    have hand : upper ("AND".toList ++ []) = "AND".toList := rfl
    rw [hand]
    simp [openingTokens, filterTokens, filterCond]
  rw [injectFilters_of_where hsel horg t hw, expand_filter, List.append_assoc, hemit, htake, hdrop,
    hlex, emit_some, hfilter, Option.bind_some]
  exact (parseSelect_iff hclear.1).2 ⟨hhead, rfl, parse_filter hor, htail⟩

theorem plain_of_where {m : Text} (hm : m.map Char.toUpper = "WHERE".toList) : ∀ c ∈ m, Plain c := by
  have hletters : ∀ u ∈ ['W', 'H', 'E', 'R', 'E'], u.isAlpha = true := by
    simp [Char.isAlpha, Char.isUpper]
  intro c hc
  have hmem : c.toUpper ∈ m.map Char.toUpper := List.mem_map_of_mem hc
  rw [hm] at hmem
  have halpha : c.isAlpha = true := alpha_of_toUpper (hletters _ hmem)
  have htenant : tenantChar c = true := by simp [tenantChar, Char.isAlphanum, halpha]
  exact (plain_of_tenantChar htenant).1

/-- **In a quoted name or a comment the filter leaves the condition as it is.** -/
theorem select_covered (hsel : isSelect s = true) (horg : mentionsOrgId s = false)
    (hw : exec whereKeyword s = some (before, matched, after))
    (hstate : (scan .gap before).2.Covered) (ht : ∀ c ∈ t, tenantChar c = true)
    (hparse : (tokens s).bind parseSelect = some sel) :
    ∃ sel', (tokens (injectFilters s t)).bind parseSelect = some sel' ∧ sel'.cond = sel.cond := by
  have hs : s = before ++ (matched ++ after) := (execFrom_spec hw).1
  have hclear := clear_before_where horg hw
  have haround := around_where hsel horg hw
  obtain ⟨all, hall, hparse⟩ := Option.bind_eq_some_iff.1 hparse
  have hemit : injectFilters s t = before ++ ((opening ++ (escape t ++ filterRest)) ++ after) := by
    rw [injectFilters_of_where hsel horg t hw, expand_filter, filled_verbatim (replaces_tenant ht)]
  rw [hs, tokens, lex_append] at hall
  obtain ⟨ts, hts, rfl⟩ := emit_eq_some hall
  obtain ⟨a, m, e, hm, -⟩ := ends_of_where haround.keyword
  have hcovered := lex_covered hstate (by simp [hm]) (by simp [opening_eq])
    (plain_of_where haround.keyword) (plain_inserted ht) hts
  rw [hemit, tokens, lex_append]
  rcases hcovered with hsame | ⟨x, y, us, rfl, hchanged⟩
  · exact ⟨sel, by rw [hsame]; exact hparse, rfl⟩
  · obtain ⟨sel', hsel', hcond⟩ := parseSelect_quoted hclear.noWhere hparse y
    exact ⟨sel', by rw [hchanged]; exact hsel', hcond⟩

/-- In a text that can be read, a `WHERE` outside literals and names is a keyword or covered. -/
theorem covered_of_first (hw : exec whereKeyword s = some (before, matched, after))
    (hfirst : FirstWhere s) (hkey : matched.map Char.toUpper = "WHERE".toList) {ts : List Token}
    (hts : tokens s = some ts) (hcut : cut before = none) : (scan .gap before).2.Covered := by
  have hs : s = before ++ (matched ++ after) := (execFrom_spec hw).1
  obtain ⟨a, m, e, rfl, ha, -⟩ := ends_of_where hkey
  have halpha : a.isAlpha = true := alpha_of_toUpper (by rw [ha]; decide)
  obtain ⟨hstate, -⟩ := hfirst _ _ _ hw
  rw [hs, tokens, lex_append] at hts
  obtain ⟨us, hus, -⟩ := emit_eq_some hts
  cases hscan : (scan .gap before).2 with
  | quoted acc | line | block | blockStar => trivial
  | gap | pend c | strEnd acc | quotedEnd acc => simp [cut, hscan, flush] at hcut
  | word acc => exact absurd hscan (hstate acc).2
  | str acc => exact absurd hscan (hstate acc).1
  | param acc =>
    have hdigit : a.isDigit = false := by
      have hupper : a = 'W' ∨ a = 'w' := of_toUpper_eq ha
      rcases hupper with rfl | rfl <;> rfl
    rw [hscan, List.cons_append, lex] at hus
    simp [Sql.step, hdigit, ident_of_alpha halpha, lex_bad] at hus
  | bad =>
    rw [hscan, lex_bad] at hus
    cases hus

end Outcomes

/-- **The emitted condition is right exactly if no later operand of its `OR` can hold**, where the
filter is added to it at all. -/
theorem strengthened_inject {env : Env} {s t : Text} {sel : Select}
    (hsel : (tokens s).bind parseSelect = some sel) (hcol : orgIdColumn ∉ sel.cond.columns)
    (ht : ∀ c ∈ t, tenantChar c = true) (hfirst : FirstWhere s) :
    Strengthens env t (injectFilters s t) sel.cond ↔
      (Inserts s → ∀ b ∈ sel.cond.later, ∀ row, ¬ b.Holds env row) ∧
        (¬ Inserts s → ∀ row, ¬ sel.cond.Holds env row) := by
  by_cases hadds : isSelect s = true ∧ mentionsOrgId s = false
  · obtain ⟨hselect, horg⟩ := hadds
    obtain ⟨before, matched, after, hw⟩ := exec_of_select hsel
    obtain ⟨ts, hts, -⟩ := Option.bind_eq_some_iff.1 hsel
    cases hcut : cut before with
    | some front =>
      have hins : Inserts s := ⟨hselect, horg, before, matched, after, hw, by rw [hcut]; rfl⟩
      obtain ⟨sel', htext, hcond⟩ := select_inserted hselect horg hw hcut (hfirst _ _ _ hw).2
        (replaces_tenant ht) hsel
      rw [strengthens_inserted htext hcond hcol]
      exact ⟨fun h => ⟨fun _ => h, fun hno => absurd hins hno⟩, fun h => h.1 hins⟩
    | none =>
      have hins : ¬ Inserts s := by
        rintro ⟨-, -, b, m, a, hw', hsome⟩
        rw [hw] at hw'
        cases hw'
        rw [hcut] at hsome
        cases hsome
      have hkey := (around_where hselect horg hw).keyword
      have hstate := covered_of_first hw hfirst hkey hts hcut
      obtain ⟨sel', htext, hcond⟩ := select_covered hselect horg hw hstate ht hsel
      rw [strengthens_same htext hcond hcol]
      exact ⟨fun h => ⟨fun hyes => absurd hyes hins, fun _ => h⟩, fun h => h.2 hins⟩
  · have hins : ¬ Inserts s := fun h => hadds ⟨h.1, h.2.1⟩
    have hsame : injectFilters s t = s := by
      by_cases hselect : isSelect s = true
      · refine injectFilters_of_mention ?_ t
        simpa using fun horg => hadds ⟨hselect, horg⟩
      · exact injectFilters_of_not_select (by simpa using hselect) t
    rw [hsame, strengthens_same hsel rfl hcol]
    exact ⟨fun h => ⟨fun hyes => absurd hyes hins, fun _ => h⟩, fun h => h.2 hins⟩

/-- **The tag strengthens a condition exactly if the filter is added to it and no operand of its
top-level `OR` but the first can hold.** -/
theorem strengthened_iff {V : Type} (env : Env) (tenantId : Text) (strings : List Text)
    (values : List (Interpolated V)) {sel : Select}
    (hsel : (tokens (statement strings values)).bind parseSelect = some sel)
    (hcol : orgIdColumn ∉ sel.cond.columns) (ht : ∀ c ∈ tenantId, tenantChar c = true)
    (hfirst : FirstWhere (statement strings values)) :
    Strengthens env tenantId (sql tenantId strings values).text sel.cond ↔
      (Inserts (statement strings values) → ∀ b ∈ sel.cond.later, ∀ row, ¬ b.Holds env row) ∧
        (¬ Inserts (statement strings values) → ∀ row, ¬ sel.cond.Holds env row) :=
  strengthened_inject hsel hcol ht hfirst

/-- A `WHERE` that the search finds between two tokens. -/
theorem firstWhere_of {s before matched after : Text}
    (hw : exec whereKeyword s = some (before, matched, after))
    (hgap : (scan .gap before).2 = .gap) (hafter : ∀ c ∈ after.head?, isIdent c = false) :
    FirstWhere s := by
  intro b m a h
  rw [hw] at h
  cases h
  rw [hgap]
  exact ⟨fun acc => ⟨nofun, nofun⟩, hafter⟩

/-- `SELECT a FROM t WHERE b = ${1} AND c = ${2}` and the same with `OR`. -/
def andStrings : List Text := ["SELECT a FROM t WHERE b = ".toList, " AND c = ".toList, []]

def orStrings : List Text := ["SELECT a FROM t WHERE b = ".toList, " OR c = ".toList, []]

def isParam (name digits : String) : Cond :=
  .compare .eq (.column name.toList) (.param digits.toList)

def selectHead : List Token :=
  [.word "SELECT".toList, .word "A".toList, .word "FROM".toList, .word "T".toList]

theorem strengthened_iff_and :
    Strengthens (fun _ => .bool true) "acme-1".toList
      (sql "acme-1".toList andStrings [.value 7, .value 1]).text
      (.and (isParam "b" "1") (isParam "c" "2")) := by
  have hsel : (tokens (statement andStrings [.value 7, .value 1])).bind parseSelect =
      some ⟨selectHead, .and (isParam "b" "1") (isParam "c" "2"), []⟩ := by decide
  have hw : exec whereKeyword (statement andStrings [.value 7, .value 1]) =
      some ("SELECT a FROM t ".toList, "WHERE".toList, " b = $1 AND c = $2".toList) := by
    decide
  have hfirst := firstWhere_of hw (by decide) (by simp [isIdent])
  refine (strengthened_iff _ "acme-1".toList andStrings [.value 7, .value 1] hsel
    (by decide) (by simp [tenantChar]) hfirst).2
    ⟨fun _ b hb => absurd hb (Option.not_mem_none b), fun hno => ?_⟩
  exact absurd ⟨by decide, by decide, _, _, _, hw, by decide⟩ hno

theorem or_not_strengthened :
    ¬ ∀ (env : Env) (tenantId : Text) (strings : List Text) (values : List (Interpolated Nat))
      (selected : Select),
      (tokens (statement strings values)).bind parseSelect = some selected →
      orgIdColumn ∉ selected.cond.columns → (∀ c ∈ tenantId, tenantChar c = true) →
      FirstWhere (statement strings values) → Inserts (statement strings values) →
      Strengthens env tenantId (sql tenantId strings values).text selected.cond := by
  intro h
  have hsel : (tokens (statement orStrings [.value 7, .value 1])).bind parseSelect =
      some ⟨selectHead, .or (isParam "b" "1") (isParam "c" "2"), []⟩ := by decide
  have hw : exec whereKeyword (statement orStrings [.value 7, .value 1]) =
      some ("SELECT a FROM t ".toList, "WHERE".toList, " b = $1 OR c = $2".toList) := by
    decide
  have hfirst := firstWhere_of hw (by decide) (by simp [isIdent])
  have hins : Inserts (statement orStrings [.value 7, .value 1]) :=
    ⟨by decide, by decide, _, _, _, hw, by decide⟩
  have ht : ∀ c ∈ "acme".toList, tenantChar c = true := by simp [tenantChar]
  have hcol : orgIdColumn ∉ (Cond.or (isParam "b" "1") (isParam "c" "2")).columns := by
    decide
  have hstrong := h (fun _ => .bool true) _ orStrings [.value 7, .value 1] _ hsel hcol ht hfirst hins
  -- any row whose `c` is the second parameter is selected
  have hnone := ((strengthened_inject hsel hcol ht hfirst).1 hstrong).1 hins
  exact hnone (isParam "c" "2") rfl (fun _ => .bool true) rfl

end Intellibiz.Db
