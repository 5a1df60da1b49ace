import Intellibiz.Db.Filter
import Intellibiz.Sql.Blocks

/-!
# Which statements the injector scopes to the tenant

The injector edits text: it puts `WHERE org_id = '...' AND deleted_at IS NULL` at the first
`WHERE`, else in front of the first `ORDER BY`, `LIMIT`, `GROUP BY` or `HAVING`, else at the end.

* `insertionPrefix` — the text in front of the filter.
* `ScopedBy` — the statements of which every table access gets the filter.
* `Inserted` — what the three cases have in common.

Principal results: `guards_placed` and `guards_misplaced` (reading the emitted text), `inserted`
(the three cases) and `scoped_iff`.
-/

namespace Intellibiz.Db

open Sql Occurrence

/-- `ORG_ID` as an unquoted name. -/
def orgId : Text := "ORG_ID".toList

/-- The text in front of the filter. -/
def insertionPrefix (s : Text) : Text :=
  match exec whereKeyword s with
  | some (before, _, _) => before
  | none =>
    match exec clauseKeywords s with
    | some (before, _, _) => before
    | none => s ++ [' ']

/-- The filter is put where a statement's only block has no clause yet, and the tenant id is put
in verbatim. -/
structure ScopedBy (s tenantId : Text) : Prop where
  select : isSelect s = true
  single : ∃ ts, tokens s = some ts ∧ (read orgId tenantId ts).blocks.length = 1
  place : ∃ ts b, cut (insertionPrefix s) = some ts ∧ (read orgId tenantId ts).top = some b ∧
    b.phase = .head
  verbatim : (exec whereKeyword s).isSome = true → replaces tenantId = false

/-! ## Reading the opening of the filter -/

def openingTokens : List Token := [.word "WHERE".toList, .word orgId, .sym '=']

theorem scan_opening_gap : scan .gap opening = (openingTokens, .str []) := rfl

theorem scan_opening_flush {s : LexState} {ts : List Token} (h : flush s = some ts) :
    scan s opening = (ts ++ openingTokens, .str []) := by
  have hgap := scan_opening_gap
  rw [opening_eq] at hgap ⊢
  rw [scan_flush h (by decide), hgap]

/-- Read in a word, the opening adds to the word. -/
theorem scan_opening_word (acc : Text) :
    scan (.word acc) opening =
      ([.word (upper (acc ++ "WHERE".toList)), .word orgId, .sym '='], .str []) := by
  have hcut : opening = "WHERE".toList ++ " org_id = '".toList := rfl
  have hword : scan (.word acc) "WHERE".toList = ([], .word (acc ++ "WHERE".toList)) :=
    scan_word acc (by simp [isIdent])
  rw [hcut, scan_append, hword]
  rfl

/-- Elsewhere it completes no token. -/
theorem scan_opening_inside {s : LexState} (hs : flush s = none) (hw : ¬ s.InWord) :
    (scan s opening).1 = [] ∧ ¬ (scan s opening).2.InWord := by
  have hbad : scan .bad opening = ([], .bad) := rfl
  cases s with
  | gap | pend c | strEnd acc | quotedEnd acc => cases hs
  | word acc => exact absurd trivial hw
  | param acc =>
    have hstep : step (.param acc) 'W' = ([], .bad) := by
      cases acc <;> rfl
    rw [opening_eq, scan, hstep]
    exact ⟨rfl, id⟩
  | str acc | quoted acc | line | block | blockStar | bad =>
    rw [opening_eq]
    simp [scan, step, LexState.InWord]

/-! ## Reading the emitted text -/

section Emitted

variable {p R t : Text} {ts us : List Token}

/-- A predicate needs one mention more than the tenant id has. -/
theorem not_infix_of_weight {a : List Token} (ha : .word orgId ∉ a)
    (hw : weight "org_id".toList us ≤ mentions t) : ¬ predicate orgId t <:+: a ++ us := by
  intro h
  have hinf : predicate orgId t <:+: us := infix_of_not_mem ha h
  have hle : mentions orgId + mentions t ≤ weight "org_id".toList us := weight_of_predicate hinf
  have hone : mentions orgId = 1 := by decide
  omega

theorem guards_rest {s : BlockState} (hlast : .word orgId ∉ s.beforeLast.toList ++ s.last.toList)
    (hw : weight "org_id".toList us ≤ mentions t) :
    (us.foldl (BlockState.step orgId t) s).guards = s.guards :=
  guards_of_absent (not_infix_of_weight hlast hw)

/-- After the value of the filter no other block gets guarded. -/
theorem guards_after_value {s : BlockState} (hlast : s.last = some (.sym '=')) (v : Text)
    (hw : weight "org_id".toList us ≤ mentions t) :
    (us.foldl (BlockState.step orgId t) (s.step orgId t (.str v))).guards =
      (s.step orgId t (.str v)).guards := by
  refine guards_rest ?_ hw
  show .word orgId ∉ s.last.toList ++ [.str v]
  simp [hlast]

theorem guards_clear (h : .word orgId ∉ ts) : (read orgId t ts).guards = 0 := by
  have hinf : ¬ predicate orgId t <:+: [] ++ [] ++ ts := by
    intro h'
    have hmem := h'.subset List.mem_cons_self
    exact h (by simpa using hmem)
  exact (guards_of_absent hinf).trans guards_init

theorem guarded_false {s : BlockState} (h : s.guards = 0) {b : Block} (hb : s.top = some b) :
    b.guarded = false := by
  rw [BlockState.guards, List.countP_eq_zero] at h
  simpa using h b (by simp [BlockState.blocks, hb])

/-- A word or a symbol guards no block. -/
theorem guards_step_word (s : BlockState) (w : Text) :
    (s.step orgId t (.word w)).guards = s.guards :=
  guards_step_of_not_completes fun h => by cases h.2.2

theorem guards_step_sym (s : BlockState) (c : Char) :
    (s.step orgId t (.sym c)).guards = s.guards :=
  guards_step_of_not_completes fun h => by cases h.2.2

/-- The opening of the filter puts the block in front of it in its `WHERE` clause. -/
theorem opening_step (s : BlockState) :
    let s' := openingTokens.foldl (BlockState.step orgId t) s
    s'.top = s.top.map Block.enter ∧ s'.guards = s.guards ∧
      s'.beforeLast = some (.word orgId) ∧ s'.last = some (.sym '=') := by
  refine ⟨rfl, ?_, rfl, rfl⟩
  show (((s.step orgId t (.word "WHERE".toList)).step orgId t (.word orgId)).step orgId t
    (.sym '=')).guards = s.guards
  rw [guards_step_sym, guards_step_word, guards_step_word]

/-- The text in front of the filter has neither a `WHERE` nor the column. -/
structure Clear (p : Text) : Prop where
  noWhere : .word "WHERE".toList ∉ (scan .gap p).1
  noColumn : .word orgId ∉ (scan .gap p).1

/-- The tokens of the emitted text, where a word can start in front of the filter. -/
theorem tokens_of_cut (hcut : cut p = some ts) {all : List Token}
    (hall : tokens (p ++ (opening ++ R)) = some all) :
    ∃ us, all = ts ++ (openingTokens ++ .str (literal R) :: us) ∧
      lex (.str []) R = some (.str (literal R) :: us) := by
  obtain ⟨f, hf, rfl⟩ := cut_eq_some hcut
  rw [tokens, lex_append, lex_append, scan_opening_flush hf, emit_emit] at hall
  obtain ⟨vs, hvs, rfl⟩ := emit_eq_some hall
  obtain ⟨us, rfl⟩ := lex_str hvs
  exact ⟨us, by simp, hvs⟩

theorem weight_of_lex_str (hR : mentions R ≤ mentions t) {v : Text}
    (h : lex (.str []) R = some (.str v :: us)) : weight "org_id".toList us ≤ mentions t := by
  have hle : weight "org_id".toList (.str v :: us) ≤ bound "org_id".toList R (.str []) :=
    lex_bound (by decide) (by decide) (by decide) h
  rw [weight_cons] at hle
  have hbound : bound "org_id".toList R (.str []) = mentions R := rfl
  omega

/-- The blocks up to the value of the filter. -/
theorem read_opening (ts : List Token) (v : Text) (us : List Token) :
    read orgId t (ts ++ (openingTokens ++ .str v :: us)) =
      us.foldl (BlockState.step orgId t)
        ((openingTokens.foldl (BlockState.step orgId t) (read orgId t ts)).step orgId t
          (.str v)) := by
  unfold Sql.read
  rw [List.foldl_append, List.foldl_append, List.foldl_cons]

theorem Clear.cut (hp : Clear p) (hcut : cut p = some ts) :
    .word "WHERE".toList ∉ ts ∧ .word orgId ∉ ts := by
  obtain ⟨f, hf, rfl⟩ := cut_eq_some hcut
  have hword := notWord_of_flush hf
  simp only [List.mem_append, not_or]
  exact ⟨⟨hp.noWhere, hword _⟩, ⟨hp.noColumn, hword _⟩⟩

/-- **In front of a block's clauses and with the tenant id verbatim, the filter guards the
block.** -/
theorem guards_placed (hp : Clear p) (hR : mentions R ≤ mentions t) {all : List Token}
    (hall : tokens (p ++ (opening ++ R)) = some all) (hcut : cut p = some ts) {b : Block}
    (hb : (read orgId t ts).top = some b) (hhead : b.phase = .head) (hlit : literal R = t) :
    (read orgId t all).guards = 1 := by
  obtain ⟨us, rfl, hlex⟩ := tokens_of_cut hcut hall
  have hclear : (read orgId t ts).guards = 0 := guards_clear (hp.cut hcut).2
  obtain ⟨htop, hguards, hbefore, hlast⟩ := opening_step (t := t) (read orgId t ts)
  have henter : b.enter = ⟨.cond, b.guarded⟩ := by simp [Block.enter, hhead]
  have hfree : b.guarded = false := guarded_false hclear hb
  rw [hb, Option.map_some, henter] at htop
  rw [read_opening, guards_after_value hlast _ (weight_of_lex_str hR hlex),
    guards_step_of_cond htop rfl hfree ⟨hbefore, hlast, congrArg _ hlit⟩]
  omega

/-- Read in a word, the opening is no `WHERE`. -/
theorem upper_ne_where {acc : Text} (hacc : acc ≠ []) :
    upper (acc ++ "WHERE".toList) ≠ "WHERE".toList := by
  intro h
  have hlen := congrArg List.length h
  exact hacc (by simpa [upper] using hlen)

/-- Glued to a word, the filter is no clause: no block gets the predicate. -/
theorem guards_glued (hp : Clear p) (hR : mentions R ≤ mentions t) {all : List Token}
    (hall : tokens (p ++ (opening ++ R)) = some all) {acc : Text} (hacc : acc ≠ [])
    (hstate : (scan .gap p).2 = .word acc) : (read orgId t all).guards = 0 := by
  rw [tokens, lex_append, lex_append, hstate, scan_opening_word, emit_emit] at hall
  obtain ⟨vs, hvs, rfl⟩ := emit_eq_some hall
  obtain ⟨us, rfl⟩ := lex_str hvs
  -- the tokens up to the value open no `WHERE` clause
  let glued : List Token := [.word (upper (acc ++ "WHERE".toList)), .word orgId, .sym '=']
  have hnone : .word "WHERE".toList ∉ (scan .gap p).1 ++ glued := by
    have hne := upper_ne_where hacc
    have horg : orgId ≠ "WHERE".toList := by decide
    simp only [glued, List.mem_append, List.mem_cons, Token.word.injEq, not_or]
    exact ⟨hp.noWhere, Ne.symm hne, Ne.symm horg, by simp⟩
  have hcond : (read orgId t ((scan .gap p).1 ++ glued)).NoCond := noCond_read hnone
  have hread : read orgId t ((scan .gap p).1 ++ glued ++ .str (literal R) :: us) =
      us.foldl (BlockState.step orgId t)
        ((read orgId t ((scan .gap p).1 ++ glued)).step orgId t (.str (literal R))) := by
    unfold Sql.read
    rw [List.foldl_append, List.foldl_cons]
  have hglued : (read orgId t ((scan .gap p).1 ++ glued)).guards = 0 := by
    have hclear : (read orgId t (scan .gap p).1).guards = 0 := guards_clear hp.noColumn
    unfold Sql.read at hclear ⊢
    rw [List.foldl_append]
    show (((BlockState.step orgId t _ _).step orgId t _).step orgId t _).guards = 0
    rw [guards_step_sym, guards_step_word, guards_step_word, hclear]
  have hlast : (read orgId t ((scan .gap p).1 ++ glued)).last = some (.sym '=') := by
    unfold Sql.read
    rw [List.foldl_append]
    rfl
  show (read orgId t ((scan .gap p).1 ++ glued ++ .str (literal R) :: us)).guards = 0
  rw [hread, guards_after_value hlast _ (weight_of_lex_str hR hvs), guards_step_of_not_cond hcond.top,
    hglued]

/-- Inside a literal, a quoted name or a comment no block gets the predicate. -/
theorem guards_inside (hp : Clear p) (hR : mentions R ≤ mentions t) {all : List Token}
    (hall : tokens (p ++ (opening ++ R)) = some all) (hflush : flush (scan .gap p).2 = none)
    (hword : ¬ (scan .gap p).2.InWord) : (read orgId t all).guards = 0 := by
  obtain ⟨hnone, hstate⟩ := scan_opening_inside hflush hword
  rw [tokens, lex_append, lex_append, hnone, emit_nil] at hall
  obtain ⟨vs, hvs, rfl⟩ := emit_eq_some hall
  obtain ⟨first, rest, rfl, -, hfirst, hrest⟩ :=
    @lex_rest "org_id".toList (by decide) (by decide) (by decide) _ _ _ hvs
  have hcolumn : .word orgId ∉ (scan .gap p).1 ++ first := by
    intro h
    rcases List.mem_append.1 h with h | h
    · exact hp.noColumn h
    · exact hfirst hstate _ h
  have hinf : ¬ predicate orgId t <:+: (scan .gap p).1 ++ first ++ rest :=
    not_infix_of_weight hcolumn (hrest.trans hR)
  rw [← List.append_assoc]
  exact (guards_of_absent (s := .init) hinf).trans guards_init

/-- Where the filter is not put in front of a block's clauses, or the tenant id not verbatim, no
block gets the predicate. -/
theorem guards_misplaced (hp : Clear p) (hR : mentions R ≤ mentions t) {all : List Token}
    (hall : tokens (p ++ (opening ++ R)) = some all)
    (hno : ¬ ∃ ts b, cut p = some ts ∧ (read orgId t ts).top = some b ∧ b.phase = .head ∧
      literal R = t) : (read orgId t all).guards = 0 := by
  cases hflush : flush (scan .gap p).2 with
  | none =>
    by_cases hword : (scan .gap p).2.InWord
    · cases hstate : (scan .gap p).2 with
      | word acc =>
        have hfits : Fits ([] ++ p) (scan .gap p).2 := fits_scan (by simp [Fits, EndsWord]) p
        rw [hstate] at hfits
        exact guards_glued hp hR hall hfits.1 hstate
      | _ => rw [hstate] at hword; exact hword.elim
    · exact guards_inside hp hR hall hflush hword
  | some f =>
    have hcut : cut p = some ((scan .gap p).1 ++ f) := by simp [Sql.cut, hflush]
    obtain ⟨us, rfl, hlex⟩ := tokens_of_cut hcut hall
    have hclear := hp.cut hcut
    have hzero : (read orgId t ((scan .gap p).1 ++ f)).guards = 0 := guards_clear hclear.2
    obtain ⟨htop, hguards, hbefore, hlast⟩ :=
      opening_step (t := t) (read orgId t ((scan .gap p).1 ++ f))
    rw [read_opening, guards_after_value hlast _ (weight_of_lex_str hR hlex)]
    by_cases hlit : literal R = t
    · -- a block past its clauses is left as it is
      rw [guards_step_of_not_cond, hguards, hzero]
      intro b hb hphase
      rw [htop] at hb
      obtain ⟨b', hb', rfl⟩ := Option.map_eq_some_iff.1 hb
      have hcond : b'.phase ≠ .cond := (noCond_read hclear.1).top b' hb'
      by_cases hhead : b'.phase = .head
      · exact hno ⟨_, b', hcut, hb', hhead, hlit⟩
      · rw [Block.enter, if_neg hhead] at hphase
        exact hcond hphase
    · rw [guards_step_of_not_completes, hguards, hzero]
      rintro ⟨-, -, h⟩
      exact hlit (Token.str.inj h)

end Emitted

/-! ## The three cases -/

/-- What the injector puts into a `SELECT` `s`, with the text `R` after the opening. -/
structure Inserted (s t R : Text) : Prop where
  text : injectFilters s t = insertionPrefix s ++ (opening ++ R)
  clear : Clear (insertionPrefix s)
  count : mentions R ≤ mentions t
  verbatim : ∀ ts all, cut (insertionPrefix s) = some ts → tokens s = some all →
    (literal R = t ↔ ((exec whereKeyword s).isSome = true → replaces t = false))
  /-- The tokens of the statement, with tokens that open no block exchanged for others. -/
  tokens : ∀ ts all, cut (insertionPrefix s) = some ts → tokens s = some all → literal R = t →
    ∃ us vs rest, all = ts ++ (us ++ rest) ∧
      Sql.tokens (injectFilters s t) = some (ts ++ (vs ++ rest)) ∧
      (∀ u ∈ us, ¬ u.Opens) ∧ ∀ v ∈ vs, ¬ v.Opens

/-- A text in which no `WHERE` stands and `org_id` is not mentioned. -/
theorem clear_of {p : Text} (hfree : mentions p = 0)
    (hno : ∀ x m c y, p = x ++ m ++ c :: y → upper m = "WHERE".toList → EndsWord x →
      isIdent c = false → False) : Clear p := by
  have hfits : Fits ([] : Text) .gap := by simp [Fits, EndsWord]
  refine ⟨fun h => ?_, fun h => ?_⟩
  · obtain ⟨x, m, c, y, hp, hm, hx, hc⟩ := word_stands hfits h
    exact hno x m c y hp hm hx hc
  · obtain ⟨x, m, c, y, hp, hm, -, -⟩ := word_stands hfits h
    have hp : p = x ++ (m ++ c :: y) := by simpa using hp
    have hone : mentions orgId = 1 := by decide
    have hmention : mentions m = 1 := by rw [← hone, ← hm, mentions, mentions, occ_upper]
    have hright := @occ_le_append_right _ _ _ Char.toLower "org_id".toList x (m ++ c :: y)
    have hleft := @occ_le_append_left _ _ _ Char.toLower "org_id".toList m (c :: y)
    rw [← hp] at hright
    unfold mentions at hfree hmention
    omega

/-- A `WHERE` between word boundaries is found. -/
theorem exec_where {x m y : Text} (hm : upper m = "WHERE".toList) (hx : EndsWord x)
    (hy : wordEnds y = true) :
    ∃ before matched after, exec whereKeyword (x ++ (m ++ y)) = some (before, matched, after) ∧
      before.length ≤ x.length :=
  execFrom_leftmost (by simp [whereKeyword]) (by decide) hm (endsInWord_of_endsWord hx) hy

theorem wordEnds_cons {c : Char} (h : isIdent c = false) (y : Text) : wordEnds (c :: y) = true := by
  simp [wordEnds, not_wordChar h]

section Cases

variable {s before matched after : Text}

theorem clear_before_where (horg : mentionsOrgId s = false)
    (hw : exec whereKeyword s = some (before, matched, after)) : Clear before := by
  have hs : s = before ++ (matched ++ after) := (execFrom_spec hw).1
  have hfree : occ Char.toLower "org_id".toList s = 0 := not_mentionsOrgId horg
  have hle := @occ_le_append_left _ _ _ Char.toLower "org_id".toList before (matched ++ after)
  rw [← hs] at hle
  refine clear_of (by unfold mentions; omega) fun x m c y hp hm hx hc => ?_
  have hcut : s = x ++ (m ++ (c :: y ++ (matched ++ after))) := by rw [hs, hp]; simp
  obtain ⟨b, k, a, hexec, hlen⟩ :=
    exec_where hm hx (y := c :: y ++ (matched ++ after)) (wordEnds_cons hc _)
  rw [← hcut, hw] at hexec
  cases hexec
  rw [hp] at hlen
  simp at hlen

theorem clear_of_no_where {p z : Text} (horg : mentionsOrgId s = false)
    (hw : exec whereKeyword s = none) (hp : s = p ++ z) : Clear p := by
  have hfree : occ Char.toLower "org_id".toList s = 0 := not_mentionsOrgId horg
  have hle := @occ_le_append_left _ _ _ Char.toLower "org_id".toList p z
  rw [← hp] at hle
  refine clear_of (by unfold mentions; omega) fun x m c y hx hm hend hc => ?_
  have hcut : s = x ++ (m ++ (c :: y ++ z)) := by rw [hp, hx]; simp
  obtain ⟨b, k, a, hexec, -⟩ := exec_where hm hend (y := c :: y ++ z) (wordEnds_cons hc _)
  rw [← hcut, hw] at hexec
  cases hexec

/-- A match of `WHERE` in a `SELECT` that does not mention `org_id`. -/
theorem around_where (hsel : isSelect s = true) (horg : mentionsOrgId s = false)
    (hw : exec whereKeyword s = some (before, matched, after)) : Around before matched after := by
  obtain ⟨hs, hmem, hbefore, hafter⟩ := execFrom_spec hw
  have hm : matched.map Char.toUpper = "WHERE".toList := by simpa [whereKeyword] using hmem
  obtain ⟨c, l, hc, hwatched⟩ := head_of_isSelect hsel
  have hne : before ≠ [] := by
    rintro rfl
    obtain ⟨a, m, e, hme, ha, -⟩ := ends_of_where hm
    rw [hc, hme] at hs
    have hca : c = a := (List.cons.inj hs).1
    exact hwatched (watched_of_toUpper (hca ▸ ha))
  refine ⟨hne, ?_, ?_, hm, ?_, ?_⟩
  · obtain ⟨d, before, rfl⟩ := List.exists_cons_of_ne_nil hne
    have hcd : c = d := by
      rw [hc] at hs
      exact (List.cons.inj hs).1
    simpa [← hcd] using hwatched
  · rcases before.eq_nil_or_concat with rfl | ⟨before, d, rfl⟩
    · simp
    · rw [List.concat_eq_append, endsInWord_snoc] at hbefore
      simpa using hbefore
  · cases after with
    | nil => simp
    | cons d after => simpa [wordEnds] using hafter
  · rw [← hs]
    exact not_mentionsOrgId horg

theorem alpha_of_toUpper {c : Char} (h : c.toUpper.isAlpha = true) : c.isAlpha = true := by
  by_cases hl : c.isLower = true
  · simp [Char.isAlpha, hl]
  · rwa [Char.toUpper_eq_of_not_isLower hl] at h

/-- The matched keyword is read as the start of a word. -/
theorem lex_where {m : Text} (hm : m.map Char.toUpper = "WHERE".toList) (l : Text) :
    lex .gap (m ++ l) = lex (.word m) l := by
  have halpha : ∀ c ∈ m, c.isAlpha = true := by
    intro c hc
    have hmem : c.toUpper ∈ m.map Char.toUpper := List.mem_map_of_mem hc
    rw [hm] at hmem
    have hletters : ∀ u ∈ ['W', 'H', 'E', 'R', 'E'], u.isAlpha = true := by
      simp [Char.isAlpha, Char.isUpper]
    exact alpha_of_toUpper (hletters _ hmem)
  obtain ⟨a, m, e, rfl, -⟩ := ends_of_where hm
  exact lex_alpha (halpha a (by simp)) (fun d hd => ident_of_alpha (halpha d (by simp [hd]))) l

theorem tokens_where {ts : List Token} (hcut : cut before = some ts)
    (hm : matched.map Char.toUpper = "WHERE".toList) :
    tokens (before ++ (matched ++ after)) = emit ts (lex (.word matched) after) := by
  obtain ⟨us, hus, rfl⟩ := cut_eq_some hcut
  have hlex := lex_where hm after
  obtain ⟨a, m, e, rfl, ha, -⟩ := ends_of_where hm
  have halpha : a.isAlpha = true := alpha_of_toUpper (by rw [ha]; decide)
  rw [tokens, lex_append, ← hlex, List.cons_append, lex_flush hus halpha, emit_emit]

/-- In a text that can be read a `$` after the keyword starts a parameter. -/
theorem sealed_after {m l : Text} {all : List Token} (h : lex (.word m) l = some all) :
    Sealed l := by
  rintro l rfl
  have hstep : Sql.step (.word m) '$' = ([.word (upper m)], .param []) := by
    simp [Sql.step, isIdent, restart, start, isSpace]
  rw [lex, hstep] at h
  obtain ⟨vs, hvs, -⟩ := emit_eq_some h
  cases l with
  | nil => cases hvs
  | cons d l =>
    refine ⟨d, l, rfl, ?_⟩
    by_contra hd
    simp [lex, Sql.step, hd, lex_bad] at hvs

theorem not_opens_of_head {c : Char} (hc : c ≠ 'S' ∧ c ≠ 'U' ∧ c ≠ 'D') (w : Text) :
    ¬ (Token.word (c :: w)).Opens := by
  rintro (h | h | h)
  · exact hc.1 (List.cons.inj h).1
  · exact hc.2.1 (List.cons.inj h).1
  · exact hc.2.2 (List.cons.inj h).1

/-- The tokens of the filter after the opening, up to `NULL`. -/
def filterTokens (t : Text) : List Token :=
  [.str t, .word "AND".toList, .word "DELETED_AT".toList, .word "IS".toList, .word "NULL".toList]

theorem filter_not_opens (t : Text) : ∀ u ∈ openingTokens ++ filterTokens t, ¬ u.Opens := by
  intro u hu
  rcases List.mem_append.1 hu with hu | hu
  · fin_cases hu
    · exact not_opens_of_head (by decide) _
    · exact not_opens_of_head (by decide) _
    · rintro (h | h) <;> exact absurd h (by decide)
  · fin_cases hu
    · exact not_false
    · exact not_opens_of_head (by decide) _
    · rintro (h | h | h) <;> exact absurd h (by decide)
    · exact not_opens_of_head (by decide) _
    · exact not_opens_of_head (by decide) _

/-- The emitted text where the tenant id is verbatim. -/
theorem tokens_filter {p z w : Text} {ts us : List Token} {state : LexState}
    (hcut : cut p = some ts) (t : Text) (hscan : scan .gap (' ' :: z) = (us, state)) :
    tokens (p ++ (opening ++ (escape t ++ '\'' :: ' ' :: (z ++ w)))) =
      emit (ts ++ (openingTokens ++ .str t :: us)) (lex state w) := by
  have hlex : lex .gap (' ' :: (z ++ w)) = emit us (lex state w) := by
    rw [← List.cons_append, lex_append, hscan]
  obtain ⟨f, hf, rfl⟩ := cut_eq_some hcut
  rw [tokens, lex_append, lex_append, scan_opening_flush hf, lex_escape [] t (by decide), hlex,
    emit_emit, emit_emit, emit_emit]
  simp

/-- The emitted text in front of an existing condition. -/
theorem tokens_inserted {t : Text} {ts : List Token} (hcut : cut before = some ts)
    (hrep : replaces t = false) (matched after : Text) :
    tokens (before ++ (opening ++ (filled before matched after t ++ after))) =
      emit (ts ++ (openingTokens ++ filterTokens t ++
        [.word (upper ("AND".toList ++ after.takeWhile isIdent))]))
        (lex .gap (after.dropWhile isIdent)) := by
  have hrest : filterRest = '\'' :: ' ' :: "AND deleted_at IS NULL AND".toList := rfl
  have hscan : scan .gap (' ' :: "AND deleted_at IS NULL AND".toList) =
      ((filterTokens t).tail, .word "AND".toList) := rfl
  rw [filled_verbatim hrep, hrest, List.append_assoc, List.cons_append, List.cons_append,
    tokens_filter hcut t hscan, lex_word, emit_emit]
  simp [filterTokens]

theorem literal_where {ts all : List Token} (haround : Around before matched after)
    (hcut : cut before = some ts) (hall : tokens (before ++ (matched ++ after)) = some all)
    (t : Text) : literal (filled before matched after t ++ after) = t ↔ replaces t = false := by
  rw [tokens_where hcut haround.keyword] at hall
  obtain ⟨vs, hvs, -⟩ := emit_eq_some hall
  constructor
  · intro hlit
    by_contra hrep
    have hne := literal_filled_ne haround (sealed_after hvs) (t := t) (k := 0)
      (.inr (by simpa using hrep))
    exact hne (by simpa using hlit)
  · exact fun hrep => literal_filled hrep before matched after

/-- In front of an existing condition. -/
theorem inserted_where (hsel : isSelect s = true) (horg : mentionsOrgId s = false)
    (hw : exec whereKeyword s = some (before, matched, after)) (t : Text) :
    Inserted s t (filled before matched after t ++ after) := by
  have hs : s = before ++ (matched ++ after) := (execFrom_spec hw).1
  have haround := around_where hsel horg hw
  have hfront : insertionPrefix s = before := by simp [insertionPrefix, hw]
  have htext : injectFilters s t = before ++ (opening ++ (filled before matched after t ++ after)) := by
    rw [injectFilters_of_where hsel horg t hw, expand_filter, List.append_assoc]
  refine ⟨by rw [htext, hfront], hfront ▸ clear_before_where horg hw,
    (spread_filled haround t).occ_le org_id_ne_nil, ?_, ?_⟩
  · intro ts all hcut hall
    rw [hfront] at hcut
    rw [hs] at hall
    rw [literal_where haround hcut hall t, hw]
    exact ⟨fun h _ => h, fun h => h rfl⟩
  · intro ts all hcut hall hlit
    rw [hfront] at hcut
    rw [hs] at hall
    have hrep : replaces t = false := (literal_where haround hcut hall t).1 hlit
    have hemit := tokens_inserted hcut hrep matched after
    -- the rest of the condition is read after the end of a word in both texts
    rw [tokens_where hcut haround.keyword, lex_word] at hall
    obtain ⟨vs, hvs, rfl⟩ := emit_eq_some hall
    obtain ⟨rest, hlex, rfl⟩ := emit_eq_some hvs
    refine ⟨[.word (upper (matched ++ after.takeWhile isIdent))],
      openingTokens ++ filterTokens t ++ [.word (upper ("AND".toList ++ after.takeWhile isIdent))],
      rest, rfl, ?_, ?_, ?_⟩
    · rw [htext, hemit, hlex, emit_some, List.append_assoc]
    · have hupper : upper matched = "WHERE".toList := haround.keyword
      rw [upper, List.map_append]
      rw [upper] at hupper
      rw [hupper]
      simpa using not_opens_of_head (by decide) _
    · refine List.forall_mem_append.2 ⟨filter_not_opens t, fun v hv => ?_⟩
      cases List.mem_singleton.1 hv
      exact not_opens_of_head (by decide) _

theorem free_of_tail {p z : Text} (horg : mentionsOrgId s = false) (hs : s = p ++ z) :
    mentions z = 0 := by
  have hfree : occ Char.toLower "org_id".toList s = 0 := not_mentionsOrgId horg
  have hle := @occ_le_append_right _ _ _ Char.toLower "org_id".toList p z
  rw [← hs] at hle
  unfold mentions
  omega

/-- The first letter of a clause keyword. -/
theorem alpha_of_clause {m : Text} (hm : m.map Char.toUpper ∈ clauseKeywords) :
    ∃ a l, m = a :: l ∧ a.isAlpha = true := by
  cases m with
  | nil => simp [clauseKeywords] at hm
  | cons a l =>
    refine ⟨a, l, rfl, alpha_of_toUpper ?_⟩
    simp only [clauseKeywords, List.mem_cons, List.not_mem_nil, or_false] at hm
    rcases hm with h | h | h | h <;> (rw [(List.cons.inj h).1]; decide)

/-- In front of the first clause. -/
theorem inserted_clause (hsel : isSelect s = true) (horg : mentionsOrgId s = false)
    (hw : exec whereKeyword s = none)
    (hc : exec clauseKeywords s = some (before, matched, after)) (t : Text) :
    Inserted s t (escape t ++ '\'' :: ' ' ::
      ("AND deleted_at IS NULL ".toList ++ (matched ++ after))) := by
  obtain ⟨hs, hkey, -, -⟩ := execFrom_spec hc
  have hfront : insertionPrefix s = before := by simp [insertionPrefix, hw, hc]
  have htext : injectFilters s t = before ++ (opening ++ (escape t ++ '\'' :: ' ' ::
      ("AND deleted_at IS NULL ".toList ++ (matched ++ after)))) := by
    rw [injectFilters_of_clause hsel horg t hw hc, where_combined]
    rfl
  have hlit : literal (escape t ++ '\'' :: ' ' ::
      ("AND deleted_at IS NULL ".toList ++ (matched ++ after))) = t := literal_escape t (by decide) _
  refine ⟨by rw [htext, hfront], hfront ▸ clear_of_no_where horg hw hs, ?_, ?_, ?_⟩
  · exact (spread_escape (foreign_filter (free_of_tail horg hs)) t).occ_le org_id_ne_nil
  · intro ts all _ _
    exact iff_of_true hlit (by simp [hw])
  · intro ts all hcut hall _
    rw [hfront] at hcut
    have hscan : scan .gap (' ' :: "AND deleted_at IS NULL ".toList) =
        ((filterTokens t).tail, .gap) := rfl
    obtain ⟨a, l, hm, ha⟩ := alpha_of_clause hkey
    have hlex : tokens s = emit ts (lex .gap (matched ++ after)) := by
      rw [hs, hm, List.cons_append]
      exact tokens_cut hcut ha _
    rw [hlex] at hall
    obtain ⟨rest, hrest, rfl⟩ := emit_eq_some hall
    refine ⟨[], openingTokens ++ filterTokens t, rest, rfl, ?_, by simp, filter_not_opens t⟩
    rw [htext, tokens_filter hcut t hscan, hrest]
    simp [filterTokens]

/-- A `WHERE` that the added space ends stands at the end of the statement. -/
theorem clear_space (horg : mentionsOrgId s = false) (hw : exec whereKeyword s = none) :
    Clear (s ++ [' ']) := by
  have hfree : occ Char.toLower "org_id".toList s = 0 := not_mentionsOrgId horg
  refine clear_of ?_ fun x m c y hp hm hx hc => ?_
  · rw [mentions, occ_append_right org_id_ne_nil s (by simp), hfree]
    decide
  · rcases y.eq_nil_or_concat with rfl | ⟨y, d, rfl⟩
    · have hs : s = x ++ (m ++ []) := by
        rw [List.append_nil]
        exact (List.append_inj' hp rfl).1
      obtain ⟨b, k, a, hexec, -⟩ := exec_where hm hx (y := []) rfl
      rw [← hs, hw] at hexec
      cases hexec
    · have hp' : s ++ [' '] = x ++ (m ++ c :: y) ++ [d] := by rw [hp]; simp
      have hs : s = x ++ (m ++ c :: y) := (List.append_inj' hp' rfl).1
      obtain ⟨b, k, a, hexec, -⟩ := exec_where hm hx (y := c :: y) (wordEnds_cons hc y)
      rw [← hs, hw] at hexec
      cases hexec

/-- At the end. -/
theorem inserted_end (hsel : isSelect s = true) (horg : mentionsOrgId s = false)
    (hw : exec whereKeyword s = none) (hc : exec clauseKeywords s = none) (t : Text) :
    Inserted s t (escape t ++ '\'' :: ' ' :: ("AND deleted_at IS NULL".toList ++ [])) := by
  have hfront : insertionPrefix s = s ++ [' '] := by simp [insertionPrefix, hw, hc]
  have htext : injectFilters s t = s ++ [' '] ++ (opening ++ (escape t ++ '\'' :: ' ' ::
      ("AND deleted_at IS NULL".toList ++ []))) := by
    have hspace : " WHERE ".toList = ' ' :: "WHERE ".toList := rfl
    have hcombined := where_combined t []
    rw [List.append_nil] at hcombined
    rw [injectFilters_of_end hsel horg t hw hc, hspace, List.cons_append, hcombined,
      List.append_assoc]
    rfl
  have hlit : literal (escape t ++ '\'' :: ' ' :: ("AND deleted_at IS NULL".toList ++ [])) = t :=
    literal_escape t (by decide) _
  have hforeign : Foreign Char.toLower "org_id".toList
      ('\'' :: ' ' :: ("AND deleted_at IS NULL".toList ++ [])) := ⟨by simp, by decide⟩
  refine ⟨by rw [htext, hfront], ?_, (spread_escape hforeign t).occ_le org_id_ne_nil, ?_, ?_⟩
  · exact hfront ▸ clear_space horg hw
  · intro ts all _ _
    exact iff_of_true hlit (by simp [hw])
  · intro ts all hcut hall _
    rw [hfront] at hcut
    have hscan : scan .gap (' ' :: "AND deleted_at IS NULL".toList) =
        ((filterTokens t).tail.dropLast, .word "NULL".toList) := rfl
    have hts : ts = all := cut_space hall hcut
    refine ⟨[], openingTokens ++ filterTokens t, [], by simp [hts], ?_, by simp, filter_not_opens t⟩
    have hnull : lex (.word "NULL".toList) [] = some [.word "NULL".toList] := rfl
    rw [htext, tokens_filter hcut t hscan, hnull]
    simp [filterTokens]

/-- What the injector does with a `SELECT` that does not mention `org_id`. -/
theorem inserted (hsel : isSelect s = true) (horg : mentionsOrgId s = false) (t : Text) :
    ∃ R, Inserted s t R := by
  cases hw : exec whereKeyword s with
  | some found =>
    obtain ⟨before, matched, after⟩ := found
    exact ⟨_, inserted_where hsel horg hw t⟩
  | none =>
    cases hc : exec clauseKeywords s with
    | some found =>
      obtain ⟨before, matched, after⟩ := found
      exact ⟨_, inserted_clause hsel horg hw hc t⟩
    | none => exact ⟨_, inserted_end hsel horg hw hc t⟩

end Cases

/-! ## Which statements are scoped -/

/-- Tokens that open no block, exchanged for others, leave the number of blocks. -/
theorem length_blocks_exchange {t : Text} {ts us vs rest : List Token} (hus : ∀ u ∈ us, ¬ u.Opens)
    (hvs : ∀ v ∈ vs, ¬ v.Opens) :
    (read orgId t (ts ++ (us ++ rest))).blocks.length =
      (read orgId t (ts ++ (vs ++ rest))).blocks.length := by
  refine length_blocks_of_shape ?_
  unfold Sql.read
  simp only [List.foldl_append]
  refine shape_foldl ?_ rest
  rw [shape_foldl_of_not_opens hus, shape_foldl_of_not_opens hvs]

/-- A statement that does not mention `org_id` and is emitted as it is. -/
theorem not_scoped_of_free {s t : Text} (hfree : mentions s = 0) : ¬ Scoped orgId t s := by
  rintro ⟨ts, hts, hne, hall⟩
  have hle : weight "org_id".toList ts ≤ bound "org_id".toList s .gap :=
    lex_bound (by decide) (by decide) (by decide) hts
  have hbound : bound "org_id".toList s .gap = mentions s := rfl
  have hinf : ¬ predicate orgId t <:+: [] ++ ts := not_infix_of_weight (by simp) (by omega)
  have hzero : (read orgId t ts).guards = 0 :=
    (guards_of_absent (s := .init) hinf).trans guards_init
  have hone := (all_guarded_iff (by omega)).1 ⟨hne, hall⟩
  omega

/-- **The emitted text is scoped exactly for the statements of `ScopedBy`.** -/
theorem scoped_inject {s t : Text} (horg : mentionsOrgId s = false)
    (hlex : (tokens s).isSome = true) : Scoped orgId t (injectFilters s t) ↔ ScopedBy s t := by
  obtain ⟨all, hall⟩ := Option.isSome_iff_exists.1 hlex
  by_cases hsel : isSelect s = true
  · obtain ⟨R, hins⟩ := inserted hsel horg t
    constructor
    · rintro ⟨es, hes, hne, hguarded⟩
      rw [hins.text] at hes
      -- without its place or its value the filter guards no block
      by_cases hplace : ∃ ts b, cut (insertionPrefix s) = some ts ∧
          (read orgId t ts).top = some b ∧ b.phase = .head ∧ literal R = t
      · obtain ⟨ts, b, hcut, hb, hhead, hlit⟩ := hplace
        have hone := guards_placed hins.clear hins.count hes hcut hb hhead hlit
        have hlen := (all_guarded_iff (by omega)).1 ⟨hne, hguarded⟩
        obtain ⟨us, vs, rest, hts, hemit, hus, hvs⟩ := hins.tokens ts all hcut hall hlit
        rw [hins.text, hes, Option.some.injEq] at hemit
        refine ⟨hsel, ⟨all, hall, ?_⟩, ⟨ts, b, hcut, hb, hhead⟩,
          (hins.verbatim ts all hcut hall).1 hlit⟩
        rw [hts, length_blocks_exchange hus hvs, ← hemit]
        exact hlen.1
      · have hzero := guards_misplaced hins.clear hins.count hes hplace
        have hone := (all_guarded_iff (by omega)).1 ⟨hne, hguarded⟩
        omega
    · rintro ⟨-, ⟨all', hall', hsingle⟩, ⟨ts, b, hcut, hb, hhead⟩, hverbatim⟩
      have heq : all' = all := by
        rw [hall] at hall'
        exact (Option.some.inj hall').symm
      subst heq
      have hlit : literal R = t := (hins.verbatim ts all' hcut hall).2 hverbatim
      obtain ⟨us, vs, rest, rfl, hemit, hus, hvs⟩ := hins.tokens ts all' hcut hall hlit
      have hes := hemit
      rw [hins.text] at hes
      have hone := guards_placed hins.clear hins.count hes hcut hb hhead hlit
      refine ⟨_, hemit, (all_guarded_iff (by omega)).2 ⟨?_, hone⟩⟩
      rw [← length_blocks_exchange hus hvs]
      exact hsingle
  · rw [injectFilters_of_not_select (by simpa using hsel)]
    exact iff_of_false (not_scoped_of_free (not_mentionsOrgId horg)) fun h => hsel h.select

variable {V : Type}

/-- The text that the tag hands to the injector. -/
def statement (strings : List Text) (values : List (Interpolated V)) : Text :=
  trim (compose strings values ⟨[], []⟩).sql

/-- **The tag scopes a statement that does not mention `org_id` exactly if it satisfies
`ScopedBy`.** -/
theorem scoped_iff (tenantId : Text) (strings : List Text) (values : List (Interpolated V))
    (horg : mentionsOrgId (statement strings values) = false)
    (hlex : (tokens (statement strings values)).isSome = true) :
    Scoped orgId tenantId (sql tenantId strings values).text ↔
      ScopedBy (statement strings values) tenantId :=
  scoped_inject horg hlex

/-- `SELECT id FROM orders WHERE status = ${7}` -/
def selectStrings : List Text := ["SELECT id FROM orders WHERE status = ".toList, []]

theorem scoped_iff_select :
    Scoped orgId "acme".toList (sql "acme".toList selectStrings [.value 7]).text :=
  (scoped_iff "acme".toList selectStrings [.value 7] (by decide) (by decide)).2
    ⟨by decide, ⟨_, rfl, by decide⟩, ⟨_, _, rfl, rfl, rfl⟩, fun _ => by decide⟩

/-- `UPDATE orders SET status = ${7} WHERE id = ${1}` -/
def updateStrings : List Text :=
  ["UPDATE orders SET status = ".toList, " WHERE id = ".toList, []]

theorem update_not_scoped :
    ¬ ∀ (tenantId : Text) (strings : List Text) (values : List (Interpolated Nat)),
      mentionsOrgId (statement strings values) = false →
      (∃ ts ∈ tokens (statement strings values), (read orgId tenantId ts).blocks ≠ []) →
      Scoped orgId tenantId (sql tenantId strings values).text := by
  intro h
  have hscoped := h "acme".toList updateStrings [.value 7, .value 1] (by decide)
    (by decide)
  exact absurd hscoped (by decide +kernel)

/-- The second arm of a `UNION` is not scoped. -/
example : ¬ Scoped orgId "acme".toList
    (injectFilters "SELECT a FROM t UNION SELECT a FROM u".toList "acme".toList) := by
  decide +kernel

end Intellibiz.Db
