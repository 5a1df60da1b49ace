import Intellibiz.Sql.Lexer

/-!
# The `sql` tagged template

Model of `packages/db/src/sql/template.ts`.  A string of the source is the list of its
characters.

* `trim`, `toUpperCase`, `toLowerCase`, `exec`, `expand` — the string and regular expression
  functions that the source uses, at the arguments it gives them.
* `injectFilters` — the injector of the tenant and soft-delete filter.
* `interpolate` / `compose` — the loop shared by `sql` and `sql.fragment`; `SqlFragment.join`.

Principal results: `execFrom_spec` and `execFrom_leftmost` (what a regular expression search returns) and
the equations `injectFilters_of_where`, `injectFilters_of_clause`, `injectFilters_of_end`.
-/

namespace Intellibiz.Db

open Sql

abbrev Text := List Char

/-! ## String functions -/

/-- The white space and line terminators of ECMAScript. -/
def isJsSpace (c : Char) : Bool :=
  c ∈ ['\t', '\n', '\u000b', '\u000c', '\r', ' ', '\u00a0', '\u1680', '\u2028', '\u2029', '\u202f',
    '\u205f', '\u3000', '\ufeff'] || (0x2000 ≤ c.toNat && c.toNat ≤ 0x200a)

def trim (s : Text) : Text := (s.dropWhile isJsSpace).rdropWhile isJsSpace

theorem rdropWhile_spec (s : Text) :
    ∃ w, s = s.rdropWhile isJsSpace ++ w ∧ ∀ c ∈ w, isJsSpace c = true := by
  induction s using List.reverseRecOn with
  | nil => exact ⟨[], rfl, by simp⟩
  | append_singleton s c ih =>
    rw [List.rdropWhile_concat]
    split
    · rename_i hc
      obtain ⟨w, hs, hw⟩ := ih
      refine ⟨w ++ [c], by rw [← List.append_assoc, ← hs], ?_⟩
      simpa [or_imp, forall_and] using ⟨hw, hc⟩
    · exact ⟨[], by simp, by simp⟩

theorem trim_spec (s : Text) :
    ∃ a b, s = a ++ trim s ++ b ∧ (∀ c ∈ a, isJsSpace c = true) ∧
      ∀ c ∈ b, isJsSpace c = true := by
  obtain ⟨b, hb, hspace⟩ := rdropWhile_spec (s.dropWhile isJsSpace)
  refine ⟨s.takeWhile isJsSpace, b, ?_, fun c hc => List.mem_takeWhile_imp hc, hspace⟩
  unfold trim
  rw [List.append_assoc, ← hb, List.takeWhile_append_dropWhile]

/-- The upper case of a character, where it has an ASCII letter; the upper case of any other
character outside ASCII contains none, and the character stands for it. -/
def upperChar (c : Char) : Text :=
  match c with
  | 'ß' => "SS".toList
  | 'ŉ' => "ʼN".toList
  | 'ı' => "I".toList
  | 'ſ' => "S".toList
  | 'ǰ' => "J\u030c".toList
  | 'ẖ' => "H\u0331".toList
  | 'ẗ' => "T\u0308".toList
  | 'ẘ' => "W\u030a".toList
  | 'ẙ' => "Y\u030a".toList
  | 'ẚ' => "Aʾ".toList
  | 'ﬀ' => "FF".toList
  | 'ﬁ' => "FI".toList
  | 'ﬂ' => "FL".toList
  | 'ﬃ' => "FFI".toList
  | 'ﬄ' => "FFL".toList
  | 'ﬅ' => "ST".toList
  | 'ﬆ' => "ST".toList
  | c => [c.toUpper]

def toUpperCase (s : Text) : Text := s.flatMap upperChar

/-- The lower case of a character, where it has an ASCII letter; see `upperChar`. -/
def lowerChar (c : Char) : Text :=
  match c with
  | 'İ' => "i\u0307".toList
  | '\u212a' => "k".toList
  | c => [c.toLower]

def toLowerCase (s : Text) : Text := s.flatMap lowerChar

def startsWith (start s : Text) : Bool := start.isPrefixOf s

def includes (needle : Text) (s : Text) : Bool := s.tails.any (needle.isPrefixOf ·)

/-! ## Regular expressions -/

/-- `\w` -/
def isWordChar (c : Char) : Bool := c.isAlphanum || c = '_'

/-- `\b` after a word character. -/
def wordEnds : Text → Bool
  | [] => true
  | c :: _ => !isWordChar c

/-- A keyword at the start of a text, ignoring case, and the `\b` after it: the matched text and
the rest. -/
def matchWord (s : Text) (keyword : Text) : Option (Text × Text) :=
  if (s.take keyword.length).map Char.toUpper = keyword ∧ wordEnds (s.drop keyword.length) = true
  then some (s.take keyword.length, s.drop keyword.length)
  else none

/-- The first match of `/\b(k1|k2|...)\b/i` in a text after a character that is (`prev`) or is not
a word character: the text before it, the matched text and the text after it. -/
def execFrom (keywords : List Text) : Bool → Text → Option (Text × Text × Text)
  | _, [] => none
  | prev, c :: s =>
    match if prev then none else keywords.findSome? (matchWord (c :: s)) with
    | some (matched, after) => some ([], matched, after)
    | none =>
      (execFrom keywords (isWordChar c) s).map fun (before, matched, after) =>
        (c :: before, matched, after)

def exec (keywords : List Text) (s : Text) : Option (Text × Text × Text) :=
  execFrom keywords false s

/-- A replacement string at a match without groups. -/
def expand (before matched after : Text) : Text → Text
  | '$' :: '$' :: s => '$' :: expand before matched after s
  | '$' :: '&' :: s => matched ++ expand before matched after s
  | '$' :: '`' :: s => before ++ expand before matched after s
  | '$' :: '\'' :: s => after ++ expand before matched after s
  | c :: s => c :: expand before matched after s
  | [] => []

/-! ## The injector -/

/-- `` `org_id = '${tenantId.replace(/'/g, "''")}'` `` -/
def tenantFilter (tenantId : Text) : Text :=
  "org_id = '".toList ++ (escape tenantId ++ "'".toList)

def softDeleteFilter : Text := "deleted_at IS NULL".toList

def combined (tenantId : Text) : Text :=
  tenantFilter tenantId ++ (" AND ".toList ++ softDeleteFilter)

def whereKeyword : List Text := ["WHERE".toList]

def clauseKeywords : List Text :=
  ["ORDER BY".toList, "LIMIT".toList, "GROUP BY".toList, "HAVING".toList]

def isSelect (sql : Text) : Bool := startsWith "SELECT".toList (toUpperCase (trim sql))

def mentionsOrgId (sql : Text) : Bool := includes "org_id".toList (toLowerCase sql)

def injectFilters (sql tenantId : Text) : Text :=
  if !isSelect sql then sql
  else if mentionsOrgId sql then sql
  else
    match exec whereKeyword sql with
    | some (before, matched, after) =>
      before ++ (expand before matched after
        ("WHERE ".toList ++ (combined tenantId ++ " AND".toList)) ++ after)
    | none =>
      match exec clauseKeywords sql with
      | some (before, matched, after) =>
        before ++ ("WHERE ".toList ++ (combined tenantId ++ (" ".toList ++ (matched ++ after))))
      | none => sql ++ (" WHERE ".toList ++ combined tenantId)

/-! ## The tag -/

structure SqlFragment (V : Type) where
  sql : Text
  params : List V

structure SqlQuery (V : Type) where
  text : Text
  params : List V
  tenantId : Text

/-- An interpolated value; `isFragment` tells the two apart. -/
inductive Interpolated (V : Type) where
  | value (v : V)
  | fragment (f : SqlFragment V)

/-- `` `$${n}` `` -/
def placeholder (n : Nat) : Text := '$' :: Nat.toDigits 10 n

def parseInt (digits : Text) : Nat :=
  digits.foldl (fun n d => 10 * n + (d.toNat - '0'.toNat)) 0

/-- `replace(/\$(\d+)/g, (_, n) => `$${parseInt(n) + offset}`)`; `digits` are those read since
the last `$`, if the text is still inside a match. -/
def renumberFrom (offset : Nat) : Option Text → Text → Text
  | none, [] => []
  | none, c :: s => if c = '$' then renumberFrom offset (some []) s else c :: renumberFrom offset none s
  | some digits, [] => close digits
  | some digits, c :: s =>
    if c.isDigit then renumberFrom offset (some (digits ++ [c])) s
    else if c = '$' then close digits ++ renumberFrom offset (some []) s
    else close digits ++ c :: renumberFrom offset none s
where
  close (digits : Text) : Text :=
    if digits = [] then ['$'] else placeholder (parseInt digits + offset)

def renumber (offset : Nat) (sql : Text) : Text := renumberFrom offset none sql

variable {V : Type}

/-- Inline a fragment, its parameter indices offset by the parameters so far. -/
def inline (f : SqlFragment V) (acc : SqlFragment V) : SqlFragment V where
  sql := acc.sql ++ renumber acc.params.length f.sql
  params := acc.params ++ f.params

def interpolate (v : Interpolated V) (acc : SqlFragment V) : SqlFragment V :=
  match v with
  | .fragment f => inline f acc
  | .value v =>
    { sql := acc.sql ++ placeholder (acc.params.length + 1), params := acc.params ++ [v] }

/-- The loop over `strings` and `values`. -/
def compose : List Text → List (Interpolated V) → SqlFragment V → SqlFragment V
  | [], _, acc => acc
  | s :: strings, [], acc => compose strings [] { acc with sql := acc.sql ++ s }
  | s :: strings, v :: values, acc =>
    compose strings values (interpolate v { acc with sql := acc.sql ++ s })

/-- `sql.fragment` -/
def SqlFragment.template (strings : List Text) (values : List (Interpolated V)) : SqlFragment V :=
  compose strings values ⟨[], []⟩

/-- `sql.join` -/
def SqlFragment.join (fragments : List (SqlFragment V)) (separator : SqlFragment V) :
    SqlFragment V :=
  match fragments with
  | [] => ⟨[], []⟩
  | f :: rest => rest.foldl (fun acc g => inline g (inline separator acc)) (inline f ⟨[], []⟩)

/-- The tag itself, in a context with the given tenant. -/
def sql (tenantId : Text) (strings : List Text) (values : List (Interpolated V)) : SqlQuery V :=
  let composed := compose strings values ⟨[], []⟩
  { text := injectFilters (trim composed.sql) tenantId, params := composed.params, tenantId }

/-! ## What a search returns -/

/-- Whether a text ends inside a word, after a character that is (`prev`) or is not in one. -/
def endsInWord : Bool → Text → Bool
  | prev, [] => prev
  | _, c :: s => endsInWord (isWordChar c) s

theorem endsInWord_snoc (prev : Bool) (s : Text) (c : Char) :
    endsInWord prev (s ++ [c]) = isWordChar c := by
  induction s generalizing prev with
  | nil => rfl
  | cons d s ih => exact ih _

theorem isIdent_of_wordChar {c : Char} (h : isWordChar c = true) : isIdent c = true := by
  simp only [isWordChar, isIdent, Bool.or_eq_true] at h ⊢
  exact .inl h

theorem not_wordChar {c : Char} (h : isIdent c = false) : isWordChar c = false := by
  rw [Bool.eq_false_iff] at h ⊢
  exact fun hw => h (isIdent_of_wordChar hw)

theorem endsInWord_of_endsWord {s : Text} (h : EndsWord s) : endsInWord false s = false := by
  rcases s.eq_nil_or_concat with rfl | ⟨s, c, rfl⟩
  · rfl
  · rw [List.concat_eq_append] at h ⊢
    rw [endsInWord_snoc]
    exact not_wordChar (h c (by simp))

theorem matchWord_some {s keyword matched after : Text}
    (h : matchWord s keyword = some (matched, after)) :
    s = matched ++ after ∧ matched.map Char.toUpper = keyword ∧ wordEnds after = true := by
  unfold matchWord at h
  split at h
  · rename_i hm
    cases h
    exact ⟨(List.take_append_drop _ _).symm, hm.1, hm.2⟩
  · cases h

theorem matchWord_append {keyword matched after : Text} (hm : matched.map Char.toUpper = keyword)
    (ha : wordEnds after = true) :
    matchWord (matched ++ after) keyword = some (matched, after) := by
  have hlen : matched.length = keyword.length := by rw [← hm, List.length_map]
  have htake : (matched ++ after).take keyword.length = matched := by
    rw [← hlen, List.take_left]
  have hdrop : (matched ++ after).drop keyword.length = after := by
    rw [← hlen, List.drop_left]
  unfold matchWord
  rw [htake, hdrop, if_pos ⟨hm, ha⟩]

/-- A match is a keyword of the list that stands between word boundaries. -/
theorem execFrom_spec {keywords : List Text} {prev : Bool} {s before matched after : Text}
    (h : execFrom keywords prev s = some (before, matched, after)) :
    s = before ++ (matched ++ after) ∧ matched.map Char.toUpper ∈ keywords ∧
      endsInWord prev before = false ∧ wordEnds after = true := by
  induction s generalizing prev before with
  | nil => cases h
  | cons c s ih =>
    rw [execFrom] at h
    split at h
    · rename_i m a hfound
      cases h
      split at hfound
      · cases hfound
      · rename_i hprev
        obtain ⟨keyword, hmem, hmatch⟩ := List.exists_of_findSome?_eq_some hfound
        obtain ⟨hs, hm, ha⟩ := matchWord_some hmatch
        exact ⟨hs, hm ▸ hmem, by simpa [endsInWord] using hprev, ha⟩
    · obtain ⟨⟨b, m, a⟩, hrec, heq⟩ := Option.map_eq_some_iff.1 h
      cases heq
      obtain ⟨rfl, hrest⟩ := ih hrec
      exact ⟨rfl, hrest⟩

/-- No keyword stands before the first match. -/
theorem execFrom_leftmost {keywords : List Text} {keyword : Text} (hkey : keyword ∈ keywords)
    (hne : keyword ≠ []) {prev : Bool} {x m y : Text} (hm : m.map Char.toUpper = keyword)
    (hx : endsInWord prev x = false) (hy : wordEnds y = true) :
    ∃ before matched after,
      execFrom keywords prev (x ++ (m ++ y)) = some (before, matched, after) ∧
        before.length ≤ x.length := by
  induction x generalizing prev with
  | nil =>
    have hprev : prev = false := hx
    subst hprev
    have hfound : (keywords.findSome? (matchWord (m ++ y))).isSome := by
      rw [List.findSome?_isSome_iff]
      exact ⟨keyword, hkey, by rw [matchWord_append hm hy]; rfl⟩
    obtain ⟨⟨matched, after⟩, hfound⟩ := Option.isSome_iff_exists.1 hfound
    cases hs : m ++ y with
    | nil =>
      have : m = [] := (List.append_eq_nil_iff.1 hs).1
      subst this
      exact absurd hm.symm hne
    | cons c s =>
      rw [hs] at hfound
      refine ⟨[], matched, after, ?_, by simp⟩
      rw [List.nil_append, execFrom]
      simp [hfound]
  | cons c x ih =>
    have hx : endsInWord (isWordChar c) x = false := hx
    obtain ⟨before, matched, after, hrec, hlen⟩ := ih hx
    rw [List.cons_append, execFrom]
    cases hfound : if prev then none else keywords.findSome? (matchWord (c :: (x ++ (m ++ y)))) with
    | some found =>
      obtain ⟨matched', after'⟩ := found
      exact ⟨[], matched', after', rfl, by simp⟩
    | none =>
      refine ⟨c :: before, matched, after, ?_, by simpa using hlen⟩
      simp only [hrec]
      rfl

/-! ## What the injector tests -/

theorem not_mentionsOrgId {s : Text} (h : mentionsOrgId s = false) :
    Occurrence.occ Char.toLower "org_id".toList s = 0 := by
  by_contra hocc
  obtain ⟨a, b, rfl, hb⟩ := Occurrence.exists_of_occ hocc
  -- only two characters have a lower case that differs from the ASCII one
  have hlower : ∀ (pat l : Text), 'İ' ∉ pat → '\u212a' ∉ pat → pat <+: l.map Char.toLower →
      pat <+: toLowerCase l := by
    intro pat
    induction pat with
    | nil => intro l _ _ _; exact List.nil_prefix
    | cons p pat ih =>
      intro l hi hk hl
      cases l with
      | nil => simp at hl
      | cons c l =>
        rw [List.map_cons, List.cons_prefix_cons] at hl
        obtain ⟨rfl, hl⟩ := hl
        have hc : lowerChar c = [c.toLower] := by
          unfold lowerChar
          split
          · exact absurd (by simp) hi
          · exact absurd (by simp) hk
          · rfl
        rw [toLowerCase, List.flatMap_cons, hc, List.singleton_append, List.cons_prefix_cons]
        exact ⟨rfl, ih l (fun h => hi (by simp [h])) (fun h => hk (by simp [h])) hl⟩
  have hpre : "org_id".toList <+: toLowerCase b := hlower _ _ (by decide) (by decide) hb
  have hinc : mentionsOrgId (a ++ b) = true := by
    unfold mentionsOrgId includes
    rw [List.any_eq_true]
    refine ⟨toLowerCase b, ?_, by simpa using hpre⟩
    rw [List.mem_tails, toLowerCase, toLowerCase, List.flatMap_append]
    exact List.suffix_append _ _
  rw [h] at hinc
  cases hinc

theorem of_toUpper_eq {c u : Char} (h : c.toUpper = u) : c = u ∨ c = u.toLower := by
  by_cases hl : c.isLower = true
  · right
    rw [← h, Char.toLower_toUpper_eq_toLower,
      Char.toLower_eq_of_not_isUpper (Char.not_isUpper_of_isLower hl)]
  · left
    rw [← h, Char.toUpper_eq_of_not_isLower hl]

theorem of_toLower_eq {c u : Char} (h : c.toLower = u) : c = u ∨ c = u.toUpper := by
  by_cases hu : c.isUpper = true
  · right
    rw [← h, Char.toUpper_toLower_eq_toUpper,
      Char.toUpper_eq_of_not_isLower (Char.not_isLower_of_isUpper hu)]
  · left
    rw [← h, Char.toLower_eq_of_not_isUpper hu]

/-- `$`, and the letters of `W` and `org_id`. -/
def watched : List Char := ['$', 'w', 'W', 'o', 'O', 'r', 'R', 'g', 'G', '_', 'i', 'I', 'd', 'D']

theorem watched_of_toUpper {c : Char} (h : c.toUpper = 'W') : c ∈ watched := by
  rcases of_toUpper_eq h with rfl | rfl <;> decide

theorem watched_of_toLower {c : Char} (h : c.toLower ∈ "org_id".toList) : c ∈ watched := by
  have hmem : ∀ u ∈ ['o', 'r', 'g', '_', 'i', 'd'], u ∈ watched ∧ u.toUpper ∈ watched := by
    simp [watched]
  rcases of_toLower_eq (u := c.toLower) rfl with hc | hc
  · rw [hc]
    exact (hmem _ h).1
  · rw [hc]
    exact (hmem _ h).2

/-- A text that starts with a character which is neither white space nor, in upper case, an `S`. -/
theorem not_select_of_head {c : Char} (hspace : isJsSpace c = false)
    (hhead : (upperChar c).head? ≠ none ∧ (upperChar c).head? ≠ some 'S') (l : Text) :
    isSelect (c :: l) = false := by
  have hdrop : (c :: l).dropWhile isJsSpace = c :: l := by simp [hspace]
  obtain ⟨l', hl'⟩ : ∃ l', trim (c :: l) = c :: l' := by
    unfold trim
    rw [hdrop]
    cases hr : (c :: l).rdropWhile isJsSpace with
    | nil =>
      have hall := List.rdropWhile_eq_nil_iff.1 hr c (by simp)
      rw [hspace] at hall
      cases hall
    | cons d l' =>
      have hpre := List.rdropWhile_prefix isJsSpace (l := c :: l)
      rw [hr, List.cons_prefix_cons] at hpre
      exact ⟨l', by rw [hpre.1]⟩
  rw [Bool.eq_false_iff]
  intro h
  rw [isSelect, startsWith, hl', toUpperCase, List.flatMap_cons, List.isPrefixOf_iff_prefix] at h
  cases hu : upperChar c with
  | nil => simp [hu] at hhead
  | cons d u =>
    have hS : "SELECT".toList = 'S' :: "ELECT".toList := rfl
    rw [hu, hS, List.cons_append, List.cons_prefix_cons] at h
    exact hhead.2 (by rw [hu, h.1]; rfl)

/-- A text that the injector takes for a `SELECT` starts with white space or an `S`. -/
theorem head_of_isSelect {s : Text} (h : isSelect s = true) :
    ∃ c l, s = c :: l ∧ c ∉ watched := by
  cases s with
  | nil => cases h
  | cons c l =>
    refine ⟨c, l, rfl, fun hc => ?_⟩
    have hspace : ∀ d ∈ watched, isJsSpace d = false := by simp [watched, isJsSpace]
    have hhead : (upperChar c).head? ≠ none ∧ (upperChar c).head? ≠ some 'S' := by
      simp only [watched, List.mem_cons, List.not_mem_nil, or_false] at hc
      rcases hc with rfl | rfl | rfl | rfl | rfl | rfl | rfl | rfl | rfl | rfl | rfl | rfl | rfl | rfl
        <;> decide
    rw [not_select_of_head (hspace c hc) hhead l] at h
    cases h

/-! ## The branches of the injector -/

theorem injectFilters_of_not_select {s : Text} (h : isSelect s = false) (tenantId : Text) :
    injectFilters s tenantId = s := by
  simp [injectFilters, h]

theorem injectFilters_of_mention {s : Text} (h : mentionsOrgId s = true) (tenantId : Text) :
    injectFilters s tenantId = s := by
  simp [injectFilters, h]

section Branches

variable {s before matched after : Text} (hsel : isSelect s = true)
  (horg : mentionsOrgId s = false) (tenantId : Text)

include hsel horg

theorem injectFilters_of_where (hw : exec whereKeyword s = some (before, matched, after)) :
    injectFilters s tenantId = before ++ (expand before matched after
      ("WHERE ".toList ++ (combined tenantId ++ " AND".toList)) ++ after) := by
  simp [injectFilters, hsel, horg, hw]

theorem injectFilters_of_clause (hw : exec whereKeyword s = none)
    (hc : exec clauseKeywords s = some (before, matched, after)) :
    injectFilters s tenantId = before ++
      ("WHERE ".toList ++ (combined tenantId ++ (" ".toList ++ (matched ++ after)))) := by
  simp [injectFilters, hsel, horg, hw, hc]

theorem injectFilters_of_end (hw : exec whereKeyword s = none) (hc : exec clauseKeywords s = none) :
    injectFilters s tenantId = s ++ (" WHERE ".toList ++ combined tenantId) := by
  simp [injectFilters, hsel, horg, hw, hc]

end Branches

end Intellibiz.Db
