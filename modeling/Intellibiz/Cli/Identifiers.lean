import Intellibiz.Cli.CaseHelpers

/-!
# Names of scaffolded actions

Which names `scaffoldAction` makes identifiers of.

* `dropped` — a separator whose run is directly followed by a letter or digit.
* `camel` — the camel case of a text by what follows each character, without a pending run.
* `Identifies`, `NamesReserved` — what the trimmed name says about the name of the export.

Principal results: `joinWords_eq_camel`, `identifier_iff`, `reserved_iff` and
`scaffoldAction_identifiers_iff`.
-/

namespace Intellibiz.Cli

open Db (Text trim isJsSpace)

/-! ## Identifiers -/

/-- `[A-Za-z0-9_$]` -/
def isIdPart (c : Char) : Bool := c.isAlphanum || c = '_' || c = '$'

/-- `[A-Za-z_$][A-Za-z0-9_$]*` -/
def IsIdentifier (s : Text) : Prop :=
  ∃ c rest, s = c :: rest ∧ isIdStart c = true ∧ ∀ d ∈ rest, isIdPart d = true

/-- The reserved words of a module. -/
def reservedWords : List Text :=
  ["await", "break", "case", "catch", "class", "const", "continue", "debugger", "default", "delete",
    "do", "else", "enum", "export", "extends", "false", "finally", "for", "function", "if",
    "implements", "import", "in", "instanceof", "interface", "let", "new", "null", "package",
    "private", "protected", "public", "return", "static", "super", "switch", "this", "throw",
    "true", "try", "typeof", "var", "void", "while", "with", "yield"].map String.toList

/-! ## What is taken over of a name -/

/-- The character is a separator, and a letter or digit follows its run; `rest` is behind it. -/
def dropped (c : Char) (rest : Text) : Bool :=
  isSeparator c && (rest.dropWhile isSeparator).head?.any Char.isAlphanum

/-- Behind a letter, `_` or `$` that is taken over, all that is taken over is part of an
identifier. -/
def Identifies (t : Text) : Prop :=
  ∀ before a rest, t = before ++ a :: rest → dropped a rest = false → isIdStart a = true →
    ∀ between b after, rest = between ++ b :: after → dropped b after = false → isIdPart b = true

/-- The last character is none of a run. -/
def EndsInWord (t : Text) : Prop := ∀ c ∈ t.getLast?, isSeparator c = false

/-- A reserved word behind a part of which nothing is taken over that begins an identifier. -/
def NamesReserved (t : Text) : Prop :=
  ∃ front, ∃ word ∈ reservedWords, t = front ++ word ∧ EndsInWord front ∧
    ∀ before c after, front = before ++ c :: after → dropped c after = false → isIdStart c = false

/-! ## Camel case -/

/-- The camel case of a text; `upper` behind a run that was dropped. -/
def camel (upper : Bool) : Text → Text
  | [] => []
  | c :: rest =>
    if dropped c rest then camel true rest
    else (if upper then c.toUpper else c) :: camel false rest

theorem dropped_of_not_separator {c : Char} (h : isSeparator c = false) (rest : Text) :
    dropped c rest = false := by
  unfold dropped
  rw [h, Bool.false_and]

theorem camel_cons_dropped {c : Char} {rest : Text} (h : dropped c rest = true) (upper : Bool) :
    camel upper (c :: rest) = camel true rest := by
  rw [camel, if_pos h]

theorem camel_cons_kept {c : Char} {rest : Text} (h : dropped c rest = false) (upper : Bool) :
    camel upper (c :: rest) = (if upper then c.toUpper else c) :: camel false rest := by
  rw [camel, if_neg (by simp [h])]

/-- A run is dropped when a letter or digit is next behind it. -/
theorem joinWords_pending {pending : Text} (hpending : ∀ c ∈ pending, isSeparator c = true)
    (rest : Text) :
    joinWords pending rest =
      if pending ≠ [] ∧ (rest.dropWhile isSeparator).head?.any Char.isAlphanum = true then
        camel true rest
      else pending ++ camel false rest := by
  induction rest generalizing pending with
  | nil => simp [joinWords, camel]
  | cons c rest ih =>
    rw [joinWords]
    by_cases hsep : isSeparator c = true
    · have hrun : ∀ d ∈ pending ++ [c], isSeparator d = true := by
        intro d hd
        rcases List.mem_append.1 hd with hd | hd
        · exact hpending d hd
        · rw [List.mem_singleton.1 hd, hsep]
      rw [if_pos hsep, ih hrun, List.dropWhile_cons_of_pos hsep]
      by_cases hnext : (rest.dropWhile isSeparator).head?.any Char.isAlphanum = true
      · have hdropped : dropped c rest = true := by
          unfold dropped
          rw [hsep, hnext, Bool.and_self]
        rw [camel_cons_dropped hdropped, camel_cons_dropped hdropped, if_pos ⟨by simp, hnext⟩]
        by_cases hempty : pending = []
        · rw [if_neg (fun h => h.1 hempty), hempty, List.nil_append]
        · rw [if_pos ⟨hempty, hnext⟩]
      · have hkept : dropped c rest = false := by
          unfold dropped
          rw [Bool.eq_false_iff.2 hnext, Bool.and_false]
        rw [if_neg (fun h => hnext h.2), if_neg (fun h => hnext h.2), camel_cons_kept hkept,
          List.append_assoc]
        rfl
    · have hkept : dropped c rest = false :=
        dropped_of_not_separator (Bool.eq_false_iff.2 hsep) rest
      have hword : joinWords [] rest = camel false rest := by
        rw [ih (by simp), if_neg (fun h => h.1 rfl), List.nil_append]
      have hnext :
          ((c :: rest).dropWhile isSeparator).head?.any Char.isAlphanum = c.isAlphanum := by
        rw [List.dropWhile_cons_of_neg hsep]
        rfl
      rw [if_neg hsep, hword, hnext, camel_cons_kept hkept, camel_cons_kept hkept]
      rfl

/-- **Camel case, character by character.** -/
theorem joinWords_eq_camel (t : Text) : joinWords [] t = camel false t := by
  rw [joinWords_pending (by simp), if_neg (fun h => h.1 rfl), List.nil_append]

/-! ## Classes of characters -/

/-- A class that an upper case letter belongs to when the lower case one does. -/
def CaseFree (P : Char → Bool) : Prop := ∀ c, P c.toUpper = P c

theorem toUpper_cases (c : Char) :
    (c.isAlpha = true ∧ c.toUpper.isAlpha = true) ∨ c.toUpper = c := by
  by_cases h : c.isLower = true
  · have hc : c.isAlpha = true := by simp [Char.isAlpha, h]
    exact .inl ⟨hc, by rw [Char.isAlpha_toUpper_eq_isAlpha, hc]⟩
  · exact .inr (Char.toUpper_eq_of_not_isLower h)

theorem caseFree_isIdStart : CaseFree isIdStart := by
  intro c
  rcases toUpper_cases c with ⟨hc, hupper⟩ | h
  · simp [isIdStart, hc, hupper]
  · rw [h]

theorem caseFree_isIdPart : CaseFree isIdPart := by
  intro c
  rcases toUpper_cases c with ⟨hc, hupper⟩ | h
  · simp [isIdPart, Char.isAlphanum, hc, hupper]
  · rw [h]

theorem isIdPart_of_isIdStart {c : Char} (h : isIdStart c = true) : isIdPart c = true := by
  simp only [isIdStart, isIdPart, Char.isAlphanum, Bool.or_eq_true] at h ⊢
  rcases h with (h | h) | h
  · exact .inl (.inl (.inl h))
  · exact .inl (.inr h)
  · exact .inr h

theorem CaseFree.camel_head {P : Char → Bool} (hP : CaseFree P) (upper : Bool) (c : Char) :
    P (if upper then c.toUpper else c) = P c := by
  cases upper with
  | false => rfl
  | true => exact hP c

/-! ## Splits of a text -/

/-- What holds at each character and the text behind it. -/
theorem forall_split_cons {φ : Char → Text → Prop} {c : Char} {t : Text} :
    (∀ before d rest, c :: t = before ++ d :: rest → φ d rest) ↔
      φ c t ∧ ∀ before d rest, t = before ++ d :: rest → φ d rest := by
  constructor
  · intro h
    refine ⟨h [] c t rfl, fun before d rest ht => h (c :: before) d rest ?_⟩
    rw [ht]
    rfl
  · rintro ⟨hc, ht⟩ before d rest hsplit
    cases before with
    | nil =>
      cases hsplit
      exact hc
    | cons e before =>
      cases hsplit
      exact ht before d rest rfl

/-- All of a camel case is of a class when all that is taken over is. -/
theorem forall_camel_iff {P : Char → Bool} (hP : CaseFree P) (upper : Bool) (t : Text) :
    (∀ x ∈ camel upper t, P x = true) ↔
      ∀ before c rest, t = before ++ c :: rest → dropped c rest = false → P c = true := by
  induction t generalizing upper with
  | nil => simp [camel]
  | cons c t ih =>
    rw [forall_split_cons (φ := fun c rest => dropped c rest = false → P c = true)]
    by_cases h : dropped c t = true
    · rw [camel_cons_dropped h, ih]
      simp [h]
    · have hkept := Bool.eq_false_iff.2 h
      rw [camel_cons_kept hkept, List.forall_mem_cons, hP.camel_head, ih]
      simp [hkept]

/-- A relation between classes holds along a camel case when it does along what is taken over. -/
theorem pairwise_camel_iff {P Q : Char → Bool} (hP : CaseFree P) (hQ : CaseFree Q) (upper : Bool)
    (t : Text) :
    (camel upper t).Pairwise (fun a b => P a = true → Q b = true) ↔
      ∀ before a rest, t = before ++ a :: rest → dropped a rest = false → P a = true →
        ∀ between b after, rest = between ++ b :: after → dropped b after = false →
          Q b = true := by
  induction t generalizing upper with
  | nil => simp [camel]
  | cons c t ih =>
    rw [forall_split_cons (φ := fun a rest => dropped a rest = false → P a = true →
      ∀ between b after, rest = between ++ b :: after → dropped b after = false → Q b = true)]
    by_cases h : dropped c t = true
    · rw [camel_cons_dropped h, ih]
      simp [h]
    · have hkept := Bool.eq_false_iff.2 h
      rw [camel_cons_kept hkept, List.pairwise_cons, hP.camel_head, ih]
      refine and_congr_left' ?_
      rw [← forall_camel_iff hQ false t]
      constructor
      · intro hall _ hc x hx
        exact hall x hx hc
      · intro hall x hx hc
        exact hall hkept hc x hx

theorem forall_dropWhile_iff {P Q : Char → Bool} (hPQ : ∀ c, P c = true → Q c = true) (l : Text) :
    (∀ x ∈ l.dropWhile (fun c => !P c), Q x = true) ↔
      l.Pairwise fun a b => P a = true → Q b = true := by
  induction l with
  | nil => simp
  | cons c l ih =>
    rw [List.pairwise_cons]
    by_cases hc : P c = true
    · rw [List.dropWhile_cons_of_neg (by simp [hc]), List.forall_mem_cons]
      constructor
      · rintro ⟨-, hall⟩
        exact ⟨fun x hx _ => hall x hx,
          List.pairwise_of_forall_mem_list fun x _ y hy _ => hall y hy⟩
      · rintro ⟨hall, -⟩
        exact ⟨hPQ c hc, fun x hx => hall x hx hc⟩
    · rw [List.dropWhile_cons_of_pos (by simp [hc]), ih]
      simp [hc]

/-! ## Reserved words -/

/-- A text of lower case letters. -/
def LowerWord (word : Text) : Prop := word ≠ [] ∧ ∀ c ∈ word, c.isLower = true

theorem lowerWord_of_reserved {word : Text} (h : word ∈ reservedWords) : LowerWord word := by
  have hall : reservedWords.all (fun w => w ≠ [] && w.all Char.isLower) = true := by decide
  have hword := List.all_eq_true.1 hall word h
  simp only [Bool.and_eq_true, decide_eq_true_eq, List.all_eq_true] at hword
  exact hword

theorem isAlphanum_of_isLower {c : Char} (h : c.isLower = true) : c.isAlphanum = true := by
  simp [Char.isAlphanum, Char.isAlpha, h]

theorem isIdStart_of_isLower {c : Char} (h : c.isLower = true) : isIdStart c = true := by
  simp [isIdStart, Char.isAlpha, h]

theorem EndsInWord.dropWhile_ne_nil {front : Text} (h : EndsInWord front) (hne : front ≠ []) :
    front.dropWhile isSeparator ≠ [] := by
  intro hall
  have hlast := List.dropWhile_eq_nil_iff.1 hall _ (List.getLast_mem hne)
  rw [h _ (List.getLast?_eq_some_getLast hne)] at hlast
  cases hlast

/-- What is behind a word has no part in the separators in front of it. -/
theorem dropped_append {front : Text} (h : EndsInWord front) (hne : front ≠ []) (c : Char)
    (rest : Text) : dropped c (front ++ rest) = dropped c front := by
  obtain ⟨d, t, ht⟩ := List.exists_cons_of_ne_nil (h.dropWhile_ne_nil hne)
  unfold dropped
  rw [List.dropWhile_append, ht]
  rfl

theorem EndsInWord.tail {c : Char} {front : Text} (h : EndsInWord (c :: front)) :
    EndsInWord front := by
  cases front with
  | nil => nofun
  | cons d front => exact h

theorem EndsInWord.singleton {c : Char} (h : EndsInWord [c]) : isSeparator c = false := h c rfl

/-- The camel case of a text is that of a part that ends in a word, and of the rest. -/
theorem camel_append {front : Text} (h : EndsInWord front) (rest : Text) :
    camel false (front ++ rest) = camel false front ++ camel false rest := by
  suffices hgen : ∀ upper, front ≠ [] →
      camel upper (front ++ rest) = camel upper front ++ camel false rest by
    by_cases hne : front = []
    · rw [hne]
      rfl
    · exact hgen false hne
  intro upper hne
  induction front generalizing upper with
  | nil => exact absurd rfl hne
  | cons c front ih =>
    by_cases hfront : front = []
    · subst hfront
      have hkept := dropped_of_not_separator h.singleton
      rw [List.singleton_append, camel_cons_kept (hkept rest), camel_cons_kept (hkept [])]
      rfl
    · have hdropped := dropped_append h.tail hfront c rest
      cases hc : dropped c front with
      | true =>
        rw [List.cons_append, camel_cons_dropped (hdropped.trans hc), camel_cons_dropped hc]
        exact ih h.tail true hfront
      | false =>
        rw [List.cons_append, camel_cons_kept (hdropped.trans hc), camel_cons_kept hc,
          ih h.tail false hfront]
        rfl

theorem camel_lower {word : Text} (h : ∀ c ∈ word, c.isLower = true) : camel false word = word := by
  induction word with
  | nil => rfl
  | cons c word ih =>
    have hc := not_separator_of_alphanum (isAlphanum_of_isLower (h c List.mem_cons_self))
    rw [camel_cons_kept (dropped_of_not_separator hc word),
      ih fun d hd => h d (List.mem_cons_of_mem c hd)]
    rfl

/-- Something of every text is taken over: what ends its last run. -/
theorem camel_ne_nil {t : Text} (h : t ≠ []) (upper : Bool) : camel upper t ≠ [] := by
  induction t generalizing upper with
  | nil => exact absurd rfl h
  | cons c t ih =>
    cases hc : dropped c t with
    | false =>
      rw [camel_cons_kept hc]
      exact List.cons_ne_nil _ _
    | true =>
      rw [camel_cons_dropped hc]
      refine ih ?_ true
      rintro rfl
      simp [dropped] at hc

/-- A character that is kept in front of a word is kept without the word as well. -/
theorem kept_front {c : Char} {front word : Text} (hword : LowerWord word)
    (hends : EndsInWord front) (hc : dropped c (front ++ word) = false) :
    dropped c front = false ∧ EndsInWord (c :: front) := by
  by_cases hempty : front = []
  · subst hempty
    refine ⟨by simp [dropped], ?_⟩
    -- a separator would have been dropped in front of the word
    intro e he
    obtain rfl : c = e := Option.some.inj he
    obtain ⟨f, word, rfl⟩ := List.exists_cons_of_ne_nil hword.1
    have hf := isAlphanum_of_isLower (hword.2 f List.mem_cons_self)
    have hsep := not_separator_of_alphanum hf
    by_contra hc'
    rw [Bool.not_eq_false] at hc'
    rw [dropped, hc', List.nil_append, List.dropWhile_cons_of_neg (by simp [hsep])] at hc
    simp [hf] at hc
  · rw [dropped_append hends hempty] at hc
    refine ⟨hc, ?_⟩
    obtain ⟨e, front, rfl⟩ := List.exists_cons_of_ne_nil hempty
    exact hends

/-- A camel case ends in lower case letters only where the text does, behind a word. -/
theorem exists_front_of_camel {t x word : Text} {upper : Bool} (hword : LowerWord word)
    (h : camel upper t = x ++ word) :
    ∃ front, t = front ++ word ∧ EndsInWord front ∧ camel upper front = x ∧
      (front = [] → upper = false) := by
  induction t generalizing upper x word with
  | nil => exact absurd (List.append_eq_nil_iff.1 h.symm).2 hword.1
  | cons c t ih =>
    cases hc : dropped c t with
    | true =>
      rw [camel_cons_dropped hc] at h
      obtain ⟨front, rfl, hends, hcamel, hempty⟩ := ih hword h
      have hne : front ≠ [] := fun hfront => Bool.false_ne_true (hempty hfront).symm
      refine ⟨c :: front, rfl, ?_, ?_, fun hfront => absurd hfront (List.cons_ne_nil c front)⟩
      · obtain ⟨d, front, rfl⟩ := List.exists_cons_of_ne_nil hne
        exact hends
      · rw [dropped_append hends hne] at hc
        rw [camel_cons_dropped hc, hcamel]
    | false =>
      rw [camel_cons_kept hc] at h
      cases x with
      | nil =>
        -- the word begins here, and its first letter is none of a dropped run
        obtain ⟨d, word, rfl⟩ := List.exists_cons_of_ne_nil hword.1
        obtain ⟨hd, ht⟩ := List.cons.inj h
        have hlower : d.isLower = true := hword.2 d List.mem_cons_self
        have hupper : upper = false := by
          rw [← Bool.not_eq_true]
          rintro rfl
          rw [← hd, if_pos rfl, Char.isLower_toUpper_eq_false] at hlower
          cases hlower
        rw [hupper, if_neg Bool.false_ne_true] at hd
        have htext : t = word := by
          by_cases hempty : word = []
          · by_contra hne
            exact camel_ne_nil (fun hnil => hne (hnil.trans hempty.symm)) false (ht.trans hempty)
          · have hrest : LowerWord word :=
              ⟨hempty, fun e he => hword.2 e (List.mem_cons_of_mem d he)⟩
            obtain ⟨front, rfl, -, hcamel, -⟩ := ih (x := []) hrest ht
            have hfront : front = [] := by
              by_contra hne
              exact camel_ne_nil hne false hcamel
            rw [hfront, List.nil_append]
        exact ⟨[], by rw [hd, htext]; rfl, nofun, rfl, fun _ => hupper⟩
      | cons d x =>
        obtain ⟨hd, ht⟩ := List.cons.inj h
        obtain ⟨front, rfl, hends, hcamel, -⟩ := ih hword ht
        have hkept := kept_front hword hends hc
        refine ⟨c :: front, rfl, hkept.2, ?_, fun hnil => absurd hnil (List.cons_ne_nil c front)⟩
        rw [camel_cons_kept hkept.1, hd, hcamel]

/-! ## The names of an action -/

theorem toCamelCase_eq (name : Text) :
    toCamelCase name = (camel false (trim name)).dropWhile fun c => !isIdStart c := by
  unfold toCamelCase
  rw [joinWords_eq_camel]

example : toCamelCase " 2 order-items".toList = "OrderItems".toList := by decide +kernel

theorem toCamelCase_start {name : Text} {c : Char} {rest : Text}
    (h : toCamelCase name = c :: rest) : isIdStart c = true := by
  have hhead := List.head?_dropWhile_not (fun c => !isIdStart c) (joinWords [] (trim name))
  unfold toCamelCase at h
  rw [h] at hhead
  simpa using hhead

/-- The name of the export is an identifier when all that is behind its first character is. -/
theorem identifier_iff {name : Text} (hne : toCamelCase name ≠ []) :
    IsIdentifier (toCamelCase name) ↔ Identifies (trim name) := by
  unfold Identifies
  rw [← pairwise_camel_iff caseFree_isIdStart caseFree_isIdPart false,
    ← forall_dropWhile_iff (fun c => isIdPart_of_isIdStart), ← toCamelCase_eq]
  obtain ⟨c, rest, hname⟩ := List.exists_cons_of_ne_nil hne
  have hstart := toCamelCase_start hname
  rw [hname, List.forall_mem_cons]
  constructor
  · rintro ⟨d, t, ht, -, hparts⟩
    cases ht
    exact ⟨isIdPart_of_isIdStart hstart, hparts⟩
  · rintro ⟨-, hparts⟩
    exact ⟨c, rest, rfl, hstart, hparts⟩

/-- The first letter in upper case and `Input` behind it make no difference to that. -/
theorem identifier_schema_iff {name : Text} (hne : toCamelCase name ≠ []) :
    IsIdentifier (toPascalCase name ++ "Input".toList) ↔ IsIdentifier (toCamelCase name) := by
  obtain ⟨c, rest, hname⟩ := List.exists_cons_of_ne_nil hne
  have hstart := toCamelCase_start hname
  have hinput : ∀ d ∈ "Input".toList, isIdPart d = true := by simp [isIdPart]
  unfold toPascalCase
  rw [hname, List.modifyHead_cons, List.cons_append]
  constructor
  · rintro ⟨d, t, ht, -, hparts⟩
    cases ht
    exact ⟨c, rest, rfl, hstart, fun e he => hparts e (List.mem_append_left _ he)⟩
  · rintro ⟨d, t, ht, -, hparts⟩
    cases ht
    refine ⟨_, _, rfl, (caseFree_isIdStart c).trans hstart, fun e he => ?_⟩
    rcases List.mem_append.1 he with he | he
    · exact hparts e he
    · exact hinput e he

theorem reserved_iff (name : Text) :
    toCamelCase name ∈ reservedWords ↔ NamesReserved (trim name) := by
  rw [toCamelCase_eq]
  have hstart : ∀ front : Text, (∀ x ∈ camel false front, (!isIdStart x) = true) ↔
      ∀ before c after, front = before ++ c :: after → dropped c after = false →
        isIdStart c = false := by
    intro front
    rw [forall_camel_iff (fun c => congrArg not (caseFree_isIdStart c))]
    simp only [Bool.not_eq_true']
  constructor
  · intro hword
    have hlower := lowerWord_of_reserved hword
    obtain ⟨front, ht, hends, hcamel, -⟩ :=
      exists_front_of_camel hlower (List.takeWhile_append_dropWhile).symm
    refine ⟨front, _, hword, ht, hends, (hstart front).1 ?_⟩
    rw [hcamel]
    exact fun x hx => List.mem_takeWhile_imp (p := fun c => !isIdStart c) hx
  · rintro ⟨front, word, hword, ht, hends, hfront⟩
    have hlower := lowerWord_of_reserved hword
    rw [ht, camel_append hends, camel_lower hlower.2,
      List.dropWhile_append_of_pos ((hstart front).2 hfront)]
    obtain ⟨c, rest, rfl⟩ := List.exists_cons_of_ne_nil hlower.1
    have hc := isIdStart_of_isLower (hlower.2 c List.mem_cons_self)
    rwa [List.dropWhile_cons_of_neg (by simp [hc])]

theorem scaffoldAction_ok {rawName : Text} {action : ScaffoldedAction}
    (h : scaffoldAction rawName = .ok action) :
    toCamelCase rawName ≠ [] ∧ action.exportName = toCamelCase rawName ∧
      action.schemaName = toPascalCase rawName ++ "Input".toList := by
  unfold scaffoldAction at h
  simp only at h
  split at h
  · cases h
  · rename_i hnames
    cases h
    exact ⟨fun hempty => hnames (.inr hempty), rfl, rfl⟩

end Intellibiz.Cli
