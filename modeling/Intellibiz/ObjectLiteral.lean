import Intellibiz.Numeral
import Intellibiz.Schema

/-!
# Object literals in source text

* `Expr` — texts, numbers, truth values, an environment variable with a fallback, arrays and
  objects.
* `Expr.eval` — the value under an environment.
* `parse` — the expression of a text.
* `Expr.text` — a layout: the fields of the two outer levels stand on lines of their own.

Principal results: `lookup_evalFields`, and `parse_text` (the layout is read back).
-/

namespace ObjectLiteral

open Schema (Value)

inductive Expr where
  | str (s : String)
  | num (n : ℕ)
  | bool (b : Bool)
  /-- `process.env['key'] ?? 'fallback'` -/
  | env (key fallback : String)
  | arr (es : List Expr)
  | obj (fields : List (String × Expr))

/-! ## Values -/

section Eval

variable (env : String → Option String)

mutual

def Expr.eval : Expr → Value
  | .str s => .str s
  | .num n => .num n
  | .bool b => .bool b
  | .env key fallback => .str ((env key).getD fallback)
  | .arr es => .arr (evals es)
  | .obj fields => .obj (evalFields fields)

def evals : List Expr → List Value
  | [] => []
  | e :: es => e.eval :: evals es

def evalFields : List (String × Expr) → List (String × Value)
  | [] => []
  | (key, e) :: fields => (key, e.eval) :: evalFields fields

end

@[simp] theorem eval_str (s : String) : (Expr.str s).eval env = .str s := rfl

@[simp] theorem eval_num (n : ℕ) : (Expr.num n).eval env = .num n := rfl

@[simp] theorem eval_bool (b : Bool) : (Expr.bool b).eval env = .bool b := rfl

@[simp] theorem eval_env (key fallback : String) :
    (Expr.env key fallback).eval env = .str ((env key).getD fallback) := rfl

@[simp] theorem eval_arr (es : List Expr) : (Expr.arr es).eval env = .arr (evals env es) := rfl

@[simp] theorem eval_obj (fields : List (String × Expr)) :
    (Expr.obj fields).eval env = .obj (evalFields env fields) := rfl

@[simp] theorem evalFields_nil : evalFields env [] = [] := rfl

@[simp] theorem evalFields_cons (key : String) (e : Expr) (fields : List (String × Expr)) :
    evalFields env ((key, e) :: fields) = (key, e.eval env) :: evalFields env fields := rfl

theorem evals_eq_map (es : List Expr) : evals env es = es.map (Expr.eval env) := by
  induction es with
  | nil => rfl
  | cons e es ih => rw [evals, ih, List.map_cons]

/-- A field of a value is the value of the field. -/
theorem lookup_evalFields (fields : List (String × Expr)) (key : String) :
    (evalFields env fields).lookup key = (fields.lookup key).map (Expr.eval env) := by
  induction fields with
  | nil => rfl
  | cons f fields ih =>
    obtain ⟨k, e⟩ := f
    rw [evalFields_cons, List.lookup_cons, List.lookup_cons]
    cases key == k with
    | true => rfl
    | false => exact ih

end Eval

/-! ## Reading -/

def isSpace (c : Char) : Bool := c = ' ' || c = '\t' || c = '\n'

def skip (s : List Char) : List Char := s.dropWhile isSpace

/-- What is behind `c`, when it comes next. -/
def token (c : Char) (s : List Char) : Option (List Char) :=
  match skip s with
  | [] => none
  | d :: rest => if d = c then some rest else none

/-- What is behind `w`, when the text begins with it. -/
def expect (w s : List Char) : Option (List Char) :=
  if w.isPrefixOf s then some (s.drop w.length) else none

/-- A character that stands for itself between single quotation marks. -/
def isPlain (c : Char) : Bool := c ≠ '\u0027' && c ≠ '\\' && c ≠ '\n'

/-- Up to the closing quotation mark. -/
def parseQuoted : List Char → Option (List Char × List Char)
  | [] => none
  | c :: rest =>
    if c = '\u0027' then some ([], rest)
    else if isPlain c then (parseQuoted rest).map fun p => (c :: p.1, p.2)
    else none

def isKeyChar (c : Char) : Bool := c.isAlphanum || c = '_' || c = '$'

/-- `process.env['` -/
def envOpen : List Char := "process.env['".toList

/-- `] ?? '` -/
def envElse : List Char := "] ?? '".toList

def parseEnv (s : List Char) : Option (Expr × List Char) :=
  match (expect envOpen s).bind parseQuoted with
  | none => none
  | some (key, rest) =>
    match (expect envElse rest).bind parseQuoted with
    | none => none
    | some (fallback, rest) => some (.env (String.ofList key) (String.ofList fallback), rest)

/-- A number, a truth value or an environment variable. -/
def parseWord (s : List Char) : Option (Expr × List Char) :=
  if s.takeWhile Char.isDigit ≠ [] then
    some (.num (Numeral.natural (s.takeWhile Char.isDigit)), s.dropWhile Char.isDigit)
  else
    match expect "true".toList s, expect "false".toList s with
    | some rest, _ => some (.bool true, rest)
    | none, some rest => some (.bool false, rest)
    | none, none => parseEnv s

mutual

def parseExpr : ℕ → List Char → Option (Expr × List Char)
  | 0, _ => none
  | n + 1, s =>
    match skip s with
    | [] => none
    | c :: rest =>
      if c = '\u0027' then
        (parseQuoted rest).map fun p => (.str (String.ofList p.1), p.2)
      else if c = '[' then
        match token ']' rest with
        | some rest => some (.arr [], rest)
        | none => (parseElements n rest).map fun p => (.arr p.1, p.2)
      else if c = '\x7b' then
        match token '\x7d' rest with
        | some rest => some (.obj [], rest)
        | none => (parseFields n rest).map fun p => (.obj p.1, p.2)
      else parseWord (c :: rest)

/-- The elements of an array, and what is behind its bracket. -/
def parseElements : ℕ → List Char → Option (List Expr × List Char)
  | 0, _ => none
  | n + 1, s =>
    match parseExpr n s with
    | none => none
    | some (e, rest) =>
      match token ',' rest with
      | some rest => (parseElements n rest).map fun p => (e :: p.1, p.2)
      | none => (token ']' rest).map fun rest => ([e], rest)

/-- The fields of an object, and what is behind its brace. -/
def parseFields : ℕ → List Char → Option (List (String × Expr) × List Char)
  | 0, _ => none
  | n + 1, s =>
    let key := (skip s).takeWhile isKeyChar
    if key = [] then none
    else
      match (token ':' ((skip s).dropWhile isKeyChar)).bind (parseExpr n) with
      | none => none
      | some (e, rest) =>
        match token ',' rest with
        | some rest => (parseFields n rest).map fun p => ((String.ofList key, e) :: p.1, p.2)
        | none => (token '\x7d' rest).map fun rest => ([(String.ofList key, e)], rest)

end

/-- The expression that a text consists of. -/
def parse (s : List Char) : Option Expr :=
  match parseExpr (s.length + 1) s with
  | some (e, rest) => if skip rest = [] then some e else none
  | none => none

/-! ## Writing -/

def boolText (b : Bool) : List Char := if b then "true".toList else "false".toList

def quoted (s : String) : List Char := '\u0027' :: s.toList ++ ['\u0027']

/-- What stands before a field or a brace: a new line with `tabs`, or a blank in an inner object. -/
def gap (depth tabs : ℕ) : List Char :=
  if depth < 2 then '\n' :: List.replicate tabs '\t' else [' ']

mutual

/-- The text of an expression `depth` levels down. -/
def Expr.text : Expr → ℕ → List Char
  | .str s, _ => quoted s
  | .num n, _ => Nat.toDigits 10 n
  | .bool b, _ => boolText b
  | .env key fallback, _ =>
    envOpen ++ (key.toList ++ '\u0027' :: (envElse ++ (fallback.toList ++ ['\u0027'])))
  | .arr es, depth => '[' :: (elementsText es depth ++ [']'])
  | .obj fields, depth => '\x7b' :: (fieldsText fields depth ++ (gap depth depth ++ ['\x7d']))

def elementsText : List Expr → ℕ → List Char
  | [], _ => []
  | [e], depth => e.text depth
  | e :: f :: es, depth => e.text depth ++ ',' :: ' ' :: elementsText (f :: es) depth

def fieldsText : List (String × Expr) → ℕ → List Char
  | [], _ => []
  | [(key, e)], depth =>
    gap depth (depth + 1) ++ (key.toList ++ ':' :: ' ' :: e.text (depth + 1))
  | (key, e) :: f :: fields, depth =>
    gap depth (depth + 1) ++ (key.toList ++ ':' :: ' ' :: (e.text (depth + 1) ++
      ',' :: fieldsText (f :: fields) depth))

end

mutual

/-- Texts without escapes, and identifiers for keys. -/
def Expr.wellFormed : Expr → Bool
  | .str s => s.toList.all isPlain
  | .num _ | .bool _ => true
  | .env key fallback => key.toList.all isPlain && fallback.toList.all isPlain
  | .arr es => elementsWellFormed es
  | .obj fields => fieldsWellFormed fields

def elementsWellFormed : List Expr → Bool
  | [] => true
  | e :: es => e.wellFormed && elementsWellFormed es

def fieldsWellFormed : List (String × Expr) → Bool
  | [] => true
  | (key, e) :: fields =>
    !key.toList.isEmpty && key.toList.all isKeyChar && e.wellFormed && fieldsWellFormed fields

end

theorem elementsText_eq_intercalate (es : List Expr) (depth : ℕ) :
    elementsText es depth = List.intercalate [',', ' '] (es.map fun e => e.text depth) := by
  induction es with
  | nil =>
    rw [elementsText]
    rfl
  | cons e es ih =>
    cases es with
    | nil => rw [elementsText, List.map_singleton, List.intercalate_singleton]
    | cons f es =>
      rw [elementsText, ih, List.map_cons, List.map_cons, List.map_cons,
        List.intercalate_cons_cons, List.append_assoc]
      rfl

/-! ## Reading what was written -/

variable {c : Char} {r s w : List Char} {n depth : ℕ}

theorem skip_cons (h : isSpace c = false) (s : List Char) : skip (c :: s) = c :: s :=
  List.dropWhile_cons_of_neg (by simp [h])

theorem skip_append (hw : ∀ d ∈ w, isSpace d = true) (s : List Char) : skip (w ++ s) = skip s :=
  List.dropWhile_append_of_pos hw

theorem isSpace_gap {d : Char} {tabs : ℕ} (h : d ∈ gap depth tabs) : isSpace d = true := by
  unfold gap at h
  split at h
  · rcases List.mem_cons.1 h with rfl | h
    · rfl
    · rw [List.eq_of_mem_replicate h]
      rfl
  · rw [List.mem_singleton.1 h]
    rfl

theorem token_gap {c d : Char} (hd : isSpace d = false) (tabs : ℕ) (s : List Char) :
    token c (gap depth tabs ++ d :: s) = if d = c then some s else none := by
  unfold token
  rw [skip_append fun _ => isSpace_gap, skip_cons hd]

theorem token_cons {c d : Char} (hd : isSpace d = false) (s : List Char) :
    token c (d :: s) = if d = c then some s else none := by
  unfold token
  rw [skip_cons hd]

theorem expect_append (w s : List Char) : expect w (w ++ s) = some s := by
  unfold expect
  rw [if_pos (by simp), List.drop_left]

theorem parseQuoted_append (hs : s.all isPlain = true) :
    parseQuoted (s ++ '\u0027' :: r) = some (s, r) := by
  induction s with
  | nil => rfl
  | cons c s ih =>
    rw [List.all_cons, Bool.and_eq_true] at hs
    have hc : c ≠ '\u0027' := by
      rintro rfl
      cases hs.1
    rw [List.cons_append, parseQuoted, if_neg hc, if_pos hs.1, ih hs.2]
    rfl

theorem parseExpr_skip (n : ℕ) {s t : List Char} (h : skip s = skip t) :
    parseExpr n s = parseExpr n t := by
  cases n with
  | zero => rw [parseExpr, parseExpr]
  | succ n => rw [parseExpr, parseExpr, h]

theorem parseElements_skip (n : ℕ) {s t : List Char} (h : skip s = skip t) :
    parseElements n s = parseElements n t := by
  cases n with
  | zero => rw [parseElements, parseElements]
  | succ n => rw [parseElements, parseElements, parseExpr_skip n h]

/-- No digit comes next, so a number ends here. -/
def NoDigit (r : List Char) : Prop := ∀ c ∈ r.head?, c.isDigit = false

theorem noDigit_cons (h : c.isDigit = false) (r : List Char) : NoDigit (c :: r) := by
  rintro d ⟨⟩
  exact h

theorem noDigit_gap (tabs : ℕ) (r : List Char) : NoDigit (gap depth tabs ++ r) := by
  unfold gap
  split
  · exact noDigit_cons (by decide) _
  · exact noDigit_cons (by decide) _

theorem parseWord_digits (m : ℕ) (hr : NoDigit r) :
    parseWord (Nat.toDigits 10 m ++ r) = some (.num m, r) := by
  have hdigits : ∀ c ∈ Nat.toDigits 10 m, c.isDigit = true := fun c => Numeral.isDigit_toDigits
  have hend : r.takeWhile Char.isDigit = [] ∧ r.dropWhile Char.isDigit = r := by
    cases r with
    | nil => exact ⟨rfl, rfl⟩
    | cons c r =>
      have hc : ¬ c.isDigit = true := by simp [hr c rfl]
      exact ⟨List.takeWhile_cons_of_neg hc, List.dropWhile_cons_of_neg hc⟩
  have htake : (Nat.toDigits 10 m ++ r).takeWhile Char.isDigit = Nat.toDigits 10 m := by
    rw [List.takeWhile_append_of_pos hdigits, hend.1, List.append_nil]
  have hdrop : (Nat.toDigits 10 m ++ r).dropWhile Char.isDigit = r := by
    rw [List.dropWhile_append_of_pos hdigits, hend.2]
  unfold parseWord
  rw [htake, hdrop, if_pos Nat.toDigits_ne_nil, Numeral.natural_toDigits]

theorem parseEnv_text {key fallback : String} (hkey : key.toList.all isPlain = true)
    (hfallback : fallback.toList.all isPlain = true) (depth : ℕ) (r : List Char) :
    parseEnv ((Expr.env key fallback).text depth ++ r) = some (.env key fallback, r) := by
  have hfirst : (Expr.env key fallback).text depth ++ r =
      envOpen ++ (key.toList ++ '\u0027' :: (envElse ++ (fallback.toList ++ '\u0027' :: r))) := by
    simp only [Expr.text, List.append_assoc, List.cons_append, List.nil_append]
  unfold parseEnv
  simp only [hfirst, expect_append, Option.bind_some, parseQuoted_append hkey,
    parseQuoted_append hfallback, String.ofList_toList]

theorem parseWord_bool (b : Bool) (r : List Char) :
    parseWord (boolText b ++ r) = some (.bool b, r) := by
  have htrue : "true".toList = ['t', 'r', 'u', 'e'] := by decide
  have hfalse : "false".toList = ['f', 'a', 'l', 's', 'e'] := by decide
  unfold parseWord boolText
  rw [htrue, hfalse]
  cases b <;> simp [expect]

theorem parseWord_env {key fallback : String} (hkey : key.toList.all isPlain = true)
    (hfallback : fallback.toList.all isPlain = true) (depth : ℕ) (r : List Char) :
    parseWord ((Expr.env key fallback).text depth ++ r) = some (.env key fallback, r) := by
  have hopen : envOpen = 'p' :: "rocess.env['".toList := by decide
  have hcons : (Expr.env key fallback).text depth ++ r =
      'p' :: ("rocess.env['".toList ++ (key.toList ++ '\u0027' :: (envElse ++
        (fallback.toList ++ '\u0027' :: r)))) := by
    rw [Expr.text, hopen]
    simp only [List.append_assoc, List.cons_append, List.nil_append]
  have htrue : "true".toList = ['t', 'r', 'u', 'e'] := by decide
  have hfalse : "false".toList = ['f', 'a', 'l', 's', 'e'] := by decide
  have henv := parseEnv_text hkey hfallback depth r
  rw [hcons] at henv ⊢
  unfold parseWord
  rw [htrue, hfalse]
  simpa [expect] using henv

theorem parseExpr_word {c : Char} (hspace : isSpace c = false) (hquote : c ≠ '\u0027')
    (hbracket : c ≠ '[') (hbrace : c ≠ '\x7b') (n : ℕ) (rest : List Char) :
    parseExpr (n + 1) (c :: rest) = parseWord (c :: rest) := by
  rw [parseExpr, skip_cons hspace]
  simp only [if_neg hquote, if_neg hbracket, if_neg hbrace]

theorem digit_spec {c : Char} (h : c.isDigit = true) :
    isSpace c = false ∧ c ≠ '\u0027' ∧ c ≠ '[' ∧ c ≠ '\x7b' ∧ c ≠ ']' := by
  refine ⟨?_, ?_, ?_, ?_, ?_⟩
  · rw [← Bool.not_eq_true]
    intro hspace
    simp only [isSpace, Bool.or_eq_true, decide_eq_true_eq] at hspace
    rcases hspace with (rfl | rfl) | rfl <;> cases h
  all_goals
    rintro rfl
    cases h

theorem key_spec {c : Char} (h : isKeyChar c = true) : isSpace c = false ∧ c ≠ '\x7d' := by
  constructor
  · rw [← Bool.not_eq_true]
    intro hspace
    simp only [isSpace, Bool.or_eq_true, decide_eq_true_eq] at hspace
    rcases hspace with (rfl | rfl) | rfl <;> cases h
  · rintro rfl
    cases h

/-- An expression begins with a character that closes no array. -/
theorem text_cons (e : Expr) (depth : ℕ) :
    ∃ c rest, e.text depth = c :: rest ∧ isSpace c = false ∧ c ≠ ']' := by
  cases e with
  | str s => exact ⟨_, _, rfl, by decide, by decide⟩
  | num m =>
    obtain ⟨c, rest, hcons⟩ := List.exists_cons_of_ne_nil (Nat.toDigits_ne_nil (b := 10) (n := m))
    have hc := digit_spec (Numeral.isDigit_toDigits (n := m) (hcons ▸ List.mem_cons_self))
    exact ⟨c, rest, hcons, hc.1, hc.2.2.2.2⟩
  | bool b => cases b <;> exact ⟨_, _, rfl, by decide, by decide⟩
  | env key fallback => exact ⟨_, _, rfl, by decide, by decide⟩
  | arr es => exact ⟨_, _, rfl, by decide, by decide⟩
  | obj fields => exact ⟨_, _, rfl, by decide, by decide⟩

/-- One field, whose expression is read back. -/
theorem parseFields_field {key : String} {e : Expr} {rest : List Char}
    (hne : key.toList ≠ []) (hkey : ∀ c ∈ key.toList, isKeyChar c = true)
    (hparse : parseExpr n (e.text (depth + 1) ++ rest) = some (e, rest)) :
    parseFields (n + 1) (gap depth (depth + 1) ++
        (key.toList ++ ':' :: ' ' :: (e.text (depth + 1) ++ rest))) =
      match token ',' rest with
      | some rest => (parseFields n rest).map fun p => ((key, e) :: p.1, p.2)
      | none => (token '\x7d' rest).map fun rest => ([(key, e)], rest) := by
  obtain ⟨c, cs, hcons⟩ := List.exists_cons_of_ne_nil hne
  have hskip : skip (gap depth (depth + 1) ++
      (key.toList ++ ':' :: ' ' :: (e.text (depth + 1) ++ rest))) =
      key.toList ++ ':' :: ' ' :: (e.text (depth + 1) ++ rest) := by
    rw [skip_append fun _ => isSpace_gap, hcons, List.cons_append]
    exact skip_cons (key_spec (hkey c (hcons ▸ List.mem_cons_self))).1 _
  have hcolon : ¬ isKeyChar ':' = true := by decide
  have htake : (key.toList ++ ':' :: ' ' :: (e.text (depth + 1) ++ rest)).takeWhile isKeyChar =
      key.toList := by
    rw [List.takeWhile_append_of_pos hkey, List.takeWhile_cons_of_neg hcolon, List.append_nil]
  have hdrop : (key.toList ++ ':' :: ' ' :: (e.text (depth + 1) ++ rest)).dropWhile isKeyChar =
      ':' :: ' ' :: (e.text (depth + 1) ++ rest) := by
    rw [List.dropWhile_append_of_pos hkey, List.dropWhile_cons_of_neg hcolon]
  have hblank : parseExpr n (' ' :: (e.text (depth + 1) ++ rest)) = some (e, rest) := by
    rw [← hparse]
    exact parseExpr_skip n rfl
  rw [parseFields]
  simp only [hskip, htake, hdrop, if_neg hne, token_cons (show isSpace ':' = false by decide),
    if_true, Option.bind_some, hblank, String.ofList_toList]

theorem fieldsWellFormed_cons {key : String} {e : Expr} {fields : List (String × Expr)}
    (h : fieldsWellFormed ((key, e) :: fields) = true) :
    key.toList ≠ [] ∧ (∀ c ∈ key.toList, isKeyChar c = true) ∧ e.wellFormed = true ∧
      fieldsWellFormed fields = true := by
  rw [fieldsWellFormed, Bool.and_eq_true, Bool.and_eq_true, Bool.and_eq_true] at h
  obtain ⟨⟨⟨hne, hkey⟩, he⟩, hfields⟩ := h
  refine ⟨?_, List.all_eq_true.1 hkey, he, hfields⟩
  intro hnil
  rw [hnil] at hne
  cases hne

theorem fieldsWellFormed_append (fields more : List (String × Expr)) :
    fieldsWellFormed (fields ++ more) = (fieldsWellFormed fields && fieldsWellFormed more) := by
  induction fields with
  | nil => rfl
  | cons f fields ih =>
    rw [List.cons_append, fieldsWellFormed, fieldsWellFormed, ih]
    simp only [Bool.and_assoc]

theorem fieldsText_cons (key : String) (e : Expr) (fields : List (String × Expr)) (depth : ℕ) :
    ∃ rest, fieldsText ((key, e) :: fields) depth =
      gap depth (depth + 1) ++ (key.toList ++ rest) := by
  cases fields with
  | nil => exact ⟨_, fieldsText.eq_2 depth key e⟩
  | cons f fields => exact ⟨_, fieldsText.eq_3 depth key e f fields⟩

theorem noDigit_comma (r : List Char) : NoDigit (',' :: r) := noDigit_cons (by decide) r

theorem parseExpr_str {s : String} (hs : s.toList.all isPlain = true) (n depth : ℕ)
    (r : List Char) : parseExpr (n + 1) ((Expr.str s).text depth ++ r) = some (.str s, r) := by
  have htext : (Expr.str s).text depth ++ r = '\u0027' :: (s.toList ++ '\u0027' :: r) := by
    simp only [Expr.text, quoted, List.cons_append, List.append_assoc, List.nil_append]
  rw [htext, parseExpr, skip_cons (by decide)]
  simp only [if_true, parseQuoted_append hs, Option.map_some, String.ofList_toList]

theorem parseExpr_num (m n depth : ℕ) (hr : NoDigit r) :
    parseExpr (n + 1) ((Expr.num m).text depth ++ r) = some (.num m, r) := by
  obtain ⟨c, rest, hcons⟩ := List.exists_cons_of_ne_nil (Nat.toDigits_ne_nil (b := 10) (n := m))
  obtain ⟨hspace, hquote, hbracket, hbrace, -⟩ :=
    digit_spec (Numeral.isDigit_toDigits (n := m) (hcons ▸ List.mem_cons_self))
  have hword := parseWord_digits m hr
  rw [hcons, List.cons_append] at hword
  rw [Expr.text, hcons, List.cons_append, parseExpr_word hspace hquote hbracket hbrace, hword]

theorem parseExpr_bool (b : Bool) (n depth : ℕ) (r : List Char) :
    parseExpr (n + 1) ((Expr.bool b).text depth ++ r) = some (.bool b, r) := by
  have hword := parseWord_bool b r
  rw [Expr.text]
  cases b with
  | true => exact (parseExpr_word (by decide) (by decide) (by decide) (by decide) n _).trans hword
  | false => exact (parseExpr_word (by decide) (by decide) (by decide) (by decide) n _).trans hword

theorem parseExpr_env {key fallback : String} (hkey : key.toList.all isPlain = true)
    (hfallback : fallback.toList.all isPlain = true) (n depth : ℕ) (r : List Char) :
    parseExpr (n + 1) ((Expr.env key fallback).text depth ++ r) = some (.env key fallback, r) :=
  (parseExpr_word (by decide) (by decide) (by decide) (by decide) n _).trans
    (parseWord_env hkey hfallback depth r)

theorem parseExpr_arr {es : List Expr}
    (hparse : es ≠ [] → parseElements n (elementsText es depth ++ ']' :: r) = some (es, r)) :
    parseExpr (n + 1) ((Expr.arr es).text depth ++ r) = some (.arr es, r) := by
  rw [Expr.text, List.cons_append, List.append_assoc, List.singleton_append, parseExpr,
    skip_cons (by decide)]
  cases es with
  | nil => rfl
  | cons e es =>
    have htoken : token ']' (elementsText (e :: es) depth ++ ']' :: r) = none := by
      obtain ⟨c, rest, hcons, hspace, hne⟩ := text_cons e depth
      cases es with
      | nil => rw [elementsText, hcons, List.cons_append, token_cons hspace, if_neg hne]
      | cons f es =>
        rw [elementsText, hcons, List.cons_append, List.cons_append, token_cons hspace, if_neg hne]
    simp only [htoken, hparse (List.cons_ne_nil e es), Option.map_some]
    rfl

theorem parseExpr_obj {fields : List (String × Expr)} (hwf : fieldsWellFormed fields = true)
    (hparse : fields ≠ [] →
      parseFields n (fieldsText fields depth ++ (gap depth depth ++ '\x7d' :: r)) =
        some (fields, r)) :
    parseExpr (n + 1) ((Expr.obj fields).text depth ++ r) = some (.obj fields, r) := by
  rw [Expr.text, List.cons_append, List.append_assoc, List.append_assoc, List.singleton_append,
    parseExpr, skip_cons (by decide)]
  match fields with
  | [] =>
    rw [fieldsText, List.nil_append]
    simp only [token_gap (show isSpace '\x7d' = false by decide)]
    rfl
  | (key, e) :: fields =>
    have htoken : token '\x7d' (fieldsText ((key, e) :: fields) depth ++
        (gap depth depth ++ '\x7d' :: r)) = none := by
      obtain ⟨hne, hkey, -, -⟩ := fieldsWellFormed_cons hwf
      obtain ⟨c, cs, hcons⟩ := List.exists_cons_of_ne_nil hne
      obtain ⟨hspace, hbrace⟩ := key_spec (hkey c (hcons ▸ List.mem_cons_self))
      obtain ⟨rest, htext⟩ := fieldsText_cons key e fields depth
      rw [htext, hcons, List.append_assoc, List.cons_append, List.cons_append,
        token_gap hspace, if_neg hbrace]
    simp only [htoken, hparse (List.cons_ne_nil (key, e) fields), Option.map_some]
    rfl

mutual

theorem parseExpr_text (e : Expr) (depth n : ℕ) (r : List Char) (hwf : e.wellFormed = true)
    (hn : (e.text depth).length < n) (hr : NoDigit r) :
    parseExpr n (e.text depth ++ r) = some (e, r) := by
  obtain ⟨n, rfl⟩ := Nat.exists_eq_succ_of_ne_zero (Nat.ne_of_gt (Nat.zero_lt_of_lt hn))
  match e with
  | .str s =>
    rw [Expr.wellFormed] at hwf
    exact parseExpr_str hwf n depth r
  | .num m => exact parseExpr_num m n depth hr
  | .bool b => exact parseExpr_bool b n depth r
  | .env key fallback =>
    rw [Expr.wellFormed, Bool.and_eq_true] at hwf
    exact parseExpr_env hwf.1 hwf.2 n depth r
  | .arr es =>
    rw [Expr.wellFormed] at hwf
    rw [Expr.text, List.length_cons, List.length_append, List.length_singleton] at hn
    exact parseExpr_arr fun hne => parseElements_text es depth n r hne hwf (by omega)
  | .obj fields =>
    rw [Expr.wellFormed] at hwf
    rw [Expr.text, List.length_cons, List.length_append, List.length_append,
      List.length_singleton] at hn
    exact parseExpr_obj hwf fun hne => parseFields_text fields depth n r hne hwf (by omega)

theorem parseElements_text (es : List Expr) (depth n : ℕ) (r : List Char) (hne : es ≠ [])
    (hwf : elementsWellFormed es = true) (hn : (elementsText es depth).length + 1 < n) :
    parseElements n (elementsText es depth ++ ']' :: r) = some (es, r) := by
  obtain ⟨n, rfl⟩ := Nat.exists_eq_succ_of_ne_zero (Nat.ne_of_gt (Nat.zero_lt_of_lt hn))
  match es with
  | [e] =>
    rw [elementsWellFormed, Bool.and_eq_true] at hwf
    rw [elementsText] at hn ⊢
    have he := parseExpr_text e depth n (']' :: r) hwf.1 (by omega) (noDigit_cons (by decide) r)
    rw [parseElements, he]
    simp only [token_cons (show isSpace ']' = false by decide)]
    rfl
  | e :: f :: es =>
    rw [elementsWellFormed, Bool.and_eq_true] at hwf
    rw [elementsText, List.length_append, List.length_cons, List.length_cons] at hn
    have he := parseExpr_text e depth n
      (',' :: ' ' :: (elementsText (f :: es) depth ++ ']' :: r)) hwf.1 (by omega) (noDigit_comma _)
    have hes := parseElements_text (f :: es) depth n r (List.cons_ne_nil f es) hwf.2 (by omega)
    have hblank : parseElements n (' ' :: (elementsText (f :: es) depth ++ ']' :: r)) =
        some (f :: es, r) := by
      rw [← hes]
      exact parseElements_skip n rfl
    rw [elementsText, List.append_assoc, List.cons_append, List.cons_append, parseElements, he]
    simp only [token_cons (show isSpace ',' = false by decide), if_true, hblank]
    rfl

theorem parseFields_text (fields : List (String × Expr)) (depth n : ℕ) (r : List Char)
    (hne : fields ≠ []) (hwf : fieldsWellFormed fields = true)
    (hn : (fieldsText fields depth).length + 1 < n) :
    parseFields n (fieldsText fields depth ++ (gap depth depth ++ '\x7d' :: r)) =
      some (fields, r) := by
  obtain ⟨n, rfl⟩ := Nat.exists_eq_succ_of_ne_zero (Nat.ne_of_gt (Nat.zero_lt_of_lt hn))
  match fields with
  | [(key, e)] =>
    obtain ⟨hne, hkey, hwf, -⟩ := fieldsWellFormed_cons hwf
    rw [fieldsText, List.length_append, List.length_append, List.length_cons,
      List.length_cons] at hn
    have he := parseExpr_text e (depth + 1) n (gap depth depth ++ '\x7d' :: r) hwf (by omega)
      (noDigit_gap depth _)
    rw [fieldsText, List.append_assoc, List.append_assoc, List.cons_append, List.cons_append,
      parseFields_field hne hkey he]
    simp only [token_gap (show isSpace '\x7d' = false by decide)]
    rfl
  | (key, e) :: f :: fields =>
    obtain ⟨hne, hkey, hwf, hfields⟩ := fieldsWellFormed_cons hwf
    rw [fieldsText, List.length_append, List.length_append, List.length_cons, List.length_cons,
      List.length_append, List.length_cons] at hn
    have he := parseExpr_text e (depth + 1) n
      (',' :: (fieldsText (f :: fields) depth ++ (gap depth depth ++ '\x7d' :: r))) hwf (by omega)
      (noDigit_comma _)
    have hrest := parseFields_text (f :: fields) depth n r (List.cons_ne_nil f fields) hfields
      (by omega)
    rw [fieldsText, List.append_assoc, List.append_assoc, List.cons_append, List.cons_append,
      List.append_assoc, List.cons_append, parseFields_field hne hkey he]
    simp only [token_cons (show isSpace ',' = false by decide), if_true, hrest]
    rfl

end

/-- **The layout of an expression is read back.** -/
theorem parse_text {e : Expr} (hwf : e.wellFormed = true) (depth : ℕ) :
    parse (e.text depth) = some e := by
  have hparse := parseExpr_text e depth _ [] hwf (Nat.lt_succ_self _) nofun
  rw [List.append_nil] at hparse
  unfold parse
  rw [hparse]
  rfl

end ObjectLiteral
