import Mathlib
import Intellibiz.Sql.Occurrence

/-!
# A lexer for SQL

Words (keywords, names and numbers, in upper case), string literals, quoted names, `$n`
parameters and single symbols, with line and block comments.  Unquoted names may contain
letters outside ASCII.

* `lex s l` — the tokens of the text `l` read from state `s`, if the text may end there.
* `scan s l` — the tokens completed and the state reached; `lex_append` cuts a text in two.
* `flush` — the token that a letter completes, in the states where a letter starts a new one.

Principal results: `lex_word`, `lex_str` (what is read from inside a word and from inside a
literal) and `lex_weight` (a text has at least the occurrences of a word that its tokens have).
-/

namespace Sql

open Occurrence

inductive Token where
  | word (w : List Char)
  | str (value : List Char)
  | quoted (name : List Char)
  | param (digits : List Char)
  | sym (c : Char)
  deriving DecidableEq, Repr

inductive LexState where
  | gap
  | word (acc : List Char)
  | param (acc : List Char)
  /-- A `-` or `/` that may start a comment. -/
  | pend (c : Char)
  | str (acc : List Char)
  /-- A quote inside a literal, which ends it unless another quote follows. -/
  | strEnd (acc : List Char)
  | quoted (acc : List Char)
  | quotedEnd (acc : List Char)
  | line
  | block
  | blockStar
  | bad
  deriving DecidableEq, Repr

/-- Words are compared by `==` and by `=` alike. -/
instance lawfulBEq_word : LawfulBEq (List Char) := inferInstance

def isSpace (c : Char) : Bool :=
  c = ' ' || c = '\t' || c = '\n' || c = '\r' || c = '\u000b' || c = '\u000c'

def isIdent (c : Char) : Bool := c.isAlphanum || c = '_' || 128 ≤ c.toNat

def upper (w : List Char) : List Char := w.map Char.toUpper

/-- The first character of a token. -/
def start (c : Char) : List Token × LexState :=
  if isSpace c then ([], .gap)
  else if isIdent c then ([], .word [c])
  else if c = '\'' then ([], .str [])
  else if c = '"' then ([], .quoted [])
  else if c = '$' then ([], .param [])
  else if c = '-' ∨ c = '/' then ([], .pend c)
  else ([.sym c], .gap)

/-- Complete the tokens `ts` and start the next one. -/
def restart (ts : List Token) (c : Char) : List Token × LexState :=
  (ts ++ (start c).1, (start c).2)

def step : LexState → Char → List Token × LexState
  | .gap, c => start c
  | .word acc, c =>
    if isIdent c then ([], .word (acc ++ [c])) else restart [.word (upper acc)] c
  | .param acc, c =>
    if c.isDigit then ([], .param (acc ++ [c]))
    else if acc = [] ∨ isIdent c = true then ([], .bad)
    else restart [.param acc] c
  | .pend p, c =>
    if p = '-' ∧ c = '-' then ([], .line)
    else if p = '/' ∧ c = '*' then ([], .block)
    else restart [.sym p] c
  | .str acc, c => if c = '\'' then ([], .strEnd acc) else ([], .str (acc ++ [c]))
  | .strEnd acc, c =>
    if c = '\'' then ([], .str (acc ++ ['\''])) else restart [.str acc] c
  | .quoted acc, c => if c = '"' then ([], .quotedEnd acc) else ([], .quoted (acc ++ [c]))
  | .quotedEnd acc, c =>
    if c = '"' then ([], .quoted (acc ++ ['"'])) else restart [.quoted acc] c
  | .line, c => if c = '\n' then ([], .gap) else ([], .line)
  | .block, c => if c = '*' then ([], .blockStar) else ([], .block)
  | .blockStar, c =>
    if c = '/' then ([], .gap) else if c = '*' then ([], .blockStar) else ([], .block)
  | .bad, _ => ([], .bad)

/-- The token that the end of the text completes; none inside a literal, a quoted name or a block
comment. -/
def finish : LexState → Option (List Token)
  | .gap | .line => some []
  | .word acc => some [.word (upper acc)]
  | .param acc => if acc = [] then none else some [.param acc]
  | .pend c => some [.sym c]
  | .strEnd acc => some [.str acc]
  | .quotedEnd acc => some [.quoted acc]
  | .str _ | .quoted _ | .block | .blockStar | .bad => none

theorem finish_length {s : LexState} {ts : List Token} (h : finish s = some ts) :
    ts.length ≤ 1 := by
  cases s with
  | param acc =>
    simp only [finish] at h
    split at h <;> cases h
    simp
  | _ => cases h <;> simp

/-- Put tokens in front of a result. -/
def emit (ts : List Token) (r : Option (List Token)) : Option (List Token) := r.map (ts ++ ·)

@[simp] theorem emit_nil (r : Option (List Token)) : emit [] r = r := by
  cases r <;> simp [emit]

@[simp] theorem emit_emit (ts us : List Token) (r : Option (List Token)) :
    emit ts (emit us r) = emit (ts ++ us) r := by
  cases r <;> simp [emit]

@[simp] theorem emit_some (ts us : List Token) : emit ts (some us) = some (ts ++ us) := rfl

@[simp] theorem emit_none (ts : List Token) : emit ts none = none := rfl

theorem emit_eq_some {ts us : List Token} {r : Option (List Token)} (h : emit ts r = some us) :
    ∃ vs, r = some vs ∧ us = ts ++ vs := by
  cases r with
  | none => cases h
  | some vs => exact ⟨vs, rfl, by cases h; rfl⟩

def lex : LexState → List Char → Option (List Token)
  | s, [] => finish s
  | s, c :: l => emit (step s c).1 (lex (step s c).2 l)

def scan : LexState → List Char → List Token × LexState
  | s, [] => ([], s)
  | s, c :: l => ((step s c).1 ++ (scan (step s c).2 l).1, (scan (step s c).2 l).2)

/-- The tokens of a whole text. -/
def tokens (l : List Char) : Option (List Token) := lex .gap l

theorem lex_append (s : LexState) (a b : List Char) :
    lex s (a ++ b) = emit (scan s a).1 (lex (scan s a).2 b) := by
  induction a generalizing s with
  | nil => simp [scan]
  | cons c a ih => simp [lex, ih, scan]

theorem scan_append (s : LexState) (a b : List Char) :
    scan s (a ++ b) = ((scan s a).1 ++ (scan (scan s a).2 b).1, (scan (scan s a).2 b).2) := by
  induction a generalizing s with
  | nil => simp [scan]
  | cons c a ih => simp [scan, ih]

theorem lex_bad (l : List Char) : lex .bad l = none := by
  induction l with
  | nil => rfl
  | cons c l ih => simp [lex, step, ih]

example : tokens "id = $1 -- first".toList =
    some [.word "ID".toList, .sym '=', .param "1".toList] := by decide +kernel

/-! ## Between tokens -/

/-- Restarting reads on as if from between two tokens. -/
theorem lex_restart {s : LexState} {c : Char} {ts : List Token} (h : step s c = restart ts c)
    (l : List Char) : lex s (c :: l) = emit ts (lex .gap (c :: l)) := by
  have hgap : step .gap c = start c := rfl
  rw [lex, lex, h, hgap, restart, emit_emit]

/-- The token that a letter completes; `none` where a letter does not start a word. -/
def flush : LexState → Option (List Token)
  | .gap => some []
  | .pend c => some [.sym c]
  | .strEnd acc => some [.str acc]
  | .quotedEnd acc => some [.quoted acc]
  | _ => none

theorem ident_of_alpha {c : Char} (h : c.isAlpha = true) : isIdent c = true := by
  simp [isIdent, Char.isAlphanum, h]

theorem step_flush {s : LexState} {ts : List Token} (h : flush s = some ts) {c : Char}
    (hc : c.isAlpha = true) : step s c = restart ts c := by
  have hne : c ≠ '\'' ∧ c ≠ '"' ∧ c ≠ '-' ∧ c ≠ '*' := by
    refine ⟨?_, ?_, ?_, ?_⟩ <;> (rintro rfl; cases hc)
  obtain ⟨hquote, hdquote, hminus, hstar⟩ := hne
  cases s with
  | gap => cases h; rfl
  | pend p => cases h; simp [step, hminus, hstar]
  | strEnd acc => cases h; simp [step, hquote]
  | quotedEnd acc => cases h; simp [step, hdquote]
  | word acc | param acc | str acc | quoted acc | line | block | blockStar | bad => cases h

/-- A letter after `s` starts a new token. -/
theorem lex_flush {s : LexState} {ts : List Token} (h : flush s = some ts) {c : Char}
    (hc : c.isAlpha = true) (l : List Char) :
    lex s (c :: l) = emit ts (lex .gap (c :: l)) :=
  lex_restart (step_flush h hc) l

theorem scan_flush {s : LexState} {ts : List Token} (h : flush s = some ts) {c : Char}
    (hc : c.isAlpha = true) (l : List Char) :
    scan s (c :: l) = (ts ++ (scan .gap (c :: l)).1, (scan .gap (c :: l)).2) := by
  have hgap : step .gap c = start c := rfl
  rw [scan, scan, step_flush h hc, hgap, restart, List.append_assoc]

/-- The tokens of a text at whose end a letter starts a new word. -/
def cut (p : List Char) : Option (List Token) :=
  (flush (scan .gap p).2).map ((scan .gap p).1 ++ ·)

theorem cut_eq_some {p : List Char} {ts : List Token} (h : cut p = some ts) :
    ∃ us, flush (scan .gap p).2 = some us ∧ ts = (scan .gap p).1 ++ us := by
  obtain ⟨us, hus, rfl⟩ := Option.map_eq_some_iff.1 h
  exact ⟨us, hus, rfl⟩

theorem tokens_cut {p : List Char} {ts : List Token} (h : cut p = some ts) {c : Char}
    (hc : c.isAlpha = true) (l : List Char) :
    tokens (p ++ c :: l) = emit ts (lex .gap (c :: l)) := by
  obtain ⟨us, hus, rfl⟩ := cut_eq_some h
  rw [tokens, lex_append, lex_flush hus hc, emit_emit]

/-- A space completes the token that the end of the text would complete. -/
theorem step_space {s : LexState} {ts us : List Token} (h : finish s = some ts)
    (hus : flush (step s ' ').2 = some us) : (step s ' ').1 ++ us = ts := by
  cases s with
  | param acc =>
    by_cases hacc : acc = []
    · simp [finish, hacc] at h
    · have hstep : step (.param acc) ' ' = ([.param acc], .gap) := by
        simp [step, hacc, restart, start, isIdent, isSpace]
      rw [hstep] at hus ⊢
      cases hus
      simpa [finish, hacc] using h
  | gap | word acc | pend c | strEnd acc | quotedEnd acc =>
    simp [step, restart, start, isIdent, isSpace, flush] at hus
    simp [finish] at h
    simp [step, restart, start, isIdent, isSpace, hus, h]
  | line => cases hus
  | str acc | quoted acc | block | blockStar | bad => cases h

/-- A text that may end completes its last token before a space too. -/
theorem cut_space {l : List Char} {all ts : List Token} (h : tokens l = some all)
    (hcut : cut (l ++ [' ']) = some ts) : ts = all := by
  have happ := lex_append .gap l []
  rw [List.append_nil, lex] at happ
  obtain ⟨fin, hfin, rfl⟩ := emit_eq_some (happ.symm.trans h)
  obtain ⟨us, hus, rfl⟩ := cut_eq_some hcut
  rw [scan_append] at hus ⊢
  have hstep := step_space hfin hus
  simp only [scan, List.append_nil, List.append_assoc, hstep]

/-- The token that a letter completes is no word. -/
theorem notWord_of_flush {s : LexState} {ts : List Token} (h : flush s = some ts) (w : List Char) :
    .word w ∉ ts := by
  cases s <;> cases h <;> simp

/-! ## Words -/

/-- A word extends over the letters that follow. -/
theorem lex_word (acc l : List Char) :
    lex (.word acc) l = emit [.word (upper (acc ++ l.takeWhile isIdent))]
      (lex .gap (l.dropWhile isIdent)) := by
  induction l generalizing acc with
  | nil => simp [lex, finish]
  | cons c l ih =>
    by_cases hc : isIdent c = true
    · simp [lex, step, hc, ih]
    · have hstep : step (.word acc) c = restart [.word (upper acc)] c := by simp [step, hc]
      rw [lex_restart hstep]
      simp [hc]

theorem scan_word (acc : List Char) {w : List Char} (hw : ∀ c ∈ w, isIdent c = true) :
    scan (.word acc) w = ([], .word (acc ++ w)) := by
  induction w generalizing acc with
  | nil => simp [scan]
  | cons c w ih =>
    have hc : isIdent c = true := hw c (by simp)
    simp [scan, step, hc, ih _ (fun d hd => hw d (by simp [hd]))]

theorem start_ident {c : Char} (hc : isIdent c = true) : start c = ([], .word [c]) := by
  have hspace : isSpace c = false := by
    rw [Bool.eq_false_iff]
    intro hs
    simp only [isSpace, Bool.or_eq_true, decide_eq_true_eq] at hs
    rcases hs with ((((rfl | rfl) | rfl) | rfl) | rfl) | rfl <;> cases hc
  simp [start, hspace, hc]

/-- A word read from between two tokens. -/
theorem lex_ident {w : List Char} (hne : w ≠ []) (hw : ∀ c ∈ w, isIdent c = true)
    (l : List Char) : lex .gap (w ++ l) = lex (.word w) l := by
  obtain ⟨c, w, rfl⟩ := List.exists_cons_of_ne_nil hne
  have hstep : step .gap c = start c := rfl
  have hrest : ∀ d ∈ w, isIdent d = true := fun d hd => hw d (List.mem_cons_of_mem _ hd)
  rw [List.cons_append, lex, hstep, start_ident (hw c List.mem_cons_self), emit_nil, lex_append,
    scan_word _ hrest, emit_nil]
  rfl

theorem lex_alpha {c : Char} (hc : c.isAlpha = true) {w : List Char}
    (hw : ∀ d ∈ w, isIdent d = true) (l : List Char) :
    lex .gap (c :: w ++ l) = lex (.word (c :: w)) l := by
  refine lex_ident (List.cons_ne_nil c w) ?_ l
  intro d hd
  rcases List.mem_cons.1 hd with rfl | hd
  · exact ident_of_alpha hc
  · exact hw d hd

/-- The last character, if there is one, is not a letter of a word. -/
def EndsWord (l : List Char) : Prop := ∀ c ∈ l.getLast?, isIdent c = false

theorem endsWord_snoc {c : Char} (h : isIdent c = false) (l : List Char) : EndsWord (l ++ [c]) := by
  simp [EndsWord, h]

/-- What the text `p` read so far looks like in state `s`. -/
def Fits (p : List Char) : LexState → Prop
  | .gap | .pend _ | .strEnd _ | .quotedEnd _ => EndsWord p
  | .word acc => acc ≠ [] ∧ ∃ x, p = x ++ acc ∧ EndsWord x
  | _ => True

theorem fits_start {p : List Char} {c : Char} (h : isIdent c = false ∨ EndsWord p) :
    Fits (p ++ [c]) (start c).2 := by
  have hspace : isSpace c = true → isIdent c = false := by
    intro hs
    simp only [isSpace, Bool.or_eq_true, decide_eq_true_eq] at hs
    rcases hs with ((((rfl | rfl) | rfl) | rfl) | rfl) | rfl <;> decide
  unfold start
  split
  · rename_i hs
    exact endsWord_snoc (hspace hs) p
  split
  · rename_i hident
    rcases h with h | h
    · rw [h] at hident
      cases hident
    · exact ⟨by simp, p, rfl, h⟩
  rename_i hident
  have hend : EndsWord (p ++ [c]) := endsWord_snoc (by simpa using hident) p
  split_ifs <;> trivial

theorem fits_step {p : List Char} {s : LexState} (h : Fits p s) (c : Char) :
    Fits (p ++ [c]) (step s c).2 := by
  have hclose : ∀ q : Char, isIdent q = false → c = q → EndsWord (p ++ [c]) :=
    fun q hq hc => endsWord_snoc (hc ▸ hq) p
  cases s with
  | gap => exact fits_start (.inr h)
  | word acc =>
    obtain ⟨-, x, rfl, hx⟩ := h
    simp only [step]
    split
    · exact ⟨by simp, x, by simp, hx⟩
    · rename_i hc
      exact fits_start (.inl (by simpa using hc))
  | param acc =>
    simp only [step]
    split_ifs with hd hbad
    · trivial
    · trivial
    · exact fits_start (.inl (by simpa using fun hi => hbad (.inr hi)))
  | pend q =>
    simp only [step]
    split_ifs
    · trivial
    · trivial
    · exact fits_start (.inr h)
  | str acc | quoted acc =>
    simp only [step]
    split_ifs with hc
    · exact hclose _ (by decide) hc
    · trivial
  | strEnd acc | quotedEnd acc =>
    simp only [step]
    split_ifs
    · trivial
    · exact fits_start (.inr h)
  | line =>
    simp only [step]
    split_ifs with hc
    · exact hclose _ (by decide) hc
    · trivial
  | block =>
    simp only [step]
    split_ifs <;> trivial
  | blockStar =>
    simp only [step]
    split_ifs with hc hc'
    · exact hclose _ (by decide) hc
    · trivial
    · trivial
  | bad => trivial

theorem fits_scan {p : List Char} {s : LexState} (h : Fits p s) (l : List Char) :
    Fits (p ++ l) (scan s l).2 := by
  induction l generalizing p s with
  | nil => simpa [scan] using h
  | cons c l ih => simpa [scan] using ih (fits_step h c)

/-- Only a character that ends a word completes one. -/
theorem word_of_step {s : LexState} {c : Char} {w : List Char} (h : .word w ∈ (step s c).1) :
    isIdent c = false ∧ ∃ acc, s = .word acc ∧ upper acc = w := by
  have hstart : .word w ∉ (start c).1 := by
    unfold start
    split_ifs <;> simp
  cases s with
  | word acc =>
    simp only [step] at h
    split at h
    · cases h
    · rename_i hc
      simp only [restart, List.mem_append, List.mem_singleton, hstart, or_false,
        Token.word.injEq] at h
      exact ⟨by simpa using hc, acc, rfl, h.symm⟩
  | gap => exact absurd h hstart
  | bad => cases h
  | _ =>
    simp only [step] at h
    split_ifs at h <;> simp [restart, hstart] at h

/-- **A completed word stands in the text, between characters that belong to no word.** -/
theorem word_stands {p l : List Char} {s : LexState} {w : List Char} (hfits : Fits p s)
    (h : .word w ∈ (scan s l).1) :
    ∃ x m c y, p ++ l = x ++ m ++ c :: y ∧ upper m = w ∧ EndsWord x ∧ isIdent c = false := by
  induction l generalizing p s with
  | nil => simp [scan] at h
  | cons c l ih =>
    rw [scan, List.mem_append] at h
    rcases h with h | h
    · obtain ⟨hc, acc, rfl, hacc⟩ := word_of_step h
      obtain ⟨-, x, rfl, hx⟩ := hfits
      exact ⟨x, acc, c, l, rfl, hacc, hx, hc⟩
    · obtain ⟨x, m, d, y, heq, hrest⟩ := ih (fits_step hfits c) h
      exact ⟨x, m, d, y, by simpa using heq, hrest⟩

/-! ## Literals -/

/-- The value of the literal whose text goes on with `l`. -/
def literal : List Char → List Char
  | [] => []
  | '\'' :: '\'' :: l => '\'' :: literal l
  | '\'' :: _ => []
  | c :: l => c :: literal l

/-- `'` written twice. -/
def escape (v : List Char) : List Char := v.flatMap fun c => if c = '\'' then ['\'', '\''] else [c]

theorem literal_cons {c : Char} (hc : c ≠ '\'') (l : List Char) :
    literal (c :: l) = c :: literal l := by
  rw [literal.eq_4]
  · exact fun _ h _ => hc h
  · exact hc

theorem literal_end {c : Char} (hc : c ≠ '\'') (l : List Char) : literal ('\'' :: c :: l) = [] := by
  rw [literal.eq_3]
  exact fun l' h => hc (List.cons.inj h).1

theorem literal_escape (v : List Char) {c : Char} (hc : c ≠ '\'') (l : List Char) :
    literal (escape v ++ '\'' :: c :: l) = v := by
  induction v with
  | nil => exact literal_end hc l
  | cons d v ih =>
    by_cases hd : d = '\''
    · have hesc : escape (d :: v) = '\'' :: '\'' :: escape v := by simp [escape, hd]
      rw [hesc, List.cons_append, List.cons_append, literal, ih, hd]
    · have hesc : escape (d :: v) = d :: escape v := by simp [escape, hd]
      rw [hesc, List.cons_append, literal_cons hd, ih]

example : literal (escape "O'Neil".toList ++ "' AND".toList) = "O'Neil".toList := by
  decide +kernel

/-- Inside a literal the first token completed is the literal. -/
theorem lex_str {acc l : List Char} {ts : List Token} (h : lex (.str acc) l = some ts) :
    ∃ us, ts = .str (acc ++ literal l) :: us := by
  induction l using literal.induct generalizing acc ts with
  | case1 => cases h
  | case2 l ih =>
    simp only [lex, step, if_true, emit_nil] at h
    obtain ⟨us, rfl⟩ := ih h
    exact ⟨us, by simp [literal]⟩
  | case3 l hl =>
    simp only [lex, step, if_true, emit_nil] at h
    rw [literal.eq_3 l hl]
    cases l with
    | nil =>
      cases h
      exact ⟨[], by simp⟩
    | cons c l =>
      have hc : c ≠ '\'' := by
        rintro rfl
        exact hl l rfl
      have hstep : step (.strEnd acc) c = restart [.str acc] c := by simp [step, hc]
      rw [lex_restart hstep] at h
      obtain ⟨us, -, rfl⟩ := emit_eq_some h
      exact ⟨us, by simp⟩
  | case4 c l _ hc ih =>
    have hc : c ≠ '\'' := hc
    simp only [lex, step, hc, if_false, emit_nil] at h
    obtain ⟨us, rfl⟩ := ih h
    rw [literal_cons hc]
    exact ⟨us, by simp⟩

/-- An escaped value between quotes is read back. -/
theorem lex_escape (acc v : List Char) {c : Char} (hc : c ≠ '\'') (l : List Char) :
    lex (.str acc) (escape v ++ '\'' :: c :: l) = emit [.str (acc ++ v)] (lex .gap (c :: l)) := by
  induction v generalizing acc with
  | nil =>
    have hstep : step (.strEnd acc) c = restart [.str acc] c := by simp [step, hc]
    rw [escape, List.flatMap_nil, List.nil_append, lex]
    simp only [step, if_true, emit_nil]
    rw [lex_restart hstep, List.append_nil]
  | cons d v ih =>
    by_cases hd : d = '\''
    · have hesc : escape (d :: v) = '\'' :: '\'' :: escape v := by simp [escape, hd]
      rw [hesc, List.cons_append, List.cons_append, lex, lex]
      simp [step, ih, hd]
    · have hesc : escape (d :: v) = d :: escape v := by simp [escape, hd]
      rw [hesc, List.cons_append, lex]
      simp [step, hd, ih]

/-- The literal at the end of a text. -/
theorem lex_escape_end (acc v : List Char) :
    lex (.str acc) (escape v ++ ['\'']) = some [.str (acc ++ v)] := by
  induction v generalizing acc with
  | nil => simp [escape, lex, step, finish]
  | cons d v ih =>
    by_cases hd : d = '\''
    · have hesc : escape (d :: v) = '\'' :: '\'' :: escape v := by simp [escape, hd]
      rw [hesc, List.cons_append, List.cons_append, lex, lex]
      simp [step, ih, hd]
    · have hesc : escape (d :: v) = d :: escape v := by simp [escape, hd]
      rw [hesc, List.cons_append, lex]
      simp [step, hd, ih]

theorem length_escape (v : List Char) : (escape v).length = v.length + v.count '\'' := by
  induction v with
  | nil => rfl
  | cons c v ih =>
    rw [escape] at ih
    by_cases hc : c = '\''
    · simp [escape, hc, ih]
      omega
    · simp [escape, hc, ih]
      omega

/-- Without quotes there is nothing to write twice. -/
theorem escape_eq_self_iff {v : List Char} : escape v = v ↔ '\'' ∉ v := by
  constructor
  · intro h hmem
    have hlength := length_escape v
    have hcount := List.count_pos_iff.2 hmem
    rw [h] at hlength
    omega
  · intro h
    induction v with
    | nil => rfl
    | cons c v ih =>
      obtain ⟨hc, hv⟩ := List.ne_and_not_mem_of_not_mem_cons h
      have hesc : escape (c :: v) = c :: escape v := by simp [escape, Ne.symm hc]
      rw [hesc, ih hv]

/-! ## Quoted names and comments -/

theorem lex_quoted_both (l : List Char) :
    (∀ acc ts, lex (.quoted acc) l = some ts → ∃ v us, ts = .quoted (acc ++ v) :: us ∧
      ∀ acc', lex (.quoted acc') l = some (.quoted (acc' ++ v) :: us)) ∧
    ∀ acc ts, lex (.quotedEnd acc) l = some ts → ∃ v us, ts = .quoted (acc ++ v) :: us ∧
      ∀ acc', lex (.quotedEnd acc') l = some (.quoted (acc' ++ v) :: us) := by
  induction l with
  | nil =>
    refine ⟨fun acc ts h => (by cases h), fun acc ts h => ?_⟩
    cases h
    exact ⟨[], [], by simp, fun acc' => by simp [lex, finish]⟩
  | cons c l ih =>
    refine ⟨fun acc ts h => ?_, fun acc ts h => ?_⟩
    · by_cases hc : c = '"'
      · simp only [lex, step, hc, if_true, emit_nil] at h ⊢
        exact ih.2 acc ts h
      · simp only [lex, step, hc, if_false, emit_nil] at h ⊢
        obtain ⟨v, us, hts, hall⟩ := ih.1 _ ts h
        exact ⟨c :: v, us, by simpa using hts, fun acc' => by simpa using hall (acc' ++ [c])⟩
    · by_cases hc : c = '"'
      · simp only [lex, step, hc, if_true, emit_nil] at h ⊢
        obtain ⟨v, us, hts, hall⟩ := ih.1 _ ts h
        exact ⟨'"' :: v, us, by simpa using hts, fun acc' => by simpa using hall (acc' ++ ['"'])⟩
      · have hstep : ∀ a, step (.quotedEnd a) c = restart [.quoted a] c := by simp [step, hc]
        rw [lex_restart (hstep acc)] at h
        obtain ⟨us, hus, rfl⟩ := emit_eq_some h
        exact ⟨[], us, by simp, fun acc' => by rw [lex_restart (hstep acc'), hus]; simp⟩

/-- Inside a quoted name the first token completed is the name. -/
theorem lex_quoted {acc l : List Char} {ts : List Token} (h : lex (.quoted acc) l = some ts) :
    ∃ v us, ts = .quoted (acc ++ v) :: us ∧
      ∀ acc', lex (.quoted acc') l = some (.quoted (acc' ++ v) :: us) :=
  (lex_quoted_both l).1 acc ts h

/-- A character that ends neither a quoted name nor a comment. -/
def Plain (c : Char) : Prop := c ≠ '"' ∧ c ≠ '\n' ∧ c ≠ '*' ∧ c ≠ '/'

/-- The state is inside a quoted name or a comment. -/
def LexState.Covered : LexState → Prop
  | .quoted _ | .line | .block | .blockStar => True
  | _ => False

theorem scan_quoted {z : List Char} (hz : ∀ c ∈ z, Plain c) (acc : List Char) :
    scan (.quoted acc) z = ([], .quoted (acc ++ z)) := by
  induction z generalizing acc with
  | nil => simp [scan]
  | cons c z ih =>
    have hc : c ≠ '"' := (hz c (by simp)).1
    simp [scan, step, hc, ih fun d hd => hz d (by simp [hd])]

theorem scan_comment {z : List Char} (hz : ∀ c ∈ z, Plain c) :
    scan .line z = ([], .line) ∧ scan .block z = ([], .block) := by
  induction z with
  | nil => exact ⟨rfl, rfl⟩
  | cons c z ih =>
    obtain ⟨-, hline, hstar, -⟩ := hz c (by simp)
    obtain ⟨ihline, ihblock⟩ := ih fun d hd => hz d (by simp [hd])
    exact ⟨by simp [scan, step, hline, ihline], by simp [scan, step, hstar, ihblock]⟩

/-- **Inside a quoted name or a comment, one plain text may stand for another**: only the name
changes. -/
theorem lex_covered {s : LexState} (hs : s.Covered) {z z' : List Char} (hne : z ≠ [])
    (hne' : z' ≠ []) (hz : ∀ c ∈ z, Plain c) (hz' : ∀ c ∈ z', Plain c) {l : List Char}
    {ts : List Token} (h : lex s (z ++ l) = some ts) :
    lex s (z' ++ l) = some ts ∨
      ∃ a b us, ts = .quoted a :: us ∧ lex s (z' ++ l) = some (.quoted b :: us) := by
  rw [lex_append] at h ⊢
  cases s with
  | quoted acc =>
    right
    rw [scan_quoted hz, emit_nil] at h
    rw [scan_quoted hz', emit_nil]
    obtain ⟨v, us, hts, hall⟩ := lex_quoted h
    exact ⟨_, _, us, hts, hall _⟩
  | line =>
    left
    rw [(scan_comment hz).1] at h
    rwa [(scan_comment hz').1]
  | block =>
    left
    rw [(scan_comment hz).2] at h
    rwa [(scan_comment hz').2]
  | blockStar =>
    left
    have hstart : ∀ {y : List Char}, y ≠ [] → (∀ c ∈ y, Plain c) →
        scan .blockStar y = ([], .block) := by
      intro y hy hplain
      obtain ⟨c, y, rfl⟩ := List.exists_cons_of_ne_nil hy
      obtain ⟨-, -, hstar, hslash⟩ := hplain c (by simp)
      have hrest := (scan_comment fun d hd => hplain d (List.mem_cons_of_mem c hd)).2
      simp [scan, step, hstar, hslash, hrest]
    rw [hstart hne hz] at h
    rwa [hstart hne' hz']
  | gap | word acc | param acc | pend c | str acc | strEnd acc | quotedEnd acc | bad => exact hs.elim

/-! ## Occurrences in the tokens -/

section Weight

variable {pat : List Char}

/-- The text of a token. -/
def Token.text : Token → List Char
  | .word w => w
  | .str v => v
  | .quoted v => v
  | .param _ | .sym _ => []

/-- The occurrences of a word in the tokens, ignoring case. -/
def weight (pat : List Char) (ts : List Token) : Nat :=
  (ts.map fun t => occ Char.toLower pat t.text).sum

@[simp] theorem weight_nil : weight pat [] = 0 := rfl

@[simp] theorem weight_cons (t : Token) (ts : List Token) :
    weight pat (t :: ts) = occ Char.toLower pat t.text + weight pat ts := by
  simp [weight]

@[simp] theorem weight_append (ts us : List Token) :
    weight pat (ts ++ us) = weight pat ts + weight pat us := by
  simp [weight]

theorem occ_upper (w : List Char) : occ Char.toLower pat (upper w) = occ Char.toLower pat w :=
  occ_map Char.toUpper Char.toLower_toUpper_eq_toLower w

/-- The occurrences that the text `l` read from a state can have, with what the token that is
being read already holds. -/
def bound (pat : List Char) (l : List Char) : LexState → Nat
  | .word acc | .str acc | .quoted acc => occ Char.toLower pat (acc ++ l)
  | .strEnd acc | .quotedEnd acc => occ Char.toLower pat acc + occ Char.toLower pat l
  | _ => occ Char.toLower pat l

theorem start_bound (c : Char) (l : List Char) :
    weight pat (start c).1 + bound pat l (start c).2 ≤ occ Char.toLower pat (c :: l) := by
  have hle : occ Char.toLower pat l ≤ occ Char.toLower pat (c :: l) := occ_le_cons c l
  unfold start
  split
  · simpa [bound] using hle
  split
  · simp [bound]
  split
  · simpa [bound] using hle
  split
  · simpa [bound] using hle
  split
  · simpa [bound] using hle
  split
  · simpa [bound] using hle
  · simpa [bound, Token.text] using hle

theorem restart_bound (ts : List Token) (c : Char) (l : List Char) :
    weight pat (restart ts c).1 + bound pat l (restart ts c).2 ≤
      weight pat ts + occ Char.toLower pat (c :: l) := by
  have := @start_bound pat c l
  simp only [restart, weight_append]
  omega

theorem step_bound (hpat : pat ≠ []) (hquote : '\'' ∉ pat) (hdquote : '"' ∉ pat) (s : LexState)
    (c : Char) (l : List Char) :
    weight pat (step s c).1 + bound pat l (step s c).2 ≤ bound pat (c :: l) s := by
  have hle : occ Char.toLower pat l ≤ occ Char.toLower pat (c :: l) := occ_le_cons c l
  -- a doubled quote is a letter foreign to the word
  have hbreak : ∀ (q : Char) (acc : List Char), q.toLower ∉ pat →
      occ Char.toLower pat (acc ++ q :: l) = occ Char.toLower pat acc + occ Char.toLower pat l :=
    fun q acc hq => occ_break hpat hq acc l
  have hquote' : Char.toLower '\'' ∉ pat := hquote
  have hdquote' : Char.toLower '"' ∉ pat := hdquote
  cases s with
  | gap => exact start_bound c l
  | word acc =>
    simp only [step]
    split
    · simp [bound]
    · have hrestart := @restart_bound pat [.word (upper acc)] c l
      have happend := @occ_append_ge _ _ _ Char.toLower pat acc (c :: l)
      simp only [weight_cons, weight_nil, Token.text, occ_upper, bound] at hrestart ⊢
      omega
  | param acc =>
    simp only [step]
    split
    · simpa [bound] using hle
    split
    · simpa [bound] using hle
    · have hrestart := @restart_bound pat [.param acc] c l
      simpa [Token.text, bound] using hrestart
  | pend p =>
    simp only [step]
    split
    · simpa [bound] using hle
    split
    · simpa [bound] using hle
    · have hrestart := @restart_bound pat [.sym p] c l
      simpa [Token.text, bound] using hrestart
  | str acc =>
    simp only [step]
    split
    · rename_i hc
      subst hc
      simp [bound, hbreak _ acc hquote']
    · simp [bound]
  | strEnd acc =>
    simp only [step]
    split
    · rename_i hc
      subst hc
      have := hbreak _ acc hquote'
      simp only [weight_nil, bound, List.append_assoc, List.singleton_append]
      omega
    · have hrestart := @restart_bound pat [.str acc] c l
      simpa [Token.text, bound] using hrestart
  | quoted acc =>
    simp only [step]
    split
    · rename_i hc
      subst hc
      simp [bound, hbreak _ acc hdquote']
    · simp [bound]
  | quotedEnd acc =>
    simp only [step]
    split
    · rename_i hc
      subst hc
      have := hbreak _ acc hdquote'
      simp only [weight_nil, bound, List.append_assoc, List.singleton_append]
      omega
    · have hrestart := @restart_bound pat [.quoted acc] c l
      simpa [Token.text, bound] using hrestart
  | line | block | blockStar =>
    simp only [step]
    split_ifs <;> simpa [bound] using hle
  | bad => simpa [step, bound] using hle

/-- **A text has at least the occurrences that its tokens have.** -/
theorem lex_bound (hpat : pat ≠ []) (hquote : '\'' ∉ pat) (hdquote : '"' ∉ pat)
    {s : LexState} {l : List Char} {ts : List Token} (h : lex s l = some ts) :
    weight pat ts ≤ bound pat l s := by
  induction l generalizing s ts with
  | nil =>
    cases s with
    | param acc =>
      simp only [lex, finish] at h
      split at h
      · cases h
      · cases h
        simp [Token.text]
    | _ => cases h <;> simp [bound, Token.text, occ_upper]
  | cons c l ih =>
    obtain ⟨us, hus, rfl⟩ := emit_eq_some h
    have := ih hus
    have := step_bound hpat hquote hdquote s c l
    rw [weight_append]
    omega

/-- The state is inside an unquoted word. -/
def LexState.InWord : LexState → Prop
  | .word _ => True
  | _ => False

/-- The token is not an unquoted word. -/
def Token.NotWord : Token → Prop
  | .word _ => False
  | _ => True

/-- A character completes the token being read, at most one, or reads on in it. -/
theorem step_cases (s : LexState) (c : Char) :
    (∃ ts, step s c = restart ts c ∧ ts.length ≤ 1 ∧ (¬ s.InWord → ∀ t ∈ ts, t.NotWord)) ∨
      ((step s c).1 = [] ∧ (¬ s.InWord → ¬ (step s c).2.InWord)) := by
  cases s with
  | gap => exact .inl ⟨[], rfl, by simp, by simp⟩
  | word acc =>
    simp only [step]
    split
    · exact .inr ⟨rfl, fun h => absurd trivial h⟩
    · exact .inl ⟨_, rfl, by simp, fun h => absurd trivial h⟩
  | param acc =>
    simp only [step]
    split_ifs
    · exact .inr ⟨rfl, fun _ h => h⟩
    · exact .inr ⟨rfl, fun _ h => h⟩
    · exact .inl ⟨_, rfl, by simp, by simp [Token.NotWord]⟩
  | pend p =>
    simp only [step]
    split_ifs
    · exact .inr ⟨rfl, fun _ h => h⟩
    · exact .inr ⟨rfl, fun _ h => h⟩
    · exact .inl ⟨_, rfl, by simp, by simp [Token.NotWord]⟩
  | strEnd acc | quotedEnd acc =>
    simp only [step]
    split
    · exact .inr ⟨rfl, fun _ h => h⟩
    · exact .inl ⟨_, rfl, by simp, by simp [Token.NotWord]⟩
  | str acc | quoted acc | line | block | blockStar =>
    simp only [step]
    split_ifs <;> exact .inr ⟨rfl, fun _ h => h⟩
  | bad => exact .inr ⟨rfl, fun _ h => h⟩

/-- From any state, the tokens after the one being read are bounded by the text that follows. -/
theorem lex_rest (hpat : pat ≠ []) (hquote : '\'' ∉ pat) (hdquote : '"' ∉ pat)
    {s : LexState} {l : List Char} {ts : List Token} (h : lex s l = some ts) :
    ∃ first rest, ts = first ++ rest ∧ first.length ≤ 1 ∧
      (¬ s.InWord → ∀ t ∈ first, t.NotWord) ∧ weight pat rest ≤ occ Char.toLower pat l := by
  induction l generalizing s ts with
  | nil =>
    refine ⟨ts, [], by simp, ?_⟩
    cases s with
    | param acc =>
      simp only [lex, finish] at h
      split at h
      · cases h
      · cases h
        simp [Token.NotWord]
    | _ => cases h <;> simp [Token.NotWord, LexState.InWord]
  | cons c l ih =>
    rcases step_cases s c with ⟨us, hstep, hlen, hword⟩ | ⟨hnone, hword⟩
    · rw [lex_restart hstep] at h
      obtain ⟨vs, hvs, rfl⟩ := emit_eq_some h
      exact ⟨us, vs, rfl, hlen, hword, lex_bound hpat hquote hdquote hvs⟩
    · obtain ⟨vs, hvs, rfl⟩ := emit_eq_some h
      obtain ⟨first, rest, rfl, hlen, hfirst, hrest⟩ := ih hvs
      rw [hnone, List.nil_append]
      refine ⟨first, rest, rfl, hlen, fun hs => hfirst (hword hs), ?_⟩
      have := @occ_le_cons _ _ _ Char.toLower pat c l
      omega

end Weight

end Sql
