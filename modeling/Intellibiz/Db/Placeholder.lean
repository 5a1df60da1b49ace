import Intellibiz.Db.Scope

/-!
# Placeholders and parameters of a composed statement

`sql`, `sql.fragment` and `sql.join` each renumber the placeholders of the fragments they inline,
by the number of parameters collected so far.

* `Piece` — a literal piece without a `$` that does not start with a digit.
* `Tree` — an expression built from the three constructors; `Tree.build` evaluates it.
* `Tree.items` — its pieces and values in order; `render` numbers the values of such a list.
* `placeholders` — the matches of `/\$(\d+)/g` in a text.

Principal results: `renumber_render` (renumbering a rendered list shifts it), `build_eq` (a tree
evaluates to the rendering of its items) and `sql_placeholders`.
-/

namespace Intellibiz.Db

open Sql

/-! ## Expressions -/

structure Piece where
  text : Text
  dollar_free : '$' ∉ text
  digit_free : ∀ c ∈ text.head?, c.isDigit = false

variable {V : Type}

mutual

/-- `` sql.fragment`...` `` and `sql.join([...], ...)` -/
inductive Tree (V : Type) where
  | template (first : Piece) (rest : Rest V)
  | join (fragments : Forest V) (separator : Tree V)

/-- What follows the first piece of a template. -/
inductive Rest (V : Type) where
  | done
  | value (v : V) (s : Piece) (rest : Rest V)
  | fragment (t : Tree V) (s : Piece) (rest : Rest V)

inductive Forest (V : Type) where
  | nil
  | cons (t : Tree V) (rest : Forest V)

end

def Rest.strings : Rest V → List Text
  | .done => []
  | .value _ s rest => s.text :: rest.strings
  | .fragment _ s rest => s.text :: rest.strings

mutual

def Tree.build : Tree V → SqlFragment V
  | .template first rest => .template (first.text :: rest.strings) rest.values
  | .join fragments separator => .join fragments.build separator.build

def Rest.values : Rest V → List (Interpolated V)
  | .done => []
  | .value v _ rest => .value v :: rest.values
  | .fragment t _ rest => .fragment t.build :: rest.values

def Forest.build : Forest V → List (SqlFragment V)
  | .nil => []
  | .cons t rest => t.build :: rest.build

end

/-! ## In-order reading -/

inductive Item (V : Type) where
  | lit (s : Piece)
  | hole (v : V)

mutual

def Tree.items : Tree V → List (Item V)
  | .template first rest => .lit first :: rest.items
  | .join fragments separator => separator.items.intercalate fragments.items

def Rest.items : Rest V → List (Item V)
  | .done => []
  | .value v s rest => .hole v :: .lit s :: rest.items
  | .fragment t s rest => t.items ++ .lit s :: rest.items

def Forest.items : Forest V → List (List (Item V))
  | .nil => []
  | .cons t rest => t.items :: rest.items

end

/-- The interpolated values among the items. -/
def holes : List (Item V) → List V
  | [] => []
  | .lit _ :: items => holes items
  | .hole v :: items => v :: holes items

/-- The text of the items, the values numbered from `k + 1` on. -/
def render : Nat → List (Item V) → Text
  | _, [] => []
  | k, .lit s :: items => s.text ++ render k items
  | k, .hole _ :: items => placeholder (k + 1) ++ render (k + 1) items

/-- The matches of `/\$(\d+)/g`; `digits` as in `renumberFrom`. -/
def placeholdersFrom : Option Text → Text → List Text
  | none, [] => []
  | none, c :: s => if c = '$' then placeholdersFrom (some []) s else placeholdersFrom none s
  | some digits, [] => close digits
  | some digits, c :: s =>
    if c.isDigit then placeholdersFrom (some (digits ++ [c])) s
    else if c = '$' then close digits ++ placeholdersFrom (some []) s
    else close digits ++ placeholdersFrom none s
where
  close (digits : Text) : List Text := if digits = [] then [] else ['$' :: digits]

def placeholders (s : Text) : List Text := placeholdersFrom none s

@[simp] theorem holes_append (xs ys : List (Item V)) : holes (xs ++ ys) = holes xs ++ holes ys := by
  induction xs with
  | nil => rfl
  | cons x xs ih => cases x <;> simp [holes, ih]

theorem render_append (k : Nat) (xs ys : List (Item V)) :
    render k (xs ++ ys) = render k xs ++ render (k + (holes xs).length) ys := by
  induction xs generalizing k with
  | nil => rfl
  | cons x xs ih =>
    cases x with
    | lit s => simp [render, holes, ih]
    | hole v =>
      have hk : k + 1 + (holes xs).length = k + ((holes xs).length + 1) := by omega
      simp [render, holes, ih, hk]

/-! ## Digits -/

theorem parseInt_toDigits (n : Nat) : parseInt (Nat.toDigits 10 n) = n := by
  have hparse : ∀ digits, parseInt digits = Nat.ofDigitChars 10 digits 0 := by
    intro digits
    rw [Nat.ofDigitChars_eq_foldl]
    rfl
  rw [hparse, Nat.ofDigitChars_ten_toDigits]

theorem isDigit_of_toDigits {n : Nat} {c : Char} (h : c ∈ Nat.toDigits 10 n) : c.isDigit = true :=
  Nat.isDigit_of_mem_toDigits (by omega) (by omega) h

/-- A text at which a run of digits ends. -/
def DigitsEnd (s : Text) : Prop := ∀ c ∈ s.head?, c.isDigit = false

theorem digitsEnd_render (k : Nat) (items : List (Item V)) : DigitsEnd (render k items) := by
  induction items generalizing k with
  | nil => simp [DigitsEnd, render]
  | cons x items ih =>
    cases x with
    | lit s =>
      have hs := s.digit_free
      unfold DigitsEnd
      rw [render]
      cases htext : s.text with
      | nil => exact ih k
      | cons c l =>
        rw [htext] at hs
        exact hs
    | hole v =>
      intro c hc
      cases hc
      rfl

/-! ## Renumbering -/

theorem renumberFrom_none_cons (offset : Nat) (c : Char) (s : Text) :
    renumberFrom offset none (c :: s) =
      if c = '$' then renumberFrom offset (some []) s else c :: renumberFrom offset none s := rfl

theorem renumberFrom_some_cons (offset : Nat) (digits : Text) (c : Char) (s : Text) :
    renumberFrom offset (some digits) (c :: s) =
      if c.isDigit then renumberFrom offset (some (digits ++ [c])) s
      else if c = '$' then
        renumberFrom.close offset digits ++ renumberFrom offset (some []) s
      else renumberFrom.close offset digits ++ c :: renumberFrom offset none s := rfl

theorem renumberFrom_append (offset : Nat) {s : Text} (hs : '$' ∉ s) (t : Text) :
    renumberFrom offset none (s ++ t) = s ++ renumberFrom offset none t := by
  induction s with
  | nil => rfl
  | cons c s ih =>
    rw [List.mem_cons, not_or] at hs
    rw [List.cons_append, renumberFrom_none_cons, if_neg (Ne.symm hs.1), ih hs.2,
      List.cons_append]

theorem renumberFrom_digits (offset : Nat) {ds : Text} (hds : ∀ c ∈ ds, c.isDigit = true)
    (acc t : Text) :
    renumberFrom offset (some acc) (ds ++ t) = renumberFrom offset (some (acc ++ ds)) t := by
  induction ds generalizing acc with
  | nil => simp
  | cons c ds ih =>
    rw [List.cons_append, renumberFrom_some_cons, if_pos (hds c (by simp)),
      ih (fun d hd => hds d (by simp [hd])), List.append_assoc, List.singleton_append]

theorem renumberFrom_close (offset : Nat) (digits : Text) {t : Text} (ht : DigitsEnd t) :
    renumberFrom offset (some digits) t =
      renumberFrom.close offset digits ++ renumberFrom offset none t := by
  cases t with
  | nil => exact (List.append_nil _).symm
  | cons c t =>
    have hc : c.isDigit = false := ht c rfl
    by_cases hd : c = '$' <;> simp [renumberFrom_some_cons, renumberFrom_none_cons, hc, hd]

theorem renumberFrom_placeholder (offset n : Nat) {t : Text} (ht : DigitsEnd t) :
    renumberFrom offset none (placeholder n ++ t) =
      placeholder (n + offset) ++ renumberFrom offset none t := by
  unfold placeholder
  rw [List.cons_append, renumberFrom_none_cons, if_pos rfl,
    renumberFrom_digits offset (fun c hc => isDigit_of_toDigits hc), List.nil_append,
    renumberFrom_close offset _ ht, renumberFrom.close, if_neg Nat.toDigits_ne_nil,
    parseInt_toDigits]
  rfl

/-- **Renumbering a rendered list shifts its numbers.** -/
theorem renumber_render (offset k : Nat) (items : List (Item V)) :
    renumber offset (render k items) = render (k + offset) items := by
  unfold renumber
  induction items generalizing k with
  | nil => rfl
  | cons x items ih =>
    cases x with
    | lit s => rw [render, render, renumberFrom_append offset s.dollar_free, ih]
    | hole v =>
      have hk : k + 1 + offset = k + offset + 1 := by omega
      rw [render, render, renumberFrom_placeholder offset _ (digitsEnd_render _ _), ih, hk]

/-! ## What a tree evaluates to -/

/-- The fragment whose text and parameters are those of the items. -/
def rendered (items : List (Item V)) : SqlFragment V where
  sql := render 0 items
  params := holes items

theorem inline_rendered (xs acc : List (Item V)) :
    inline (rendered xs) (rendered acc) = rendered (acc ++ xs) := by
  simp only [inline, rendered, renumber_render, render_append, holes_append, Nat.zero_add]

theorem interpolate_value (v : V) (acc : List (Item V)) :
    interpolate (.value v) (rendered acc) = rendered (acc ++ [.hole v]) := by
  simp [interpolate, rendered, render_append, render, holes]

theorem rendered_piece (s : Piece) (acc : List (Item V)) :
    { rendered acc with sql := (rendered acc).sql ++ s.text } = rendered (acc ++ [.lit s]) := by
  simp [rendered, render_append, render, holes]

theorem join_rendered (fragments : List (List (Item V))) (separator : List (Item V)) :
    SqlFragment.join (fragments.map rendered) (rendered separator) =
      rendered (separator.intercalate fragments) := by
  have hfold : ∀ (rest : List (List (Item V))) acc,
      (rest.map rendered).foldl (fun acc g => inline g (inline (rendered separator) acc))
        (rendered acc) = rendered (acc ++ rest.flatMap (separator ++ ·)) := by
    intro rest
    induction rest with
    | nil => simp
    | cons g rest ih =>
      intro acc
      rw [List.map_cons, List.foldl_cons, inline_rendered, inline_rendered, ih]
      simp
  have hcut : ∀ (f : List (Item V)) rest,
      separator.intercalate (f :: rest) = f ++ rest.flatMap (separator ++ ·) := by
    intro f rest
    induction rest generalizing f with
    | nil => simp
    | cons g rest ih => rw [List.intercalate_cons_cons, ih]; simp
  cases fragments with
  | nil => rfl
  | cons f rest =>
    have hfirst : inline (rendered f) ⟨[], []⟩ = rendered f := inline_rendered f []
    rw [List.map_cons, SqlFragment.join, hfirst, hfold, hcut]

mutual

theorem build_eq : ∀ t : Tree V, t.build = rendered t.items
  | .template first rest => by
    rw [Tree.build, Tree.items, SqlFragment.template]
    exact compose_eq [] first rest
  | .join fragments separator => by
    rw [Tree.build, Tree.items, forest_build_eq fragments, build_eq separator, join_rendered]

theorem compose_eq (acc : List (Item V)) (s : Piece) : ∀ rest : Rest V,
    compose (s.text :: rest.strings) rest.values (rendered acc) =
      rendered (acc ++ .lit s :: rest.items)
  | .done => by
    rw [Rest.strings, Rest.values, Rest.items, compose, compose, rendered_piece]
  | .value v s' rest => by
    rw [Rest.strings, Rest.values, Rest.items, compose, rendered_piece, interpolate_value,
      compose_eq _ s' rest]
    simp
  | .fragment t s' rest => by
    rw [Rest.strings, Rest.values, Rest.items, compose, rendered_piece, interpolate, build_eq t,
      inline_rendered, compose_eq _ s' rest]
    simp

theorem forest_build_eq : ∀ fragments : Forest V, fragments.build = fragments.items.map rendered
  | .nil => rfl
  | .cons t rest => by
    rw [Forest.build, Forest.items, List.map_cons, build_eq t, forest_build_eq rest]

end

/-! ## The placeholders of a text -/

theorem placeholdersFrom_none_cons (c : Char) (s : Text) :
    placeholdersFrom none (c :: s) =
      if c = '$' then placeholdersFrom (some []) s else placeholdersFrom none s := rfl

theorem placeholdersFrom_some_cons (digits : Text) (c : Char) (s : Text) :
    placeholdersFrom (some digits) (c :: s) =
      if c.isDigit then placeholdersFrom (some (digits ++ [c])) s
      else if c = '$' then placeholdersFrom.close digits ++ placeholdersFrom (some []) s
      else placeholdersFrom.close digits ++ placeholdersFrom none s := rfl

theorem placeholdersFrom_append {s : Text} (hs : '$' ∉ s) (t : Text) :
    placeholdersFrom none (s ++ t) = placeholdersFrom none t := by
  induction s with
  | nil => rfl
  | cons c s ih =>
    rw [List.mem_cons, not_or] at hs
    rw [List.cons_append, placeholdersFrom_none_cons, if_neg (Ne.symm hs.1), ih hs.2]

theorem placeholdersFrom_digits {ds : Text} (hds : ∀ c ∈ ds, c.isDigit = true) (acc t : Text) :
    placeholdersFrom (some acc) (ds ++ t) = placeholdersFrom (some (acc ++ ds)) t := by
  induction ds generalizing acc with
  | nil => simp
  | cons c ds ih =>
    rw [List.cons_append, placeholdersFrom_some_cons, if_pos (hds c (by simp)),
      ih (fun d hd => hds d (by simp [hd])), List.append_assoc, List.singleton_append]

theorem placeholdersFrom_close (digits : Text) {t : Text} (ht : DigitsEnd t) :
    placeholdersFrom (some digits) t =
      placeholdersFrom.close digits ++ placeholdersFrom none t := by
  cases t with
  | nil => exact (List.append_nil _).symm
  | cons c t =>
    have hc : c.isDigit = false := ht c rfl
    by_cases hd : c = '$' <;>
      simp [placeholdersFrom_some_cons, placeholdersFrom_none_cons, hc, hd]

theorem placeholdersFrom_placeholder (n : Nat) {t : Text} (ht : DigitsEnd t) :
    placeholdersFrom none (placeholder n ++ t) = placeholder n :: placeholdersFrom none t := by
  unfold placeholder
  rw [List.cons_append, placeholdersFrom_none_cons, if_pos rfl,
    placeholdersFrom_digits (fun c hc => isDigit_of_toDigits hc), List.nil_append,
    placeholdersFrom_close _ ht, placeholdersFrom.close, if_neg Nat.toDigits_ne_nil]
  rfl

/-- Neither the `$` nor the digits of a placeholder are white space. -/
theorem space_spec {c : Char} (h : isJsSpace c = true) : c ≠ '$' ∧ c.isDigit = false := by
  constructor
  · rintro rfl
    cases h
  · by_contra hd
    rw [Bool.not_eq_false] at hd
    have hlow : 48 ≤ c.toNat ∧ c.toNat ≤ 57 := by
      simpa [Char.isDigit, UInt32.le_iff_toNat_le] using hd
    simp only [isJsSpace, Bool.or_eq_true, Bool.and_eq_true, decide_eq_true_eq, List.mem_cons,
      List.not_mem_nil, or_false] at h
    rcases h with h | h
    · rcases h with h | h | h | h | h | h | h | h | h | h | h | h | h | h <;> subst h <;> cases hd
    · omega

/-- The numbers of the placeholders count the values. -/
theorem placeholders_render (k : Nat) (items : List (Item V)) :
    placeholders (render k items) =
      (List.range' (k + 1) (holes items).length).map placeholder := by
  unfold placeholders
  induction items generalizing k with
  | nil => rfl
  | cons x items ih =>
    cases x with
    | lit s => rw [render, placeholdersFrom_append s.dollar_free, ih, holes]
    | hole v =>
      rw [render, placeholdersFrom_placeholder _ (digitsEnd_render _ _), ih, holes,
        List.length_cons, List.range'_succ, List.map_cons]

theorem placeholdersFrom_spaces (state : Option Text) (s : Text) {w : Text}
    (hw : ∀ c ∈ w, isJsSpace c = true) :
    placeholdersFrom state (s ++ w) = placeholdersFrom state s := by
  have hnone : placeholdersFrom none w = [] := by
    have h := placeholdersFrom_append (s := w) (fun h => (space_spec (hw _ h)).1 rfl) []
    rwa [List.append_nil] at h
  induction s generalizing state with
  | nil =>
    cases state with
    | none => exact hnone
    | some digits =>
      have hend : DigitsEnd w := fun c hc => (space_spec (hw c (List.mem_of_mem_head? hc))).2
      rw [List.nil_append, placeholdersFrom_close _ hend, hnone, List.append_nil]
      rfl
  | cons c s ih =>
    cases state <;> simp only [List.cons_append, placeholdersFrom_none_cons,
      placeholdersFrom_some_cons, ih]

theorem placeholders_trim (s : Text) : placeholders (trim s) = placeholders s := by
  obtain ⟨a, b, hs, ha, hb⟩ := trim_spec s
  have hdollar : '$' ∉ a := fun h => (space_spec (ha _ h)).1 rfl
  unfold placeholders
  conv_rhs => rw [hs, List.append_assoc]
  rw [placeholdersFrom_append hdollar, placeholdersFrom_spaces _ _ hb]

/-! ## Places -/

theorem dropWhile_append_stop {c : Char} (hc : isJsSpace c = false) (x y : Text) :
    (x ++ c :: y).dropWhile isJsSpace = x.dropWhile isJsSpace ++ c :: y := by
  induction x with
  | nil => simp [hc]
  | cons d x ih =>
    rw [List.cons_append, List.dropWhile_cons, List.dropWhile_cons, ih]
    split <;> rfl

theorem rdropWhile_append_stop {c : Char} (hc : isJsSpace c = false) (x y : Text) :
    (x ++ c :: y).rdropWhile isJsSpace = x ++ c :: y.rdropWhile isJsSpace := by
  unfold List.rdropWhile
  rw [List.reverse_append, List.reverse_cons, List.append_assoc, List.singleton_append,
    dropWhile_append_stop hc]
  simp

/-- A place between two texts survives the trimming. -/
theorem trim_place (x y : Text) (n : Nat) :
    trim (x ++ placeholder n ++ y) =
      x.dropWhile isJsSpace ++ placeholder n ++ y.rdropWhile isJsSpace := by
  have hdollar : isJsSpace '$' = false := by decide
  obtain ⟨ds, d, hds⟩ : ∃ ds d, Nat.toDigits 10 n = ds ++ [d] := by
    rcases (Nat.toDigits 10 n).eq_nil_or_concat with h | ⟨ds, d, h⟩
    · exact absurd h Nat.toDigits_ne_nil
    · exact ⟨ds, d, by rw [h, List.concat_eq_append]⟩
  have hdigit : isJsSpace d = false := by
    by_contra h
    rw [Bool.not_eq_false] at h
    have hd : d.isDigit = true := isDigit_of_toDigits (n := n) (by simp [hds])
    rw [(space_spec h).2] at hd
    cases hd
  have hleft : x ++ placeholder n ++ y = x ++ '$' :: (ds ++ d :: y) := by
    simp [placeholder, hds]
  have hmid : x.dropWhile isJsSpace ++ '$' :: (ds ++ d :: y) =
      (x.dropWhile isJsSpace ++ '$' :: ds) ++ d :: y := by simp
  unfold trim
  rw [hleft, dropWhile_append_stop hdollar, hmid, rdropWhile_append_stop hdigit]
  simp [placeholder, hds]

/-- **Placeholders and parameters correspond**, for every template over every tree of
fragments. -/
theorem sql_placeholders (tenantId : Text) (first : Piece) (rest : Rest V) :
    let items := (Tree.template first rest).items
    let text := statement (first.text :: rest.strings) rest.values
    let query := sql tenantId (first.text :: rest.strings) rest.values
    query.text = injectFilters text tenantId ∧
      query.params = holes items ∧
      placeholders text = (List.range' 1 query.params.length).map placeholder ∧
      ∀ before v after, items = before ++ .hole v :: after →
        query.params[(holes before).length]? = some v ∧
          text = (render 0 before).dropWhile isJsSpace ++
            placeholder ((holes before).length + 1) ++
            (render ((holes before).length + 1) after).rdropWhile isJsSpace := by
  intro items text query
  have hbuild : compose (first.text :: rest.strings) rest.values ⟨[], []⟩ = rendered items :=
    compose_eq [] first rest
  have hparams : query.params = holes items := congrArg SqlFragment.params hbuild
  have htext : text = trim (render 0 items) := congrArg (fun f : SqlFragment V => trim f.sql) hbuild
  refine ⟨?_, hparams, ?_, fun before v after hitems => ⟨?_, ?_⟩⟩
  · show (sql tenantId _ _).text = _
    rw [sql]
    rfl
  · rw [htext, placeholders_trim, placeholders_render, hparams]
  · rw [hparams, hitems, holes_append]
    simp [holes]
  · have hrender : render 0 items = render 0 before ++
        placeholder ((holes before).length + 1) ++
        render ((holes before).length + 1) after := by
      rw [hitems, render_append, render]
      simp
    rw [htext, hrender, trim_place]

/-- A fragment with two values as separator of a join. -/
example :
    let piece (c : Char) (hc : '$' ∉ [c]) (hd : c.isDigit = false) : Piece :=
      ⟨[c], hc, by simpa using hd⟩
    let a := piece 'a' (by decide) (by decide)
    let clause : Tree Nat := .template a (.value 7 a .done)
    let separator : Tree Nat := .template a (.value 8 a (.value 9 a .done))
    let joined : Tree Nat := .join (.cons clause (.cons clause .nil)) separator
    let rest : Rest Nat := .value 5 a (.fragment joined a .done)
    let query := sql [] (a.text :: rest.strings) rest.values
    query.text = "a$1aa$2aa$3a$4aa$5aa".toList ∧ query.params = [5, 7, 8, 9, 7] := by
  decide +kernel

end Intellibiz.Db
