import Intellibiz.Commerce.Signature
import Intellibiz.Words

/-!
# Case helpers of the scaffolder

Model of `toCamelCase`, `toPascalCase`, `toKebabCase` and `scaffoldAction`
(`packages/cli/src/scaffold.ts`).

* `splitCase`, `joinWords` — the two rewrites that look at more than one character.
* `toKebabCase`, `toCamelCase`, `toPascalCase` — each replacement of the source in its order.
* `scaffoldAction` — the names and the source of an action.

Principal result: `toKebabCase_slug`.
-/

namespace Intellibiz.Cli

open Db (Text trim isJsSpace)
open Words (squeeze strip Separated IsJoined)

/-! ## Helpers -/

/-- `replace(/([a-z0-9])([A-Z])/g, '$1-$2')`: no second character of a match begins another. -/
def splitCase : Text → Text
  | [] => []
  | [c] => [c]
  | c :: d :: rest =>
    if (c.isLower || c.isDigit) && d.isUpper then c :: '-' :: splitCase (d :: rest)
    else c :: splitCase (d :: rest)

/-- What `/[^a-zA-Z0-9-]+/` leaves. -/
def isKebab (c : Char) : Bool := c.isAlphanum || c = '-'

def toKebabCase (name : Text) : Text :=
  let spaced := squeeze (fun c => isJsSpace c || c = '_') '-' false (splitCase (trim name))
  let dashed := squeeze (fun c => c = '-') '-' false (spaced.filter isKebab)
  (strip '-' dashed).map Char.toLower

/-- `[-_\s]` -/
def isSeparator (c : Char) : Bool := c = '-' || c = '_' || isJsSpace c

/-- `replace(/[-_\s]+([a-zA-Z0-9])/g, (_, c) => c.toUpperCase())`; `pending` is the run of
separators that has been read, which stays where no letter or digit follows. -/
def joinWords (pending : Text) : Text → Text
  | [] => pending
  | c :: rest =>
    if isSeparator c then joinWords (pending ++ [c]) rest
    else if pending ≠ [] ∧ c.isAlphanum then c.toUpper :: joinWords [] rest
    else pending ++ c :: joinWords [] rest

/-- `[a-zA-Z_$]` -/
def isIdStart (c : Char) : Bool := c.isAlpha || c = '_' || c = '$'

def toCamelCase (name : Text) : Text :=
  (joinWords [] (trim name)).dropWhile fun c => !isIdStart c

/-- The first character is a letter, `_` or `$`. -/
def toPascalCase (name : Text) : Text := (toCamelCase name).modifyHead Char.toUpper

structure ScaffoldedAction where
  file : Text
  exportName : Text
  schemaName : Text
  source : Text
  deriving DecidableEq

def actionSource (exportName schemaName : Text) : Text :=
  ("import \x7b defineAction \x7d from 'intellibiz';\nimport \x7b z \x7d from 'zod';\n\n" ++
      "const ").toList
    ++ schemaName
    ++ (" = z.object(\x7b\n\t// define your input schema\n\x7d);\n\n" ++ "export const ").toList
    ++ exportName ++ " = defineAction(\x7b\n\tinput: ".toList ++ schemaName
    ++ (",\n\tasync handler(action) \x7b\n" ++ "\t\t// action.data is fully typed from ").toList
    ++ schemaName
    ++ ("\n\t\t// action.db / action.log / action.emit are available\n" ++
      "\t\treturn \x7b\x7d;\n\t\x7d\n\x7d);\n").toList

/-- The error is the message of the source. -/
def scaffoldAction (rawName : Text) : Except Text ScaffoldedAction :=
  let file := toKebabCase rawName
  let exportName := toCamelCase rawName
  let schemaName := toPascalCase rawName ++ "Input".toList
  if file = [] ∨ exportName = [] then
    .error ("Invalid action name \"".toList ++ rawName ++
      "\": must contain at least one letter or digit.".toList)
  else .ok { file, exportName, schemaName, source := actionSource exportName schemaName }

/-! ## Characters -/

theorem not_space_of_alphanum {c : Char} (h : c.isAlphanum = true) : isJsSpace c = false := by
  by_contra hspace
  rw [Bool.not_eq_false] at hspace
  have hlow : c.toNat ≤ 122 ∧ 48 ≤ c.toNat := by
    have hvalue : c.toNat = c.val.toNat := rfl
    simp [Char.isAlphanum, Char.isAlpha, Char.isUpper, Char.isLower, Char.isDigit,
      UInt32.le_iff_toNat_le] at h
    omega
  simp only [isJsSpace, Bool.or_eq_true, Bool.and_eq_true, decide_eq_true_eq, List.mem_cons,
    List.not_mem_nil, or_false] at hspace
  rcases hspace with hspace | hspace
  · have hnat : c.toNat ∈
        [9, 10, 11, 12, 13, 32, 160, 5760, 8232, 8233, 8239, 8287, 12288, 65279] := by
      rcases hspace with h | h | h | h | h | h | h | h | h | h | h | h | h | h <;>
        subst h <;> decide
    simp only [List.mem_cons, List.not_mem_nil, or_false] at hnat
    omega
  · omega

theorem not_separator_of_alphanum {c : Char} (h : c.isAlphanum = true) : isSeparator c = false := by
  unfold isSeparator
  rw [not_space_of_alphanum h, Bool.or_false, Bool.or_eq_false_iff]
  constructor
  · refine decide_eq_false ?_
    rintro rfl
    cases h
  · refine decide_eq_false ?_
    rintro rfl
    cases h

/-- `[a-z0-9]` -/
def isSlugChar (c : Char) : Bool := c.isLower || c.isDigit

theorem isAlphanum_of_slugChar {c : Char} (h : isSlugChar c = true) : c.isAlphanum = true := by
  rcases Bool.or_eq_true_iff.1 h with h | h
  · simp [Char.isAlphanum, Char.isAlpha, h]
  · simp [Char.isAlphanum, h]

theorem not_isUpper_of_isDigit {c : Char} (h : c.isDigit = true) : c.isUpper = false := by
  have hvalue : c.toNat = c.val.toNat := rfl
  simp [Char.isUpper, Char.isDigit, UInt32.le_iff_toNat_le] at h ⊢
  omega

theorem not_isUpper_of_slugChar {c : Char} (h : isSlugChar c = true) : c.isUpper = false := by
  rcases Bool.or_eq_true_iff.1 h with h | h
  · rw [← Bool.not_eq_true]
    exact Char.not_isUpper_of_isLower h
  · exact not_isUpper_of_isDigit h

theorem slugChar_toLower {c : Char} (h : c.isAlphanum = true) : isSlugChar c.toLower = true := by
  unfold isSlugChar
  rcases Bool.or_eq_true_iff.1 h with h | h
  · rw [Char.isLower_toLower_eq_isAlpha, h, Bool.true_or]
  · rw [Char.toLower_eq_of_not_isUpper (by simp [not_isUpper_of_isDigit h]), h, Bool.or_true]

theorem eq_dash_of_toLower {c : Char} (h : c.toLower = '-') : c = '-' := by
  by_cases hupper : c.isUpper = true
  · have hlower := Char.isLower_toLower_eq_isAlpha c
    rw [h, Char.isAlpha, hupper] at hlower
    cases hlower
  · rwa [Char.toLower_eq_of_not_isUpper hupper] at h

/-! ## Kebab case -/

/-- The characters of a slug. -/
def IsSlugText (s : Text) : Prop := ∀ c ∈ s, isSlugChar c = true ∨ c = '-'

theorem splitCase_eq_self {s : Text} (h : ∀ c ∈ s, c.isUpper = false) : splitCase s = s := by
  induction s using splitCase.induct with
  | case1 => rfl
  | case2 c => rfl
  | case3 c d rest hmatch ih =>
    rw [h d (by simp), Bool.and_false] at hmatch
    cases hmatch
  | case4 c d rest hmatch ih =>
    rw [splitCase, if_neg hmatch, ih fun x hx => h x (List.mem_cons_of_mem c hx)]

theorem separated_toKebabCase (name : Text) : Separated '-' (toKebabCase name) :=
  Words.separated_strip_squeeze.map fun _ _ h => eq_dash_of_toLower h

theorem slugText_toKebabCase (name : Text) : IsSlugText (toKebabCase name) := by
  intro c hc
  obtain ⟨d, hd, rfl⟩ := List.mem_map.1 hc
  rcases Words.mem_squeeze (Words.mem_strip hd) with rfl | hd
  · exact .inr rfl
  · rcases Bool.or_eq_true_iff.1 (List.mem_filter.1 hd).2 with h | h
    · exact .inl (slugChar_toLower h)
    · rw [of_decide_eq_true h]
      exact .inr rfl

theorem mem_splitCase {c : Char} {s : Text} (h : c ∈ s) : c ∈ splitCase s := by
  induction s using splitCase.induct with
  | case1 => exact h
  | case2 d => exact h
  | case3 d e rest hmatch ih =>
    rw [splitCase, if_pos hmatch]
    rcases List.mem_cons.1 h with rfl | h
    · exact List.mem_cons_self
    · exact List.mem_cons_of_mem d (List.mem_cons_of_mem '-' (ih h))
  | case4 d e rest hmatch ih =>
    rw [splitCase, if_neg hmatch]
    rcases List.mem_cons.1 h with rfl | h
    · exact List.mem_cons_self
    · exact List.mem_cons_of_mem d (ih h)

theorem of_mem_splitCase {c : Char} {s : Text} (h : c ∈ splitCase s) : c = '-' ∨ c ∈ s := by
  induction s using splitCase.induct with
  | case1 => exact .inr h
  | case2 d => exact .inr h
  | case3 d e rest hmatch ih =>
    rw [splitCase, if_pos hmatch] at h
    rcases List.mem_cons.1 h with rfl | h
    · exact .inr List.mem_cons_self
    · rcases List.mem_cons.1 h with h | h
      · exact .inl h
      · exact (ih h).imp_right (List.mem_cons_of_mem d)
  | case4 d e rest hmatch ih =>
    rw [splitCase, if_neg hmatch] at h
    rcases List.mem_cons.1 h with rfl | h
    · exact .inr List.mem_cons_self
    · exact (ih h).imp_right (List.mem_cons_of_mem d)

theorem mem_trim {c : Char} {s : Text} (hc : isJsSpace c = false) : c ∈ trim s ↔ c ∈ s := by
  obtain ⟨a, b, hs, ha, hb⟩ := Db.trim_spec s
  constructor
  · intro h
    rw [hs]
    exact List.mem_append_left b (List.mem_append_right a h)
  · intro h
    rw [hs] at h
    rcases List.mem_append.1 h with h | h
    · rcases List.mem_append.1 h with h | h
      · rw [ha c h] at hc
        cases hc
      · exact h
    · rw [hb c h] at hc
      cases hc

/-- What is no dash in a slug comes from a letter or digit of the name. -/
theorem of_mem_toKebabCase {c : Char} {name : Text} (hc : c ∈ toKebabCase name) (hne : c ≠ '-') :
    ∃ d ∈ name, d.isAlphanum = true ∧ d.toLower = c := by
  obtain ⟨d, hd, rfl⟩ := List.mem_map.1 hc
  have hdash : d ≠ '-' := by
    rintro rfl
    exact hne rfl
  have hfilter := (Words.mem_squeeze (Words.mem_strip hd)).resolve_left hdash
  obtain ⟨hspaced, hkebab⟩ := List.mem_filter.1 hfilter
  have halnum : d.isAlphanum = true :=
    (Bool.or_eq_true_iff.1 hkebab).resolve_right fun h => hdash (of_decide_eq_true h)
  have hsplit := (Words.mem_squeeze hspaced).resolve_left hdash
  have htrim := (of_mem_splitCase hsplit).resolve_left hdash
  exact ⟨d, (mem_trim (not_space_of_alphanum halnum)).1 htrim, halnum, rfl⟩

/-- Every letter or digit of the name is in its slug. -/
theorem mem_toKebabCase {c : Char} {name : Text} (hc : c ∈ name) (halnum : c.isAlphanum = true) :
    c.toLower ∈ toKebabCase name := by
  have hspace := not_space_of_alphanum halnum
  have hdash : c ≠ '-' := by
    rintro rfl
    cases halnum
  have hunderscore : (isJsSpace c || decide (c = '_')) = false := by
    rw [hspace, Bool.false_or]
    refine decide_eq_false ?_
    rintro rfl
    cases halnum
  have hsplit := mem_splitCase ((mem_trim hspace).2 hc)
  have hspaced : c ∈ squeeze (fun d => isJsSpace d || d = '_') '-' false
      (splitCase (trim name)) := by
    refine Words.mem_squeeze_of_not ?_ hsplit false
    exact hunderscore
  have hkebab : isKebab c = true := by simp [isKebab, halnum]
  have hdashed : c ∈ squeeze (fun d => d = '-') '-' false
      ((squeeze (fun d => isJsSpace d || d = '_') '-' false (splitCase (trim name))).filter
        isKebab) := by
    refine Words.mem_squeeze_of_not ?_ (List.mem_filter.2 ⟨hspaced, hkebab⟩) false
    exact decide_eq_false hdash
  exact List.mem_map.2 ⟨c, Words.mem_strip_of_ne hdash hdashed, rfl⟩

/-- **A name has a slug exactly when it has a letter or digit.** -/
theorem toKebabCase_ne_nil_iff {name : Text} :
    toKebabCase name ≠ [] ↔ ∃ c ∈ name, c.isAlphanum = true := by
  constructor
  · intro h
    obtain ⟨c, rest, hcons⟩ := List.exists_cons_of_ne_nil h
    have hdash : c ≠ '-' := by
      rintro rfl
      exact (separated_toKebabCase name).head (by rw [hcons]; rfl)
    obtain ⟨d, hd, halnum, -⟩ := of_mem_toKebabCase (hcons ▸ List.mem_cons_self) hdash
    exact ⟨d, hd, halnum⟩
  · rintro ⟨c, hc, halnum⟩
    exact List.ne_nil_of_mem (mem_toKebabCase hc halnum)

/-- **A slug stays as it is.** -/
theorem toKebabCase_eq_self {s : Text} (hsep : Separated '-' s) (hs : IsSlugText s) :
    toKebabCase s = s := by
  have hspace : ∀ c ∈ s, isJsSpace c = false := by
    intro c hc
    rcases hs c hc with h | rfl
    · exact not_space_of_alphanum (isAlphanum_of_slugChar h)
    · rfl
  have hupper : ∀ c ∈ s, c.isUpper = false := by
    intro c hc
    rcases hs c hc with h | rfl
    · exact not_isUpper_of_slugChar h
    · rfl
  have hspaced : ∀ c ∈ s, (isJsSpace c || decide (c = '_')) = false := by
    intro c hc
    rw [hspace c hc, Bool.false_or]
    refine decide_eq_false ?_
    rintro rfl
    rcases hs '_' hc with h | h <;> cases h
  have hkebab : ∀ c ∈ s, isKebab c = true := by
    intro c hc
    rcases hs c hc with h | rfl
    · simp [isKebab, isAlphanum_of_slugChar h]
    · rfl
  have htrimmed : Commerce.Trimmed s :=
    ⟨fun c hc => hspace c (List.mem_of_mem_head? hc),
      fun c hc => hspace c (List.mem_of_mem_getLast? hc)⟩
  have hspaced' : squeeze (fun c => isJsSpace c || c = '_') '-' false (splitCase (trim s)) = s := by
    rw [Commerce.trim_eq_self htrimmed, splitCase_eq_self hupper]
    exact Words.squeeze_eq_self_of_not hspaced false
  have hdashed : squeeze (fun c => decide (c = '-')) '-' false s = s :=
    Words.squeeze_eq_self hsep.single fun h => absurd h Bool.false_ne_true
  unfold toKebabCase
  simp only [hspaced', List.filter_eq_self.2 hkebab, hdashed, Words.strip_eq_self hsep]
  calc s.map Char.toLower = s.map id :=
        List.map_congr_left fun c hc =>
          Char.toLower_eq_of_not_isUpper (by simp [hupper c hc])
    _ = s := List.map_id s

/-- **`toKebabCase` yields nothing or words of `[a-z0-9]` joined by single dashes**, and keeps what
it has yielded. -/
theorem toKebabCase_slug (name : Text) :
    (toKebabCase name = [] ∨ IsJoined isSlugChar '-' (toKebabCase name)) ∧
      toKebabCase (toKebabCase name) = toKebabCase name := by
  refine ⟨?_, toKebabCase_eq_self (separated_toKebabCase name) (slugText_toKebabCase name)⟩
  by_cases h : toKebabCase name = []
  · exact .inl h
  · exact .inr ((separated_toKebabCase name).isJoined h (slugText_toKebabCase name))

end Intellibiz.Cli
