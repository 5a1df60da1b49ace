import Mathlib.Algebra.Order.Field.Rat
import Mathlib.Data.List.Nodup

/-!
# Schemas that read values

* `Value` — the values of a configuration; a schema reads one, or `undefined`.
* `any`, `boolean`, `string`, `number`, `enum`, `array`, `object` with `Reader.optional`,
  `Reader.withDefault` and `Reader.mapString` — the schemas; the issues of all parts are gathered.
* `Accepts` — the schema reads the value without an issue.

* `Fixes` — what the schema has read of the value, it reads again without a change; `Stable` — of
  every value.

Principal results: `accepts_object_iff` and `accepts_array_iff` (part by part), `prop_object` (what
has been read of a field), and `fixes_object` with `stable_array` and `stable_object`.
-/

namespace Schema

inductive Value where
  | null
  | bool (b : Bool)
  | num (q : ℚ)
  | str (s : String)
  | arr (vs : List Value)
  | obj (fields : List (String × Value))
  | function

/-- `v?.key` -/
def prop (v : Option Value) (key : String) : Option Value :=
  match v with
  | some (.obj fields) => fields.lookup key
  | _ => none

@[simp] theorem prop_none (key : String) : prop none key = none := rfl

inductive Code where
  | invalidType
  | invalidValue
  | tooSmall
  | tooBig
  | invalidFormat
  deriving DecidableEq

structure Issue where
  path : List String
  code : Code
  deriving DecidableEq

abbrev Result (α : Type) : Type := Except (List Issue) α

/-- From a value, or `undefined`, to what is read of it. -/
abbrev Reader : Type := Option Value → Result (Option Value)

def reject {α : Type} (code : Code) : Result α := .error [⟨[], code⟩]

/-- The issues of a part, under its key. -/
def inside {α : Type} (key : String) : Result α → Result α
  | .ok a => .ok a
  | .error issues => .error (issues.map fun i => { i with path := key :: i.path })

/-- The results of all parts, or the issues of all. -/
def gather {α : Type} : List (Result α) → Result (List α)
  | [] => .ok []
  | .ok a :: rs =>
    match gather rs with
    | .ok as => .ok (a :: as)
    | .error issues => .error issues
  | .error issues :: rs =>
    match gather rs with
    | .ok _ => .error issues
    | .error more => .error (issues ++ more)

/-! ## Readers -/

def any : Reader := .ok

def boolean : Reader
  | some (.bool b) => .ok (some (.bool b))
  | _ => reject .invalidType

/-- The code of the issue, when there is one. -/
abbrev Check (α : Type) : Type := α → Option Code

def checked {α : Type} (checks : List (Check α)) (a : α) (v : Value) : Result (Option Value) :=
  match checks.filterMap fun check => check a with
  | [] => .ok (some v)
  | codes => .error (codes.map fun code => ⟨[], code⟩)

def string (checks : List (Check String)) : Reader
  | some (.str s) => checked checks s (.str s)
  | _ => reject .invalidType

def number (checks : List (Check ℚ)) : Reader
  | some (.num q) => checked checks q (.num q)
  | _ => reject .invalidType

def enum (options : List String) : Reader
  | some (.str s) => if s ∈ options then .ok (some (.str s)) else reject .invalidValue
  | _ => reject .invalidValue

def array (element : Reader) : Reader
  | some (.arr vs) =>
    match gather (vs.zipIdx.map fun e => inside (toString e.2) (element (some e.1))) with
    | .ok read => .ok (some (.arr (read.filterMap id)))
    | .error issues => .error issues
  | _ => reject .invalidType

/-- What is read of one field. -/
def field (fields : List (String × Value)) (e : String × Reader) : Result (String × Option Value) :=
  (inside e.1 (e.2 (fields.lookup e.1))).map fun v => (e.1, v)

/-- The fields that have a value, in the order of the shape. -/
def present (read : List (String × Option Value)) : List (String × Value) :=
  read.filterMap fun e => e.2.map fun v => (e.1, v)

def object (shape : List (String × Reader)) : Reader
  | some (.obj fields) =>
    match gather (shape.map (field fields)) with
    | .ok read => .ok (some (.obj (present read)))
    | .error issues => .error issues
  | _ => reject .invalidType

def Reader.optional (s : Reader) : Reader
  | none => .ok none
  | some v => s (some v)

def Reader.withDefault (s : Reader) (default : Value) : Reader
  | none => .ok (some default)
  | some v => s (some v)

/-- A change of the text that has been read. -/
def Reader.mapString (s : Reader) (f : String → String) : Reader := fun v =>
  (s v).map fun
    | some (.str t) => some (.str (f t))
    | w => w

/-! ## Acceptance -/

def Accepts (s : Reader) (v : Option Value) : Prop := ∃ w, s v = .ok w

variable {s : Reader} {shape : List (String × Reader)} {fields : List (String × Value)}

section Leaves

variable {t : String} {q : ℚ}

@[simp] theorem accepts_any (v : Option Value) : Accepts any v := ⟨v, rfl⟩

@[simp] theorem accepts_boolean (b : Bool) : Accepts boolean (some (.bool b)) := ⟨_, rfl⟩

theorem enum_eq_ok {options : List String} (h : t ∈ options) :
    enum options (some (.str t)) = .ok (some (.str t)) := if_pos h

@[simp] theorem accepts_enum_iff {options : List String} :
    Accepts (enum options) (some (.str t)) ↔ t ∈ options := by
  constructor
  · rintro ⟨w, hw⟩
    by_contra h
    rw [enum, if_neg h] at hw
    cases hw
  · exact fun h => ⟨_, enum_eq_ok h⟩

theorem checked_eq_ok_iff {α : Type} {checks : List (Check α)} {a : α} {v : Value} :
    (∃ w, checked checks a v = .ok w) ↔ ∀ check ∈ checks, check a = none := by
  unfold checked
  rw [← List.filterMap_eq_nil_iff]
  cases checks.filterMap fun check => check a <;> simp

@[simp] theorem accepts_string_iff {checks : List (Check String)} :
    Accepts (string checks) (some (.str t)) ↔ ∀ check ∈ checks, check t = none :=
  checked_eq_ok_iff

@[simp] theorem accepts_number_iff {checks : List (Check ℚ)} :
    Accepts (number checks) (some (.num q)) ↔ ∀ check ∈ checks, check q = none :=
  checked_eq_ok_iff

@[simp] theorem accepts_optional_none : Accepts s.optional none := ⟨none, rfl⟩

@[simp] theorem accepts_optional_some {v : Value} :
    Accepts s.optional (some v) ↔ Accepts s (some v) := Iff.rfl

@[simp] theorem accepts_withDefault_none {default : Value} : Accepts (s.withDefault default) none :=
  ⟨some default, rfl⟩

@[simp] theorem accepts_withDefault_some {default v : Value} :
    Accepts (s.withDefault default) (some v) ↔ Accepts s (some v) := Iff.rfl

@[simp] theorem accepts_mapString_iff {f : String → String} {v : Option Value} :
    Accepts (s.mapString f) v ↔ Accepts s v := by
  unfold Accepts Reader.mapString
  cases s v <;> simp [Except.map]

end Leaves

/-! ## Parts -/

theorem inside_eq_ok {α : Type} {key : String} {r : Result α} {a : α} :
    inside key r = .ok a ↔ r = .ok a := by
  cases r <;> simp [inside]

theorem gather_eq_ok {α : Type} {rs : List (Result α)} {as : List α} :
    gather rs = .ok as ↔ rs = as.map .ok := by
  induction rs generalizing as with
  | nil => cases as <;> simp [gather]
  | cons r rs ih =>
    cases r with
    | ok a =>
      cases hrs : gather rs with
      | ok bs =>
        rw [gather, hrs]
        cases as with
        | nil => simp
        | cons b as =>
          have hbs := ih.1 hrs
          simp [hbs, List.map_inj_right]
      | error issues =>
        rw [gather, hrs]
        refine iff_of_false nofun ?_
        intro h
        cases as with
        | nil => cases h
        | cons b as =>
          have := ih.2 (List.cons.inj h).2
          rw [hrs] at this
          cases this
    | error issues =>
      refine iff_of_false ?_ ?_
      · rw [gather]
        cases gather rs <;> nofun
      · cases as with
        | nil => nofun
        | cons b as => simp

theorem gather_isOk_iff {α : Type} {rs : List (Result α)} :
    (∃ as, gather rs = .ok as) ↔ ∀ r ∈ rs, ∃ a, r = .ok a := by
  constructor
  · rintro ⟨as, h⟩ r hr
    rw [gather_eq_ok.1 h] at hr
    obtain ⟨a, -, rfl⟩ := List.mem_map.1 hr
    exact ⟨a, rfl⟩
  · intro h
    induction rs with
    | nil => exact ⟨[], rfl⟩
    | cons r rs ih =>
      obtain ⟨a, rfl⟩ := h r List.mem_cons_self
      obtain ⟨as, has⟩ := ih fun r hr => h r (List.mem_cons_of_mem _ hr)
      exact ⟨a :: as, by rw [gather, has]⟩

theorem field_eq_ok {e : String × Reader} {r : String × Option Value} :
    field fields e = .ok r ↔ r.1 = e.1 ∧ e.2 (fields.lookup e.1) = .ok r.2 := by
  unfold field
  cases h : e.2 (fields.lookup e.1) with
  | ok v =>
    have hok : inside e.1 (.ok v : Result (Option Value)) = .ok v := rfl
    rw [hok]
    constructor
    · intro hr
      cases hr
      exact ⟨rfl, rfl⟩
    · rintro ⟨h1, h2⟩
      cases h2
      rw [← h1]
      rfl
  | error issues =>
    refine iff_of_false ?_ ?_
    · rintro ⟨⟩
    · rintro ⟨-, ⟨⟩⟩

/-- **An object is read when each field of the shape is.** -/
theorem accepts_object_iff :
    Accepts (object shape) (some (.obj fields)) ↔
      ∀ e ∈ shape, Accepts e.2 (fields.lookup e.1) := by
  have hgather : Accepts (object shape) (some (.obj fields)) ↔
      ∃ read, gather (shape.map (field fields)) = .ok read := by
    unfold Accepts
    rw [object]
    cases gather (shape.map (field fields)) <;> simp
  rw [hgather, gather_isOk_iff]
  constructor
  · intro h e he
    obtain ⟨r, hr⟩ := h _ (List.mem_map.2 ⟨e, he, rfl⟩)
    exact ⟨r.2, (field_eq_ok.1 hr).2⟩
  · intro h r hr
    obtain ⟨e, he, rfl⟩ := List.mem_map.1 hr
    obtain ⟨v, hv⟩ := h e he
    exact ⟨(e.1, v), field_eq_ok.2 ⟨rfl, hv⟩⟩

theorem eq_obj_of_object {v w : Option Value} (h : object shape v = .ok w) :
    ∃ read, w = some (.obj read) := by
  unfold object at h
  split at h
  · split at h
    · cases h
      exact ⟨_, rfl⟩
    · cases h
  · cases h

/-- An array is read when each element is. -/
theorem accepts_array_iff {vs : List Value} :
    Accepts (array s) (some (.arr vs)) ↔ ∀ v ∈ vs, Accepts s (some v) := by
  have hgather : Accepts (array s) (some (.arr vs)) ↔
      ∃ read, gather (vs.zipIdx.map fun e => inside (toString e.2) (s (some e.1))) = .ok read := by
    unfold Accepts
    rw [array]
    cases gather (vs.zipIdx.map fun e => inside (toString e.2) (s (some e.1))) <;> simp
  rw [hgather, gather_isOk_iff]
  constructor
  · intro h v hv
    obtain ⟨i, hi⟩ := List.mem_iff_getElem?.1 hv
    obtain ⟨w, hw⟩ := h _ (List.mem_map.2 ⟨(v, i), List.mem_zipIdx_iff_getElem?.2 hi, rfl⟩)
    exact ⟨w, inside_eq_ok.1 hw⟩
  · intro h r hr
    obtain ⟨e, he, rfl⟩ := List.mem_map.1 hr
    obtain ⟨w, hw⟩ := h e.1 (List.fst_mem_of_mem_zipIdx he)
    exact ⟨w, inside_eq_ok.2 hw⟩

/-! ## What has been read -/

theorem lookup_present {read : List (String × Option Value)} (hkeys : (read.map Prod.fst).Nodup)
    {key : String} {v : Option Value} (hmem : (key, v) ∈ read) :
    (present read).lookup key = v := by
  induction read with
  | nil => cases hmem
  | cons e read ih =>
    obtain ⟨hhead, hkeys⟩ := List.nodup_cons.1 hkeys
    rcases List.mem_cons.1 hmem with rfl | hmem
    · cases v with
      | none =>
        refine List.lookup_eq_none_iff.2 ?_
        intro w hw
        obtain ⟨r, hr, hrw⟩ := List.mem_filterMap.1 hw
        rcases List.mem_cons.1 hr with rfl | hr
        · cases hrw
        · obtain ⟨_, -, rfl⟩ := Option.map_eq_some_iff.1 hrw
          refine bne_iff_ne.2 ?_
          intro hkey
          exact hhead (List.mem_map.2 ⟨r, hr, hkey.symm⟩)
      | some w => exact List.lookup_cons_self
    · have hne : key ≠ e.1 := by
        rintro rfl
        exact hhead (List.mem_map.2 ⟨_, hmem, rfl⟩)
      rw [← ih hkeys hmem]
      obtain ⟨k, w⟩ := e
      cases w with
      | none => rfl
      | some w =>
        change List.lookup key ((k, w) :: present read) = _
        rw [List.lookup_cons, beq_eq_false_iff_ne.2 hne]

theorem keys_of_fields {read : List (String × Option Value)}
    (h : shape.map (field fields) = read.map .ok) : read.map Prod.fst = shape.map Prod.fst := by
  induction shape generalizing read with
  | nil =>
    rw [List.map_eq_nil_iff.1 h.symm]
    rfl
  | cons e shape ih =>
    obtain ⟨r, read', rfl, hr, hread'⟩ := List.map_eq_cons_iff.1 h.symm
    rw [List.map_cons, List.map_cons, ih hread'.symm, (field_eq_ok.1 hr.symm).1]

/-- **A field of what is read of an object** is what its schema reads of the field. -/
theorem prop_object {w : Option Value} (hkeys : (shape.map Prod.fst).Nodup)
    (hread : object shape (some (.obj fields)) = .ok w) {key : String} (hmem : (key, s) ∈ shape) :
    s (fields.lookup key) = .ok (prop w key) := by
  rw [object] at hread
  cases h : gather (shape.map (field fields)) with
  | error issues => rw [h] at hread; cases hread
  | ok read =>
    rw [h] at hread
    cases hread
    have hmap := gather_eq_ok.1 h
    have hfst := keys_of_fields hmap
    have hfield : field fields (key, s) ∈ read.map (Except.ok (ε := List Issue)) :=
      hmap ▸ List.mem_map.2 ⟨(key, s), hmem, rfl⟩
    obtain ⟨r, hr, heq⟩ := List.mem_map.1 hfield
    obtain ⟨hkey, hs⟩ := field_eq_ok.1 heq.symm
    have hr' : (key, r.2) ∈ read := by
      rwa [show r = (key, r.2) from Prod.ext hkey rfl] at hr
    exact hs.trans (congrArg _ (lookup_present (hfst ▸ hkeys) hr').symm)

/-! ## Reading again -/

def Fixes (s : Reader) (v : Option Value) : Prop := ∀ w, s v = .ok w → s w = .ok w

/-- What has been read is read again without a change, and a value is read as a value. -/
structure Stable (s : Reader) : Prop where
  fixes : ∀ v, Fixes s v
  solid : ∀ v w, s (some v) = .ok w → ∃ u, w = some u

section Leaves

/-- A schema that hands on what it has accepted. -/
theorem stable_of_eq (h : ∀ v w, s v = .ok w → v = w ∧ ∃ u, w = some u) : Stable s := by
  refine ⟨fun v w hw => ?_, fun v w hw => (h _ w hw).2⟩
  obtain ⟨rfl, -⟩ := h v w hw
  exact hw

theorem checked_eq {α : Type} {checks : List (Check α)} {a : α} {u : Value} {w : Option Value}
    (h : checked checks a u = .ok w) : w = some u := by
  unfold checked at h
  split at h
  · cases h
    rfl
  · cases h

@[simp] theorem stable_any : Stable any := by
  refine ⟨fun v w _ => rfl, ?_⟩
  rintro v w ⟨⟩
  exact ⟨v, rfl⟩

@[simp] theorem stable_boolean : Stable boolean := by
  refine stable_of_eq fun v w h => ?_
  unfold boolean at h
  split at h
  · cases h
    exact ⟨rfl, _, rfl⟩
  · cases h

@[simp] theorem stable_enum (options : List String) : Stable (enum options) := by
  refine stable_of_eq fun v w h => ?_
  unfold enum at h
  split at h
  · split at h
    · cases h
      exact ⟨rfl, _, rfl⟩
    · cases h
  · cases h

@[simp] theorem stable_string (checks : List (Check String)) : Stable (string checks) := by
  refine stable_of_eq fun v w h => ?_
  unfold string at h
  split at h
  · rw [checked_eq h]
    exact ⟨rfl, _, rfl⟩
  · cases h

@[simp] theorem stable_number (checks : List (Check ℚ)) : Stable (number checks) := by
  refine stable_of_eq fun v w h => ?_
  unfold number at h
  split at h
  · rw [checked_eq h]
    exact ⟨rfl, _, rfl⟩
  · cases h

theorem fixes_optional {v : Option Value} (h : Fixes s v) : Fixes s.optional v := by
  intro w hw
  cases w with
  | none => rfl
  | some w =>
    cases v with
    | none => cases hw
    | some u => exact h (some w) hw

@[simp] theorem stable_optional (h : Stable s) : Stable s.optional :=
  ⟨fun v => fixes_optional (h.fixes v), h.solid⟩

/-- The default passes the checks of its own field. -/
def Reads (s : Reader) (default : Value) : Prop := s (some default) = .ok (some default)

@[simp] theorem stable_withDefault {default : Value} (h : Stable s) (hdefault : Reads s default) :
    Stable (s.withDefault default) := by
  refine ⟨fun v w hw => ?_, h.solid⟩
  cases v with
  | none =>
    cases hw
    exact hdefault
  | some u =>
    obtain ⟨w, rfl⟩ := h.solid u w hw
    exact h.fixes (some u) (some w) hw

@[simp] theorem reads_boolean (b : Bool) : Reads boolean (.bool b) := rfl

@[simp] theorem reads_enum {options : List String} {t : String} :
    Reads (enum options) (.str t) ↔ t ∈ options := by
  refine ⟨fun h => accepts_enum_iff.1 ⟨_, h⟩, enum_eq_ok⟩

theorem checked_eq_some_iff {α : Type} {checks : List (Check α)} {a : α} {v : Value} :
    checked checks a v = .ok (some v) ↔ ∀ check ∈ checks, check a = none := by
  refine ⟨fun h => checked_eq_ok_iff.1 ⟨_, h⟩, fun h => ?_⟩
  unfold checked
  rw [List.filterMap_eq_nil_iff.2 h]

@[simp] theorem reads_string {checks : List (Check String)} {t : String} :
    Reads (string checks) (.str t) ↔ ∀ check ∈ checks, check t = none :=
  checked_eq_some_iff

@[simp] theorem reads_number {checks : List (Check ℚ)} {q : ℚ} :
    Reads (number checks) (.num q) ↔ ∀ check ∈ checks, check q = none :=
  checked_eq_some_iff

end Leaves

theorem gather_elements {vs : List Value} {read : List (Option Value)} (n : ℕ) :
    gather ((vs.zipIdx n).map fun e => inside (toString e.2) (s (some e.1))) = .ok read ↔
      List.Forall₂ (fun v r => s (some v) = .ok r) vs read := by
  rw [gather_eq_ok]
  induction vs generalizing read n with
  | nil =>
    cases read with
    | nil => exact iff_of_true rfl .nil
    | cons r read => exact iff_of_false nofun nofun
  | cons v vs ih =>
    cases read with
    | nil => exact iff_of_false nofun nofun
    | cons r read =>
      rw [List.zipIdx_cons, List.map_cons, List.map_cons, List.cons.injEq, inside_eq_ok, ih,
        List.forall₂_cons]

theorem gathered_again (h : Stable s) {vs : List Value} {read : List (Option Value)}
    (hread : List.Forall₂ (fun v r => s (some v) = .ok r) vs read) :
    ∃ ws : List Value, read = ws.map some ∧
      List.Forall₂ (fun v r => s (some v) = .ok r) ws (ws.map some) := by
  induction hread with
  | nil => exact ⟨[], rfl, .nil⟩
  | @cons v r vs read hv _ ih =>
    obtain ⟨ws, rfl, hws⟩ := ih
    obtain ⟨u, rfl⟩ := h.solid v r hv
    exact ⟨u :: ws, rfl, .cons (h.fixes _ _ hv) hws⟩

/-- The elements of an array that has been read are read again without a change. -/
@[simp] theorem stable_array (h : Stable s) : Stable (array s) := by
  refine ⟨fun v w hw => ?_, fun v w hw => ?_⟩
  · unfold array at hw
    split at hw
    · rename_i vs
      cases hread : gather (vs.zipIdx.map fun e => inside (toString e.2) (s (some e.1))) with
      | error issues => rw [hread] at hw; cases hw
      | ok read =>
        rw [hread] at hw
        cases hw
        obtain ⟨ws, rfl, hws⟩ := gathered_again h ((gather_elements 0).1 hread)
        have hvalues : (ws.map some).filterMap id = ws := by simp
        rw [hvalues, array, (gather_elements 0).2 hws]
        exact congrArg (fun vs => Except.ok (some (Value.arr vs))) hvalues
    · cases hw
  · unfold array at hw
    split at hw
    · split at hw
      · cases hw
        exact ⟨_, rfl⟩
      · cases hw
    · cases hw

@[simp] theorem reads_array {vs : List Value} (h : ∀ v ∈ vs, Reads s v) :
    Reads (array s) (.arr vs) := by
  have helements : List.Forall₂ (fun v r => s (some v) = .ok r) vs (vs.map some) := by
    rw [List.forall₂_map_right_iff, List.forall₂_same]
    exact h
  have hvalues : (vs.map some).filterMap id = vs := by simp
  unfold Reads
  rw [array, (gather_elements 0).2 helements]
  exact congrArg (fun vs => Except.ok (some (Value.arr vs))) hvalues

/-- **An object is read again without a change** when its fields are. -/
theorem fixes_object {v : Option Value} (hkeys : (shape.map Prod.fst).Nodup)
    (h : ∀ e ∈ shape, Fixes e.2 (prop v e.1)) : Fixes (object shape) v := by
  intro w hw
  unfold object at hw
  split at hw
  · rename_i fields
    cases hread : gather (shape.map (field fields)) with
    | error issues => rw [hread] at hw; cases hw
    | ok read =>
      rw [hread] at hw
      cases hw
      have hmap := gather_eq_ok.1 hread
      have hfst := keys_of_fields hmap
      have hagain : gather (shape.map (field (present read))) = .ok read := by
        rw [gather_eq_ok, ← hmap]
        refine List.map_congr_left fun e he => ?_
        have hfield : field fields e ∈ read.map (Except.ok (ε := List Issue)) :=
          hmap ▸ List.mem_map.2 ⟨e, he, rfl⟩
        obtain ⟨r, hr, heq⟩ := List.mem_map.1 hfield
        obtain ⟨hkey, hs⟩ := field_eq_ok.1 heq.symm
        have hlookup : (present read).lookup e.1 = r.2 :=
          lookup_present (hfst ▸ hkeys) (by rw [← hkey]; exact hr)
        rw [← heq]
        refine field_eq_ok.2 ⟨hkey, ?_⟩
        rw [hlookup]
        exact h e he r.2 hs
      rw [object, hagain]
  · cases hw

theorem stable_object (hkeys : (shape.map Prod.fst).Nodup) (h : ∀ e ∈ shape, Stable e.2) :
    Stable (object shape) := by
  refine ⟨fun v => fixes_object hkeys fun e he => (h e he).fixes _, fun v w hw => ?_⟩
  obtain ⟨read, rfl⟩ := eq_obj_of_object hw
  exact ⟨_, rfl⟩

end Schema
