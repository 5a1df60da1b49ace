import Intellibiz.Db.Governance

/-!
# The sudo template

`db.sudo().sql` repeats the loop of the `sql` tag without the test for fragments.

* `Interpolated.isFragment`, `Interpolated.params` — the test, and what the tag adds to the
  parameters.
* `params_compose`, `compose_take`, `map_compose` — what the loop depends on.

Principal result: `sudo_eq_sql_iff` (the two templates agree where no fragment is interpolated).
-/

namespace Intellibiz.Db

variable {V W : Type}

def Interpolated.isFragment : Interpolated V → Bool
  | .value _ => false
  | .fragment _ => true

/-- The parameters of an interpolated value. -/
def Interpolated.params : Interpolated V → List V
  | .value v => [v]
  | .fragment f => f.params

def SqlFragment.map (g : V → W) (f : SqlFragment V) : SqlFragment W := ⟨f.sql, f.params.map g⟩

/-! ## The loop -/

theorem params_interpolate (v : Interpolated V) (acc : SqlFragment V) :
    (interpolate v acc).params = acc.params ++ v.params := by
  cases v <;> rfl

theorem params_compose (strings : List Text) (values : List (Interpolated V))
    (acc : SqlFragment V) :
    (compose strings values acc).params =
      acc.params ++ (values.take strings.length).flatMap Interpolated.params := by
  induction strings generalizing values acc with
  | nil => simp [compose]
  | cons s strings ih =>
    cases values with
    | nil =>
      rw [compose, ih]
      simp
    | cons v values =>
      rw [compose, ih, params_interpolate]
      simp

/-- The values behind the last literal piece are not read. -/
theorem compose_take (strings : List Text) (values : List (Interpolated V))
    (acc : SqlFragment V) :
    compose strings (values.take strings.length) acc = compose strings values acc := by
  induction strings generalizing values acc with
  | nil => simp [compose]
  | cons s strings ih =>
    cases values with
    | nil => rfl
    | cons v values =>
      rw [List.length_cons, List.take_succ_cons, compose, compose, ih]

/-- The loop passes plain values on. -/
theorem map_compose (g : V → W) (strings : List Text) (values : List V) (acc : SqlFragment V) :
    (compose strings (values.map .value) acc).map g =
      compose strings ((values.map g).map .value) (acc.map g) := by
  induction strings generalizing values acc with
  | nil => rfl
  | cons s strings ih =>
    cases values with
    | nil =>
      have htail := ih [] { acc with sql := acc.sql ++ s }
      exact htail
    | cons v values =>
      simp only [List.map_cons, compose]
      rw [ih]
      congr 1
      simp [interpolate, SqlFragment.map]

/-! ## The two templates -/

/-- Values without a fragment are plain ones. -/
theorem exists_map_value {values : List (Interpolated V)}
    (h : ∀ v ∈ values, v.isFragment = false) : ∃ plain : List V, values = plain.map .value := by
  induction values with
  | nil => exact ⟨[], rfl⟩
  | cons v values ih =>
    obtain ⟨plain, rfl⟩ := ih fun w hw => h w (List.mem_cons_of_mem _ hw)
    have hhead := h v List.mem_cons_self
    cases v with
    | value v => exact ⟨v :: plain, rfl⟩
    | fragment f => cases hhead

theorem isFragment_of_mem_map_value {plain : List V} {v : Interpolated V}
    (h : v ∈ plain.map .value) : v.isFragment = false := by
  obtain ⟨w, -, rfl⟩ := List.mem_map.1 h
  rfl

/-- **The sudo template is the `sql` template without its injection exactly on plain values.** -/
theorem sudo_eq_sql_iff (strings : List Text) (values : List (Interpolated V)) :
    ((SudoBuilder.sql strings values).text = trim (compose strings values ⟨[], []⟩).sql ∧
        (SudoBuilder.sql strings values).params =
          (compose strings values ⟨[], []⟩).params.map .value) ↔
      ∀ v ∈ values.take strings.length, v.isFragment = false := by
  constructor
  · rintro ⟨-, hparams⟩
    -- what the builder pushes are the values themselves
    have hsudo : (SudoBuilder.sql strings values).params = values.take strings.length := by
      show (compose strings (values.map .value) ⟨[], []⟩).params = _
      rw [params_compose, List.nil_append, ← List.map_take, List.flatMap_map]
      exact List.flatMap_singleton' _
    rw [hsudo] at hparams
    intro v hv
    rw [hparams] at hv
    exact isFragment_of_mem_map_value hv
  · intro hplain
    obtain ⟨plain, htake⟩ := exists_map_value hplain
    have hsql : compose strings values ⟨[], []⟩ = compose strings (plain.map .value) ⟨[], []⟩ := by
      rw [← compose_take, htake]
    have hsudo : compose strings (values.map .value) ⟨[], []⟩ =
        (compose strings (plain.map .value) ⟨[], []⟩).map Interpolated.value := by
      rw [map_compose, ← htake, List.map_take]
      have htake' := compose_take strings (values.map Interpolated.value) ⟨[], []⟩
      exact htake'.symm
    show trim (compose strings (values.map .value) ⟨[], []⟩).sql = _ ∧
      (compose strings (values.map .value) ⟨[], []⟩).params = _
    rw [hsudo, hsql]
    exact ⟨rfl, rfl⟩

/-- `` sql.fragment`status = ${'active'}` `` -/
def statusFragment : SqlFragment String :=
  SqlFragment.template ["status = ".toList, []] [.value "active"]

/-- The fragment becomes a parameter. -/
theorem sudo_fragment_differs :
    let strings := ["SELECT * FROM users WHERE ".toList, []]
    let values := [.fragment statusFragment]
    (SudoBuilder.sql strings values).text = "SELECT * FROM users WHERE $1".toList ∧
      trim (compose strings values ⟨[], []⟩).sql =
        "SELECT * FROM users WHERE status = $1".toList ∧
      (compose strings values ⟨[], []⟩).params = ["active"] ∧
      (SudoBuilder.sql strings values).params ≠
        (compose strings values ⟨[], []⟩).params.map .value := by
  refine ⟨by decide, by decide, by decide, ?_⟩
  intro h
  cases h

end Intellibiz.Db
