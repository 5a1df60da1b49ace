import Intellibiz.Finance.Tax
import Intellibiz.Rules.Engine

/-!
# The rates of the two engines

`vatBasisPoints` and `resolveRateBP` have the same table; the first takes a country as it is written
and any VAT id, the second the upper case of the country and a VAT id that is not empty.

* `RuleContext.rate` — the rate of the pipeline, zero if the country has none.
* `SameRate` — the countries and VAT ids of which the two make the same.

Principal results: `resolveRateBP_eq` (the second rate in terms of the first table) and
`rates_agree_iff`.
-/

namespace Intellibiz.Rules

open Finance

/-- The rate that applies, in basis points. -/
def RuleContext.rate (ctx : RuleContext) : UInt32 :=
  (vatBasisPoints ctx.country ctx.vatId).getD 0

/-- The countries with a rate. -/
def COUNTRIES : List String := VAT_BASIS_POINTS.map Prod.fst

/-- The country is one of the table, or its upper case is none, or it has no rate either way; and
there is no empty VAT id for a country of the EU. -/
def SameRate (country : String) (vatId : Option String) : Prop :=
  (country ∈ COUNTRIES ∨ upperCase country ∉ COUNTRIES ∨
      (upperCase country ∈ EU_COUNTRIES ∧ vatId.getD "" ≠ "")) ∧
    ¬ (country ∈ EU_COUNTRIES ∧ vatId = some "")

section Tables

variable {country : String} {vatId : Option String}

theorem lookup_map_snd {α β γ : Type} [BEq α] (f : β → γ) (table : List (α × β)) (key : α) :
    (table.map fun entry => (entry.1, f entry.2)).lookup key = (table.lookup key).map f := by
  induction table with
  | nil => rfl
  | cons entry table ih =>
    obtain ⟨name, rate⟩ := entry
    rw [List.map_cons, List.lookup_cons, List.lookup_cons, ih]
    cases key == name <;> rfl

/-- The two tables of one engine are the table of the other. -/
theorem tables_eq : VAT_BASIS_POINTS.map (fun entry => (entry.1, (entry.2.toNat : ℤ))) =
    EU_VAT_BP ++ OTHER_RATES_BP := by
  decide

theorem members_eq : EU_MEMBERS = EU_COUNTRIES := rfl

theorem upperCase_of_mem (h : country ∈ COUNTRIES) : upperCase country = country := by
  have hall : ∀ name ∈ COUNTRIES, upperCase name = name := by decide
  exact hall country h

theorem mem_of_isEu (h : country ∈ EU_COUNTRIES) : country ∈ COUNTRIES := by
  have hall : ∀ name ∈ EU_COUNTRIES, name ∈ COUNTRIES := by decide
  exact hall country h

theorem lookup_eq_none_of_not_mem (h : country ∉ COUNTRIES) :
    VAT_BASIS_POINTS.lookup country = none := by
  rw [List.lookup_eq_none_iff]
  rintro ⟨name, bp⟩ hmem
  have hne : country ≠ name := by
    rintro rfl
    exact h (List.mem_map_of_mem hmem)
  simpa using hne

/-- A listed rate is not zero. -/
theorem lookup_ne_zero (h : country ∈ COUNTRIES) :
    ∃ bp, VAT_BASIS_POINTS.lookup country = some bp ∧ (bp.toNat : ℤ) ≠ 0 := by
  obtain ⟨⟨name, rate⟩, hmem, rfl⟩ := List.mem_map.1 h
  cases hlookup : VAT_BASIS_POINTS.lookup name with
  | none =>
    have hne := List.lookup_eq_none_iff.1 hlookup _ hmem
    simp at hne
  | some bp =>
    obtain ⟨before, after, heq, -⟩ := List.lookup_eq_some_iff.1 hlookup
    have hentry : (name, bp) ∈ VAT_BASIS_POINTS := by simp [heq]
    obtain ⟨-, hpos, -⟩ := rates_spec _ hentry
    exact ⟨bp, rfl, by simpa using hpos.ne'⟩

/-- **The rate of a destination**, by the table of the pipeline. -/
theorem resolveRateBP_eq (country : String) (vatId : Option String) :
    resolveRateBP ⟨country, vatId⟩ =
      if vatId.getD "" ≠ "" ∧ upperCase country ∈ EU_COUNTRIES then 0
      else ((VAT_BASIS_POINTS.lookup (upperCase country)).map
        fun bp => (bp.toNat : ℤ)).getD 0 := by
  unfold resolveRateBP
  rw [← lookup_map_snd, tables_eq, List.lookup_append, members_eq]

theorem rate_eq (ctx : RuleContext) : (ctx.rate.toNat : ℤ) =
    if ctx.vatId.isSome ∧ ctx.country ∈ EU_COUNTRIES then 0
    else ((VAT_BASIS_POINTS.lookup ctx.country).map fun bp => (bp.toNat : ℤ)).getD 0 := by
  unfold RuleContext.rate vatBasisPoints isEu
  by_cases h : ctx.vatId.isSome ∧ ctx.country ∈ EU_COUNTRIES
  · simp [h]
  · rw [if_neg h, if_neg (by simpa using h)]
    cases VAT_BASIS_POINTS.lookup ctx.country <;> rfl

/-- A country of the table is written in upper case. -/
theorem rates_agree_of_mem (ctx : RuleContext) (h : ctx.country ∈ COUNTRIES) :
    (ctx.rate.toNat : ℤ) = resolveRateBP ⟨ctx.country, ctx.vatId⟩ ↔
      ¬ (ctx.country ∈ EU_COUNTRIES ∧ ctx.vatId = some "") := by
  rw [rate_eq, resolveRateBP_eq, upperCase_of_mem h]
  obtain ⟨bp, hlookup, hne⟩ := lookup_ne_zero h
  rw [hlookup]
  by_cases heu : ctx.country ∈ EU_COUNTRIES
  · cases hid : ctx.vatId with
    | none => simp
    | some vatId =>
      by_cases hempty : vatId = ""
      · simpa [heu, hempty] using hne.symm
      · simp [heu, hempty]
  · simp [heu]

/-- For any other country the pipeline has no rate. -/
theorem rates_agree_of_not_mem (ctx : RuleContext) (h : ctx.country ∉ COUNTRIES) :
    (ctx.rate.toNat : ℤ) = resolveRateBP ⟨ctx.country, ctx.vatId⟩ ↔
      upperCase ctx.country ∉ COUNTRIES ∨
        (upperCase ctx.country ∈ EU_COUNTRIES ∧ ctx.vatId.getD "" ≠ "") := by
  have heu : ctx.country ∉ EU_COUNTRIES := fun hmem => h (mem_of_isEu hmem)
  rw [rate_eq, resolveRateBP_eq, lookup_eq_none_of_not_mem h,
    if_neg (fun hboth => heu hboth.2)]
  by_cases hupper : upperCase ctx.country ∈ COUNTRIES
  · obtain ⟨bp, hlookup, hne⟩ := lookup_ne_zero hupper
    rw [hlookup]
    by_cases hcharge : ctx.vatId.getD "" ≠ "" ∧ upperCase ctx.country ∈ EU_COUNTRIES
    · simp [hcharge]
    · rw [if_neg hcharge]
      refine iff_of_false hne.symm ?_
      rintro (hnot | hboth)
      · exact hnot hupper
      · exact hcharge hboth.symm
  · refine iff_of_true ?_ (.inl hupper)
    rw [lookup_eq_none_of_not_mem hupper]
    split <;> rfl

/-- **When the two engines have the same rate**, for any cart that is sent to the country of the
context. -/
theorem rates_agree_iff (ctx : RuleContext) (items : List Item) :
    (ctx.rate.toNat : ℤ) = taxRateBP ⟨items, none, some ⟨ctx.country, ctx.vatId⟩⟩ ↔
      SameRate ctx.country ctx.vatId := by
  have hrate : taxRateBP ⟨items, none, some ⟨ctx.country, ctx.vatId⟩⟩ =
      resolveRateBP ⟨ctx.country, ctx.vatId⟩ := rfl
  rw [hrate]
  unfold SameRate
  by_cases h : ctx.country ∈ COUNTRIES
  · rw [rates_agree_of_mem ctx h]
    exact (and_iff_right (.inl h)).symm
  · have heu : ¬ (ctx.country ∈ EU_COUNTRIES ∧ ctx.vatId = some "") :=
      fun hboth => h (mem_of_isEu hboth.1)
    rw [rates_agree_of_not_mem ctx h, and_iff_left heu, or_iff_right h]

/-- A country in lower case has the rate of Germany in a cart only; with an empty VAT id, Germany
has. -/
theorem rates_differ :
    ((RuleContext.rate ⟨"t-1", "owner", "1.00", "EUR", "de", none, none⟩).toNat : ℤ) ≠
        taxRateBP ⟨[], none, some ⟨"de", none⟩⟩ ∧
      ((RuleContext.rate ⟨"t-1", "owner", "1.00", "EUR", "DE", none, some ""⟩).toNat : ℤ) ≠
        taxRateBP ⟨[], none, some ⟨"DE", some ""⟩⟩ := by
  decide

end Tables

end Intellibiz.Rules
