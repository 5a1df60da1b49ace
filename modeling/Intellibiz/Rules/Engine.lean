import Intellibiz.Decimals

/-!
# The rule engine

Model of `crates/rule-engine/src/lib.rs`.  `rust_decimal` is a parameter; a result of none is a
panic.

* `vatBasisPoints` — the rate of a country.
* `TenantIsolationRule`, `PermissionScopeRule`, `VatRule`, `FraudSignalRule` — the rules, each from
  one state of the pipeline to the next.
* `evaluate` — the pipeline.
* `exactTax`, `cents` — the product of amount and rate, and what the rule makes of it.

Principal results: `evaluate_untaxed` and `evaluate_taxed` (the results of the pipeline).
-/

namespace Intellibiz.Rules

open FixedPoint Numeral Rounding

/-- `rust_decimal::Decimal`: 96 bits and at most 28 decimals. -/
abbrev RustDecimal := Arithmetic (2 ^ 96) 28

/-- Such decimals, to run the rules with. -/
def decimals : RustDecimal := Arithmetic.reference (2 ^ 96) 28

inductive RuleError where
  | invalidAmount (amount : String)
  | invalidRuleOutput (rule : String)
  deriving DecidableEq, Repr

def RuleError.message : RuleError → String
  | .invalidAmount amount => s!"invalid decimal amount: '{amount}'"
  | .invalidRuleOutput rule => s!"rule '{rule}' produced an invalid output"

structure RuleContext where
  tenantId : String
  userRole : String
  amount : String
  currency : String
  country : String
  region : Option String
  vatId : Option String
  deriving DecidableEq, Repr

structure RuleResult where
  passed : Bool
  appliedRules : List String
  adjustedAmount : String
  taxAmount : String
  discountAmount : String
  deriving DecidableEq, Repr

/-! ## Rates -/

/-- The table of `vat_basis_points`. -/
def VAT_BASIS_POINTS : List (String × UInt32) :=
  [("AT", 2000), ("BE", 2100), ("BG", 2000), ("HR", 2500), ("CY", 1900), ("CZ", 2100),
    ("DK", 2500), ("EE", 2000), ("FI", 2400), ("FR", 2000), ("DE", 1900), ("GR", 2400),
    ("HU", 2700), ("IE", 2300), ("IT", 2200), ("LV", 2100), ("LT", 2100), ("LU", 1700),
    ("MT", 1800), ("NL", 2100), ("PL", 2300), ("PT", 2300), ("RO", 1900), ("SK", 2000),
    ("SI", 2200), ("ES", 2100), ("SE", 2500), ("GB", 2000), ("ZA", 1500), ("AU", 1000),
    ("NZ", 1500), ("SG", 900), ("CA", 500)]

def EU_COUNTRIES : List String :=
  ["AT", "BE", "BG", "HR", "CY", "CZ", "DK", "EE", "FI", "FR", "DE", "GR", "HU", "IE", "IT", "LV",
    "LT", "LU", "MT", "NL", "PL", "PT", "RO", "SK", "SI", "ES", "SE"]

def isEu (country : String) : Bool := country ∈ EU_COUNTRIES

/-- Reverse charge for a VAT id in the EU, whatever the id. -/
def vatBasisPoints (country : String) (vatId : Option String) : Option UInt32 :=
  if vatId.isSome && isEu country then some 0 else VAT_BASIS_POINTS.lookup country

/-- The rates are whole percents. -/
theorem rates_spec : ∀ entry ∈ VAT_BASIS_POINTS,
    100 ∣ entry.2.toNat ∧ 0 < entry.2.toNat ∧ entry.2.toNat ≤ 2700 := by
  decide

theorem vatBasisPoints_spec {country : String} {vatId : Option String} {bp : UInt32}
    (h : vatBasisPoints country vatId = some bp) (hbp : bp ≠ 0) :
    100 ∣ bp.toNat ∧ bp.toNat ≤ 2700 := by
  unfold vatBasisPoints at h
  split at h
  · cases h
    exact absurd rfl hbp
  · obtain ⟨before, after, heq, -⟩ := List.lookup_eq_some_iff.1 h
    have hmem : (country, bp) ∈ VAT_BASIS_POINTS := by simp [heq]
    obtain ⟨hdvd, -, hle⟩ := rates_spec _ hmem
    exact ⟨hdvd, hle⟩

/-! ## The rules -/

section Rules

variable (R : RustDecimal)

structure PipelineState where
  amount : R.Decimal
  tax : R.Decimal
  discount : R.Decimal
  applied : List String
  passed : Bool

/-- `Decimal::from(u32)` -/
def ofU32 (x : UInt32) : R.Decimal :=
  R.ofInt x.toNat (by
    have hlt := x.toNat_lt
    rw [Nat.abs_cast]
    omega)

/-- `Decimal::ZERO` -/
def zero : R.Decimal := ofU32 R 0

def PipelineState.new (amount : R.Decimal) : PipelineState R :=
  ⟨amount, zero R, zero R, [], true⟩

variable {R} in
/-- `state.applied.push(..)` -/
def PipelineState.push (s : PipelineState R) (note : String) : PipelineState R :=
  { s with applied := s.applied ++ [note] }

/-- What a rule does: the next state, an error, or a panic. -/
abbrev Outcome (α : Type) := Option (Except RuleError α)

abbrev Rule := RuleContext → PipelineState R → Outcome (PipelineState R)

def VatRule.evaluate : Rule R := fun ctx state =>
  match vatBasisPoints ctx.country ctx.vatId with
  | none => some (.ok state)
  | some bp =>
    if bp = 0 then some (.ok (state.push s!"vat:{ctx.country}:reverse-charge"))
    else (do
      let rate ← R.div (ofU32 R bp) (ofU32 R 10000)
      let tax ← R.mul state.amount rate
      let taxRounded := R.roundDp 2 tax
      let newTax ← R.add state.tax taxRounded
      let newAmount ← R.add state.amount taxRounded
      let percent ← R.div (ofU32 R bp) (ofU32 R 100)
      return .ok (PipelineState.push { state with tax := newTax, amount := newAmount }
        s!"vat:{ctx.country}:{R.format 0 percent}%") : Option (Except RuleError (PipelineState R)))

def TenantIsolationRule.evaluate : Rule R := fun ctx state =>
  if ctx.tenantId = "" then
    some (.ok (PipelineState.push { state with passed := false }
      "tenant-isolation:FAILED:no-tenant-id"))
  else some (.ok (state.push "tenant-isolation:PASSED"))

def ALLOWED_ROLES : List String := ["owner", "admin", "member", "billing"]

def PermissionScopeRule.evaluate : Rule R := fun ctx state =>
  if ctx.userRole ∈ ALLOWED_ROLES then
    some (.ok (state.push s!"permission-scope:PASSED:{ctx.userRole}"))
  else
    some (.ok (PipelineState.push { state with passed := false }
      s!"permission-scope:FAILED:unknown-role:{ctx.userRole}"))

def FRAUD_REVIEW_THRESHOLD : String := "5000.00"

def FraudSignalRule.evaluate : Rule R := fun _ctx state =>
  match R.fromStr FRAUD_REVIEW_THRESHOLD with
  | none => some (.error (.invalidRuleOutput "fraud-signal:threshold"))
  | some threshold =>
    if R.value threshold ≤ R.value state.amount then
      some (.ok (state.push s!"fraud-signal:REVIEW:amount-exceeds-{FRAUD_REVIEW_THRESHOLD}"))
    else some (.ok (state.push "fraud-signal:PASSED"))

/-! ## The pipeline -/

def pipeline : List (Rule R) :=
  [TenantIsolationRule.evaluate R, PermissionScopeRule.evaluate R, VatRule.evaluate R,
    FraudSignalRule.evaluate R]

variable {R} in
/-- The loop over the rules; an error ends it. -/
def runRules (ctx : RuleContext) : List (Rule R) → PipelineState R → Outcome (PipelineState R)
  | [], state => some (.ok state)
  | rule :: rules, state =>
    match rule ctx state with
    | some (.ok state) => runRules ctx rules state
    | some (.error e) => some (.error e)
    | none => none

def evaluate (ctx : RuleContext) : Outcome RuleResult :=
  match R.fromStr ctx.amount with
  | none => some (.error (.invalidAmount ctx.amount))
  | some amount =>
    match runRules ctx (pipeline R) (.new R amount) with
    | some (.ok state) =>
      some (.ok {
        passed := state.passed
        appliedRules := state.applied
        adjustedAmount := R.toText state.amount
        taxAmount := R.toText state.tax
        discountAmount := R.toText state.discount })
    | some (.error e) => some (.error e)
    | none => none

end Rules

/-! ## Its results -/

/-- The tenant is given and the role is one of the list. -/
def RuleContext.passes (ctx : RuleContext) : Bool :=
  decide (ctx.tenantId ≠ "") && decide (ctx.userRole ∈ ALLOWED_ROLES)

/-- The exact tax of an amount. -/
def exactTax (amount : ℚ) (bp : UInt32) : ℚ := amount * (bp.toNat / 10000)

/-- The exact tax with the decimals that fit. -/
def keptTax (x : ℚ) : ℚ :=
  halfEven (x * 10 ^ kept halfEven (2 ^ 96) 28 x) / 10 ^ kept halfEven (2 ^ 96) 28 x

/-- The tax of the rule in hundredths. -/
def cents (x : ℚ) : ℤ := halfEven (keptTax x * 100)

section Results

variable {R : RustDecimal} {ctx : RuleContext} {d : R.Decimal} {bp : UInt32}

@[simp] theorem value_ofU32 (x : UInt32) : R.value (ofU32 R x) = x.toNat := by
  rw [ofU32, R.value_ofInt, Int.cast_natCast]

@[simp] theorem value_zero : R.value (zero R) = 0 := by
  rw [zero, value_ofU32]
  rfl

theorem abs_value_lt (d : R.Decimal) : |R.value d| < 2 ^ 96 := by
  obtain ⟨n, p, -, hvalue, hn⟩ := R.fits d
  have hpow : (1 : ℚ) ≤ 10 ^ p := one_le_pow₀ (by norm_num)
  rw [hvalue, abs_div, abs_of_pos (by positivity : (0 : ℚ) < 10 ^ p)]
  calc |(n : ℚ)| / 10 ^ p ≤ |(n : ℚ)| := div_le_self (abs_nonneg _) hpow
    _ = ((|n| : ℤ) : ℚ) := by push_cast; rfl
    _ < ((2 ^ 96 : ℕ) : ℤ) := Int.cast_lt.2 hn
    _ = 2 ^ 96 := by norm_num

/-- A quotient of basis points by a power of ten. -/
theorem div_spec (bp : UInt32) {p : ℕ} {x : UInt32} (hp : p ≤ 28) (hx : (x.toNat : ℚ) = 10 ^ p) :
    ∃ rate, R.div (ofU32 R bp) (ofU32 R x) = some rate ∧ R.value rate = bp.toNat / 10 ^ p := by
  have hlt := bp.toNat_lt
  have hvalue : R.value (ofU32 R x) = 10 ^ p := by rw [value_ofU32, hx]
  have hfits : Fits (2 ^ 96) 28 (R.value (ofU32 R bp) / R.value (ofU32 R x)) := by
    refine ⟨bp.toNat, p, hp, ?_, ?_⟩
    · rw [hvalue, value_ofU32, Int.cast_natCast]
    · rw [Nat.abs_cast]
      omega
  obtain ⟨rate, hrate, hquotient⟩ := Arithmetic.exists_div (by rw [hvalue]; positivity) hfits
  exact ⟨rate, hrate, by rw [hquotient, hvalue, value_ofU32]⟩

/-- The product of an amount and a rate below one does not overflow. -/
theorem hold_exactTax (d : R.Decimal) (hle : bp.toNat ≤ 2700) :
    hold halfEven (2 ^ 96) 28 (exactTax (R.value d) bp) =
      some (keptTax (exactTax (R.value d) bp)) := by
  have hrate : (bp.toNat : ℚ) / 10000 ≤ 1 / 2 := by
    have hcast : (bp.toNat : ℚ) ≤ 2700 := by exact_mod_cast hle
    linarith
  have hsmall : |exactTax (R.value d) bp| ≤ 2 ^ 96 / 2 := by
    have hlt := abs_value_lt d
    rw [exactTax, abs_mul, abs_of_nonneg (by positivity : (0 : ℚ) ≤ bp.toNat / 10000)]
    nlinarith [abs_nonneg (R.value d)]
  cases h : hold halfEven (2 ^ 96) 28 (exactTax (R.value d) bp) with
  | none =>
    -- the integral part would have 96 bits
    have hlarge : (((2 ^ 96 : ℕ) : ℤ) : ℚ) ≤ ((|halfEven (exactTax (R.value d) bp)| : ℤ) : ℚ) :=
      Int.cast_le.2 (le_of_hold_eq_none h)
    have hround := abs_round_le abs_sub_halfEven_le (exactTax (R.value d) bp)
    push_cast at hlarge
    linarith
  | some z =>
    rw [hold_eq_kept] at h
    split at h
    · exact h.symm
    · cases h

/-! ### The rules that judge -/

theorem tenantIsolation_spec (ctx : RuleContext) (state : PipelineState R) :
    ∃ applied, TenantIsolationRule.evaluate R ctx state = some (.ok { state with
      applied, passed := state.passed && decide (ctx.tenantId ≠ "") }) := by
  unfold TenantIsolationRule.evaluate PipelineState.push
  by_cases h : ctx.tenantId = "" <;> simp [h]

theorem permissionScope_spec (ctx : RuleContext) (state : PipelineState R) :
    ∃ applied, PermissionScopeRule.evaluate R ctx state = some (.ok { state with
      applied, passed := state.passed && decide (ctx.userRole ∈ ALLOWED_ROLES) }) := by
  unfold PermissionScopeRule.evaluate PipelineState.push
  by_cases h : ctx.userRole ∈ ALLOWED_ROLES <;> simp [h]

/-- The threshold is a decimal, so the rule has no error. -/
theorem fraudSignal_spec (ctx : RuleContext) (state : PipelineState R) :
    ∃ applied, FraudSignalRule.evaluate R ctx state = some (.ok { state with applied }) := by
  have hvalue : value? FRAUD_REVIEW_THRESHOLD = some 5000 := by decide +kernel
  have hfits : Fits (2 ^ 96) 28 (5000 : ℚ) := by
    have hint := Fits.int (P := 28) (show |(5000 : ℤ)| < ((2 ^ 96 : ℕ) : ℤ) by norm_num)
    exact_mod_cast hint
  obtain ⟨threshold, hthreshold, -⟩ := R.exists_fromStr hvalue hfits
  unfold FraudSignalRule.evaluate PipelineState.push
  simp only [hthreshold]
  split <;> exact ⟨_, rfl⟩

/-! ### The VAT rule -/

theorem vat_untaxed (h : vatBasisPoints ctx.country ctx.vatId = none ∨
    vatBasisPoints ctx.country ctx.vatId = some 0) (state : PipelineState R) :
    ∃ applied, VatRule.evaluate R ctx state = some (.ok { state with applied }) := by
  unfold VatRule.evaluate PipelineState.push
  rcases h with h | h
  · simp only [h]
    exact ⟨_, rfl⟩
  · simp only [h, if_true]
    exact ⟨_, rfl⟩

/-- The product, kept to the decimals that fit and rounded to hundredths, is added to the tax and to
the amount. -/
theorem vat_taxed (h : vatBasisPoints ctx.country ctx.vatId = some bp) (hbp : bp ≠ 0)
    (state : PipelineState R) (htax : R.value state.tax = 0) :
    ∃ rounded, R.value rounded = cents (exactTax (R.value state.amount) bp) / 100 ∧
      ((R.add state.amount rounded = none ∧ VatRule.evaluate R ctx state = none) ∨
        ∃ amount tax, R.add state.amount rounded = some amount ∧ R.value tax = R.value rounded ∧
          VatRule.evaluate R ctx state = some (.ok { state with
            amount, tax, applied := state.applied ++
              [s!"vat:{ctx.country}:{fixed 0 (bp.toNat / 100)}%"] })) := by
  obtain ⟨hdvd, hle⟩ := vatBasisPoints_spec h hbp
  obtain ⟨rate, hrate, hratevalue⟩ :=
    div_spec (R := R) bp (show 4 ≤ 28 by omega) (by
      have hnat : (10000 : UInt32).toNat = 10000 := rfl
      rw [hnat]
      norm_num)
  obtain ⟨percent, hpercent, hpercentvalue⟩ :=
    div_spec (R := R) bp (show 2 ≤ 28 by omega) (by
      have hnat : (100 : UInt32).toNat = 100 := rfl
      rw [hnat]
      norm_num)
  -- the rate is a whole number of percents
  have hlabel : R.format 0 percent = fixed 0 (bp.toNat / 100) := by
    apply R.format_eq
    obtain ⟨n, hn⟩ := hdvd
    have hdiv : ((100 * n : ℕ) : ℤ) / 100 = n := by omega
    rw [hpercentvalue, hn, hdiv, Nat.cast_mul, Int.cast_natCast]
    norm_num
  have hproduct : R.value state.amount * R.value rate = exactTax (R.value state.amount) bp := by
    rw [hratevalue, exactTax]
    norm_num
  obtain ⟨product, hmul, hmulvalue⟩ := Arithmetic.exists_mul (a := state.amount) (b := rate)
    (by rw [hproduct]; exact hold_exactTax state.amount hle)
  have hrounded : R.value (R.roundDp 2 product) =
      cents (exactTax (R.value state.amount) bp) / 100 := by
    rw [R.roundDp_eq, hmulvalue, cents]
    norm_num
  obtain ⟨tax, hadd, htaxvalue⟩ := (Arithmetic.add_eq_some_iff (a := state.tax)
    (b := R.roundDp 2 product)).2 (by rw [htax, zero_add]; exact R.fits _)
  rw [htax, zero_add] at htaxvalue
  refine ⟨R.roundDp 2 product, hrounded, ?_⟩
  cases hamount : R.add state.amount (R.roundDp 2 product) with
  | none =>
    left
    refine ⟨rfl, ?_⟩
    unfold VatRule.evaluate
    simp [h, hbp, hrate, hmul, hadd, hamount]
  | some amount =>
    right
    refine ⟨amount, tax, rfl, htaxvalue, ?_⟩
    unfold VatRule.evaluate
    simp [h, hbp, hrate, hmul, hadd, hamount, hpercent, hlabel, PipelineState.push]

/-! ### The pipeline -/

/-- The pipeline is the VAT rule, on the parsed amount. -/
theorem evaluate_eq (hd : R.fromStr ctx.amount = some d) :
    ∃ state : PipelineState R, state.amount = d ∧ state.tax = zero R ∧
      (VatRule.evaluate R ctx state = none → evaluate R ctx = none) ∧
      ∀ amount tax applied,
        VatRule.evaluate R ctx state = some (.ok { state with amount, tax, applied }) →
        ∃ applied, evaluate R ctx = some (.ok
          ⟨ctx.passes, applied, R.toText amount, R.toText tax, R.toText (zero R)⟩) := by
  obtain ⟨tenantNotes, htenant⟩ := tenantIsolation_spec ctx (.new R d)
  obtain ⟨notes, hpermission⟩ := permissionScope_spec ctx
    (⟨d, zero R, zero R, tenantNotes, decide (ctx.tenantId ≠ "")⟩ : PipelineState R)
  have hjudged : runRules ctx (pipeline R) (.new R d) =
      runRules ctx [VatRule.evaluate R, FraudSignalRule.evaluate R]
        ⟨d, zero R, zero R, notes, ctx.passes⟩ := by
    rw [pipeline, runRules, htenant]
    simp only [PipelineState.new, Bool.true_and]
    rw [runRules, hpermission]
    rfl
  refine ⟨⟨d, zero R, zero R, notes, ctx.passes⟩, rfl, rfl, ?_, ?_⟩
  · intro hvat
    simp only [evaluate, hd, hjudged, runRules, hvat]
  · intro amount tax applied hvat
    obtain ⟨all, hfraud⟩ := fraudSignal_spec ctx
      (⟨amount, tax, zero R, applied, ctx.passes⟩ : PipelineState R)
    refine ⟨all, ?_⟩
    simp only [evaluate, hd, hjudged, runRules, hvat, hfraud]

theorem evaluate_invalid (h : R.fromStr ctx.amount = none) :
    evaluate R ctx = some (.error (.invalidAmount ctx.amount)) := by
  simp only [evaluate, h]

/-- **Without a rate the amount is returned.** -/
theorem evaluate_untaxed (hd : R.fromStr ctx.amount = some d)
    (h : vatBasisPoints ctx.country ctx.vatId = none ∨
      vatBasisPoints ctx.country ctx.vatId = some 0) :
    ∃ applied, evaluate R ctx = some (.ok
      ⟨ctx.passes, applied, R.toText d, R.toText (zero R), R.toText (zero R)⟩) := by
  obtain ⟨state, hamount, htax, -, hok⟩ := evaluate_eq hd
  obtain ⟨applied, hvat⟩ := vat_untaxed h state
  have hresult := hok _ _ _ hvat
  rwa [hamount, htax] at hresult

/-- **With a rate the rounded tax is added**, if the sum does not overflow. -/
theorem evaluate_taxed (hd : R.fromStr ctx.amount = some d)
    (h : vatBasisPoints ctx.country ctx.vatId = some bp) (hbp : bp ≠ 0) :
    ∃ rounded, R.value rounded = cents (exactTax (R.value d) bp) / 100 ∧
      ((R.add d rounded = none ∧ evaluate R ctx = none) ∨
        ∃ amount tax applied, R.add d rounded = some amount ∧ R.value tax = R.value rounded ∧
          evaluate R ctx = some (.ok
            ⟨ctx.passes, applied, R.toText amount, R.toText tax, R.toText (zero R)⟩)) := by
  obtain ⟨state, hamount, htax, hnone, hok⟩ := evaluate_eq hd
  obtain ⟨rounded, hrounded, hvat⟩ := vat_taxed h hbp state (by rw [htax, value_zero])
  rw [hamount] at hrounded hvat
  refine ⟨rounded, hrounded, ?_⟩
  rcases hvat with ⟨hadd, hvat⟩ | ⟨amount, tax, hadd, hvalue, hvat⟩
  · exact .inl ⟨hadd, hnone hvat⟩
  · obtain ⟨applied, hresult⟩ := hok _ _ _ hvat
    exact .inr ⟨amount, tax, applied, hadd, hvalue, hresult⟩

end Results

end Intellibiz.Rules
