import Intellibiz.Cli.Scaffold
import Intellibiz.Core.Config
import Intellibiz.ObjectLiteral

/-!
# Boot of scaffolded projects

When the configuration that `scaffoldProject` writes passes `defineConfig`.

* `configLiteral` — the object literal between the parentheses of the generated file.
* `Boots` — the file is read as a literal, and its value passes both passes.
* `BootCondition` — what has been asked for, and the secret in the environment.

Principal results: `buildConfigSource_eq` (the file is the layout of the literal),
`boots_iff_passes` and `scaffoldProject_boots_iff`.
-/

namespace Intellibiz.Cli

open Intellibiz.Core (Env Passes IntellibizConfigSchema TenancySchema AuthSchema FinanceSchema
  CommerceSchema EnvironmentSchema)
open Db (Text)
open ObjectLiteral (Expr)
open Schema (Value)

/-! ## The literal -/

def modulesLiteral (modules : List ModuleName) : Expr := .arr (modules.map fun m => .str m.text)

def tenancyLiteral : Expr :=
  .obj [("strategy", .str "column"), ("key", .str "org_id"), ("type", .str "uuid"),
    ("strict", .bool true)]

def authLiteral : Expr :=
  .obj [("provider", .str "internal"),
    ("jwtSecret", .env "JWT_SECRET" "dev-only-secret-change-me")]

def financeLiteral : Expr := .obj [("baseCurrency", .str "USD"), ("rounding", .str "bankers")]

def commerceLiteral : Expr :=
  .obj [("ledger", .obj [("mode", .str "atomic")]), ("invoicing", .str "auto"),
    ("webhookDedup", .obj [("provider", .str "memory"), ("ttlHours", .num 24)])]

def environmentLiteral : Expr := .obj [("trace", .bool true), ("logLevel", .str "info")]

/-- The sections in front of the last one. -/
def leadingSections (modules : List ModuleName) : List (String × Expr) :=
  [("modules", modulesLiteral modules), ("tenancy", tenancyLiteral)] ++
    (if .identity ∈ modules then [("auth", authLiteral)] else []) ++
    (if .finance ∈ modules then [("finance", financeLiteral)] else []) ++
    (if .commerce ∈ modules then [("commerce", commerceLiteral)] else [])

def sections (modules : List ModuleName) : List (String × Expr) :=
  leadingSections modules ++ [("environment", environmentLiteral)]

def configLiteral (options : ResolvedScaffoldOptions) : Expr := .obj (sections options.modules)

/-! ## The text -/

/-- A section on lines of its own. -/
def block (f : String × Expr) : Text := '\t' :: (f.1.toList ++ ':' :: ' ' :: f.2.text 1)

theorem fieldsText_block (fields : List (String × Expr)) (last : String × Expr) :
    ObjectLiteral.fieldsText (fields ++ [last]) 0 =
      '\n' :: List.intercalate ['\n'] ((fields.map fun f => block f ++ [',']) ++ [block last]) := by
  induction fields with
  | nil =>
    rw [List.nil_append, List.map_nil, List.nil_append, List.intercalate_singleton]
    rfl
  | cons f fields ih =>
    have hne : (fields.map fun g => block g ++ [',']) ++ [block last] ≠ [] := by simp
    obtain ⟨g, rest, hcons⟩ := List.exists_cons_of_ne_nil
      (show fields ++ [last] ≠ [] by simp)
    rw [List.cons_append, hcons, List.map_cons, List.cons_append,
      List.intercalate_cons_of_ne_nil hne]
    rw [hcons] at ih
    rw [ObjectLiteral.fieldsText, ih]
    simp only [block, ObjectLiteral.gap, List.append_assoc, List.cons_append, List.nil_append]
    rfl

theorem modulesBlock_eq (modules : List ModuleName) :
    modulesBlock modules = block ("modules", modulesLiteral modules) ++ [','] := by
  have hquote : "'".toList = ['\u0027'] := by decide
  have hcomma : ", ".toList = [',', ' '] := by decide
  have hhead : "\tmodules: [".toList = '\t' :: ("modules".toList ++ [':', ' ', '[']) := by
    decide
  have htail : "],".toList = [']', ','] := by decide
  unfold modulesBlock block modulesLiteral
  rw [Expr.text, ObjectLiteral.elementsText_eq_intercalate, List.map_map, hquote, hcomma, hhead,
    htail]
  simp only [List.cons_append, List.append_assoc, List.nil_append]
  rfl

theorem buildConfigSource_eq (name : Text) (options : ResolvedScaffoldOptions) :
    buildConfigSource name options =
      configHead name ++ (configLiteral options).text 0 ++ configTail := by
  have htenancy : tenancyBlock = block ("tenancy", tenancyLiteral) ++ [','] := by decide
  have hauth : authBlock = block ("auth", authLiteral) ++ [','] := by decide
  have hfinance : financeBlock = block ("finance", financeLiteral) ++ [','] := by decide
  have hcommerce : commerceBlock = block ("commerce", commerceLiteral) ++ [','] := by decide +kernel
  have henvironment : environmentBlock = block ("environment", environmentLiteral) := by
    decide
  have hblocks : (leadingSections options.modules).map (fun f => block f ++ [',']) =
      [modulesBlock options.modules, tenancyBlock] ++
        (if .identity ∈ options.modules then [authBlock] else []) ++
        (if .finance ∈ options.modules then [financeBlock] else []) ++
        (if .commerce ∈ options.modules then [commerceBlock] else []) := by
    simp only [leadingSections, List.map_append, List.map_cons, List.map_nil,
      apply_ite (List.map fun f => block f ++ [',']), modulesBlock_eq, htenancy, hauth, hfinance,
      hcommerce]
  have hopen : "\x7b\n".toList = ['\x7b', '\n'] := by decide
  have hline : "\n".toList = ['\n'] := by decide
  have hclose : "\n\x7d".toList = ['\n', '\x7d'] := by decide
  unfold buildConfigSource configLiteral sections
  rw [Expr.text, fieldsText_block, hblocks, ← henvironment, hopen, hline, hclose]
  simp only [ObjectLiteral.gap, List.append_assoc, List.cons_append, List.nil_append]
  rfl

theorem wellFormed_modules (modules : List ModuleName) :
    ObjectLiteral.elementsWellFormed (modules.map fun m => .str m.text) = true := by
  induction modules with
  | nil => rfl
  | cons m modules ih =>
    have hm : m.text.toList.all ObjectLiteral.isPlain = true := by cases m <;> decide
    rw [List.map_cons, ObjectLiteral.elementsWellFormed, ih, Bool.and_true]
    exact hm

theorem wellFormed_configLiteral (options : ResolvedScaffoldOptions) :
    (configLiteral options).wellFormed = true := by
  have hmodules : ObjectLiteral.fieldsWellFormed [("modules", modulesLiteral options.modules)] =
      true := by
    simp only [ObjectLiteral.fieldsWellFormed, modulesLiteral, Expr.wellFormed, wellFormed_modules]
    rfl
  have hsection : ∀ {p : Prop} [Decidable p] {f : String × Expr},
      ObjectLiteral.fieldsWellFormed [f] = true →
        ObjectLiteral.fieldsWellFormed (if p then [f] else []) = true := by
    intro p _ f hf
    split
    · exact hf
    · rfl
  unfold configLiteral sections leadingSections
  rw [Expr.wellFormed]
  simp only [ObjectLiteral.fieldsWellFormed_append, Bool.and_eq_true]
  refine ⟨⟨⟨⟨?_, hsection (by decide)⟩, hsection (by decide)⟩, hsection (by decide)⟩, by decide⟩
  rw [← List.singleton_append, ObjectLiteral.fieldsWellFormed_append, hmodules]
  decide

/-! ## Booting -/

/-- The file is read as a literal, below a comment with a slug in it, and passes both passes. -/
def Boots (readUrl : String → Option String) (env : Env) (source : Text) : Prop :=
  ∃ name body e, IsSlugText name ∧ source = configHead name ++ body ++ configTail ∧
    ObjectLiteral.parse body = some e ∧ Passes readUrl env (e.eval env)

section Booting

variable {readUrl : String → Option String} {env : Env} {name : Text}

theorem configHead_inj {name' body body' : Text} (hname : IsSlugText name)
    (hname' : IsSlugText name') (h : configHead name ++ body = configHead name' ++ body') :
    body = body' := by
  have hpoint : ∀ {t : Text}, IsSlugText t → ∀ c ∈ t, decide (c ≠ '.') = true := by
    intro t ht c hc
    refine decide_eq_true ?_
    rintro rfl
    rcases ht '.' hc with h | h <;> cases h
  unfold configHead at h
  simp only [List.append_assoc] at h
  obtain ⟨rest, hrest⟩ : ∃ rest, configComment = '.' :: rest := ⟨_, rfl⟩
  have hbehind := congrArg (List.dropWhile fun c => decide (c ≠ '.')) (List.append_cancel_left h)
  rw [hrest, List.dropWhile_append_of_pos (hpoint hname),
    List.dropWhile_append_of_pos (hpoint hname')] at hbehind
  exact List.append_cancel_left (List.cons.inj hbehind).2

/-- The literal of a generated file decides. -/
theorem boots_iff_passes (hname : IsSlugText name) (options : ResolvedScaffoldOptions) :
    Boots readUrl env (buildConfigSource name options) ↔
      Passes readUrl env ((configLiteral options).eval env) := by
  have hparse := ObjectLiteral.parse_text (wellFormed_configLiteral options) 0
  rw [buildConfigSource_eq]
  constructor
  · rintro ⟨name', body, e, hname', hsource, hbody, hpasses⟩
    rw [← configHead_inj hname hname' (List.append_cancel_right hsource), hparse] at hbody
    cases hbody
    exact hpasses
  · exact fun h => ⟨name, _, _, hname, rfl, hparse, h⟩

end Booting

/-! ## The sections -/

section Sections

variable {modules : List ModuleName} {key : String}

theorem lookup_ite {p : Prop} [Decidable p] (k : String) (e : Expr) :
    (if p then [(k, e)] else []).lookup key = if p ∧ key = k then some e else none := by
  by_cases hp : p
  · by_cases hkey : key = k
    · simp [hp, hkey]
    · simp [hp, hkey, List.lookup_cons, beq_eq_false_iff_ne.2 hkey]
  · simp [hp]

theorem lookup_modules : (sections modules).lookup "modules" = some (modulesLiteral modules) := by
  simp [sections, leadingSections]

theorem lookup_tenancy : (sections modules).lookup "tenancy" = some tenancyLiteral := by
  simp [sections, leadingSections, List.lookup_cons]

theorem lookup_auth : (sections modules).lookup "auth" =
    if .identity ∈ modules then some authLiteral else none := by
  simp [sections, leadingSections, List.lookup_append, List.lookup_cons, lookup_ite]

theorem lookup_finance : (sections modules).lookup "finance" =
    if .finance ∈ modules then some financeLiteral else none := by
  simp [sections, leadingSections, List.lookup_append, List.lookup_cons, lookup_ite]

theorem lookup_commerce : (sections modules).lookup "commerce" =
    if .commerce ∈ modules then some commerceLiteral else none := by
  simp [sections, leadingSections, List.lookup_append, List.lookup_cons, lookup_ite]

theorem lookup_environment :
    (sections modules).lookup "environment" = some environmentLiteral := by
  simp [sections, leadingSections, List.lookup_append, List.lookup_cons, lookup_ite]

theorem lookup_other
    (h : key ∉ ["modules", "tenancy", "auth", "finance", "commerce", "environment"]) :
    (sections modules).lookup key = none := by
  simp only [List.mem_cons, not_or, List.not_mem_nil, not_false_eq_true, and_true] at h
  obtain ⟨hmodules, htenancy, hauth, hfinance, hcommerce, henvironment⟩ := h
  simp [sections, leadingSections, List.lookup_append, List.lookup_cons, lookup_ite,
    beq_eq_false_iff_ne.2 hmodules, beq_eq_false_iff_ne.2 htenancy,
    beq_eq_false_iff_ne.2 henvironment, hauth, hfinance, hcommerce]

end Sections

/-! ## The value -/

section Value

variable {readUrl : String → Option String} {env : Env}

theorem accepts_tenancy : Schema.Accepts TenancySchema (some (tenancyLiteral.eval env)) := by
  simp [TenancySchema, tenancyLiteral, Schema.accepts_object_iff, List.lookup_cons,
    Core.minLength, Core.utf16Length]

theorem accepts_auth : Schema.Accepts AuthSchema (some (authLiteral.eval env)) := by
  simp [AuthSchema, authLiteral, Schema.accepts_object_iff, List.lookup_cons]

theorem accepts_finance : Schema.Accepts FinanceSchema (some (financeLiteral.eval env)) := by
  simp [FinanceSchema, financeLiteral, Schema.accepts_object_iff, List.lookup_cons,
    Core.hasLength, Core.utf16Length]

theorem accepts_commerce : Schema.Accepts CommerceSchema (some (commerceLiteral.eval env)) := by
  have hint : Core.int 24 = none := by norm_num [Core.int]
  simp [CommerceSchema, commerceLiteral, Schema.accepts_object_iff, List.lookup_cons, hint,
    Core.positive]

theorem accepts_environment :
    Schema.Accepts EnvironmentSchema (some (environmentLiteral.eval env)) := by
  simp [EnvironmentSchema, environmentLiteral, Schema.accepts_object_iff, List.lookup_cons]

theorem accepts_modules (modules : List ModuleName) :
    Schema.Accepts (Schema.array (Schema.enum Core.configModules))
      (some ((modulesLiteral modules).eval env)) := by
  rw [modulesLiteral, ObjectLiteral.eval_arr, ObjectLiteral.evals_eq_map, Schema.accepts_array_iff]
  intro v hv
  simp only [List.map_map, List.mem_map, Function.comp_apply] at hv
  obtain ⟨m, -, rfl⟩ := hv
  rw [ObjectLiteral.eval_str, Schema.accepts_enum_iff]
  cases m <;> simp [ModuleName.text, Core.configModules]

/-- **Every generated configuration is read.** -/
theorem accepts_configLiteral (readUrl : String → Option String) (env : Env)
    (options : ResolvedScaffoldOptions) :
    Schema.Accepts (IntellibizConfigSchema readUrl) (some ((configLiteral options).eval env)) := by
  have hother : ∀ {key : String} {s : Schema.Reader},
      key ∉ ["modules", "tenancy", "auth", "finance", "commerce", "environment"] →
        Schema.Accepts s.optional
          (((sections options.modules).lookup key).map (Expr.eval env)) := by
    intro key s hkey
    rw [lookup_other hkey]
    exact Schema.accepts_optional_none
  have hsection : ∀ {p : Prop} [Decidable p] {e : Expr} {s : Schema.Reader},
      Schema.Accepts s (some (e.eval env)) →
        Schema.Accepts s.optional ((if p then some e else none).map (Expr.eval env)) := by
    intro p _ e s h
    split
    · exact h
    · exact Schema.accepts_optional_none
  rw [configLiteral, ObjectLiteral.eval_obj, IntellibizConfigSchema, Schema.accepts_object_iff]
  simp only [Core.configShape, List.forall_mem_cons, ObjectLiteral.lookup_evalFields,
    lookup_modules, lookup_tenancy, lookup_auth, lookup_finance, lookup_commerce,
    lookup_environment, Option.map_some]
  refine ⟨accepts_modules _, accepts_tenancy, hsection accepts_auth, hsection accepts_finance,
    hsection accepts_commerce, hother (by simp), hother (by simp), hother (by simp),
    hother (by simp), accepts_environment, hother (by simp), hother (by simp), hother (by simp),
    hother (by simp), by simp⟩

/-- The secret of a project with an identity module. -/
def jwtSecret (env : Env) : String := (env "JWT_SECRET").getD "dev-only-secret-change-me"

section Read

variable {options : ResolvedScaffoldOptions} {resolved : Option Value}
  (hread : IntellibizConfigSchema readUrl (some ((configLiteral options).eval env)) =
    .ok resolved)

include hread

theorem prop_configLiteral {key : String} {s : Schema.Reader}
    (hmem : (key, s) ∈ Core.configShape readUrl) :
    s (((sections options.modules).lookup key).map (Expr.eval env)) =
      .ok (Schema.prop resolved key) := by
  rw [← ObjectLiteral.lookup_evalFields]
  exact Core.prop_section hread hmem

theorem prop_absent {key : String} {s : Schema.Reader}
    (hmem : (key, s.optional) ∈ Core.configShape readUrl)
    (hkey : (sections options.modules).lookup key = none) : Schema.prop resolved key = none := by
  have h := prop_configLiteral hread hmem
  rw [hkey] at h
  exact (Except.ok.inj h).symm

theorem prop_present {key : String} {s : Schema.Reader}
    (hmem : (key, s.optional) ∈ Core.configShape readUrl)
    {e : Expr} (hkey : (sections options.modules).lookup key = some e) :
    s (some (e.eval env)) = .ok (Schema.prop resolved key) := by
  have h := prop_configLiteral hread hmem
  rwa [hkey] at h

theorem prop_auth (h : .identity ∈ options.modules) :
    Schema.prop (Schema.prop resolved "auth") "provider" = some (.str "internal") ∧
      Schema.prop (Schema.prop resolved "auth") "jwtSecret" = some (.str (jwtSecret env)) := by
  have hmem : ("auth", AuthSchema.optional) ∈ Core.configShape readUrl := by
    simp [Core.configShape]
  have hauth := prop_present hread hmem (lookup_auth.trans (if_pos h))
  have hprovider : Schema.enum ["internal", "external"] (some (.str "internal")) =
      .ok (Schema.prop (Schema.prop resolved "auth") "provider") :=
    Schema.prop_object (by simp) hauth
      (show ("provider", Schema.enum ["internal", "external"]) ∈ _ by simp)
  have hsecret : (Schema.string []).optional (some (.str (jwtSecret env))) =
      .ok (Schema.prop (Schema.prop resolved "auth") "jwtSecret") :=
    Schema.prop_object (by simp) hauth
      (show ("jwtSecret", (Schema.string []).optional) ∈ _ by simp)
  rw [Schema.enum_eq_ok (by simp)] at hprovider
  exact ⟨(Except.ok.inj hprovider).symm, (Except.ok.inj hsecret).symm⟩

theorem prop_finance (h : .finance ∈ options.modules) :
    Schema.prop (Schema.prop resolved "finance") "baseCurrency" = some (.str "USD") := by
  have hmem : ("finance", FinanceSchema.optional) ∈ Core.configShape readUrl := by
    simp [Core.configShape]
  have hfinance := prop_present hread hmem (lookup_finance.trans (if_pos h))
  have hcurrency : ((Schema.string [Core.hasLength 3]).mapString Core.upperCase)
      (some (.str "USD")) = .ok (Schema.prop (Schema.prop resolved "finance") "baseCurrency") :=
    Schema.prop_object (by simp) hfinance
      (show ("baseCurrency", (Schema.string [Core.hasLength 3]).mapString Core.upperCase) ∈ _ by
        simp)
  have hupper : Core.upperCase "USD" = "USD" := by decide
  simp [Schema.Reader.mapString, Schema.string, Schema.checked, Core.hasLength, Core.utf16Length,
    Except.map, hupper] at hcurrency
  exact hcurrency.symm

theorem prop_dryRun :
    Schema.prop (Schema.prop resolved "environment") "dryRun" = some (.bool false) := by
  have hmem : ("environment", EnvironmentSchema.optional) ∈ Core.configShape readUrl := by
    simp [Core.configShape]
  have henvironment := prop_present hread hmem lookup_environment
  have hdry : (Schema.boolean.withDefault (.bool false)) none =
      .ok (Schema.prop (Schema.prop resolved "environment") "dryRun") :=
    Schema.prop_object (by simp) henvironment
      (show ("dryRun", Schema.boolean.withDefault (.bool false)) ∈ _ by simp)
  exact (Except.ok.inj hdry).symm

/-- The first rule is violated by an empty secret. -/
theorem secret_violated :
    (Core.isString "internal" (Schema.prop (Schema.prop resolved "auth") "provider") &&
      !Core.truthy (Schema.prop (Schema.prop resolved "auth") "jwtSecret")) =
        decide (.identity ∈ options.modules ∧ jwtSecret env = "") := by
  by_cases h : .identity ∈ options.modules
  · obtain ⟨hprovider, hsecret⟩ := prop_auth hread h
    simp [hprovider, hsecret, h, Core.isString, Core.truthy]
  · have hnone : Schema.prop resolved "auth" = none :=
      prop_absent hread (show ("auth", AuthSchema.optional) ∈ _ by simp [Core.configShape])
        (lookup_auth.trans (if_neg h))
    simp [hnone, h, Core.isString]

theorem truthy_baseCurrency :
    Core.truthy (Schema.prop (Schema.prop resolved "finance") "baseCurrency") =
      decide (.finance ∈ options.modules) := by
  by_cases h : .finance ∈ options.modules
  · simp [prop_finance hread h, h, Core.truthy]
  · have hnone : Schema.prop resolved "finance" = none :=
      prop_absent hread (show ("finance", FinanceSchema.optional) ∈ _ by simp [Core.configShape])
        (lookup_finance.trans (if_neg h))
    simp [hnone, h, Core.truthy]

theorem truthy_commerce :
    Core.truthy (Schema.prop resolved "commerce") = decide (.commerce ∈ options.modules) := by
  have hmem : ("commerce", CommerceSchema.optional) ∈ Core.configShape readUrl := by
    simp [Core.configShape]
  by_cases h : .commerce ∈ options.modules
  · have hcommerce := prop_present hread hmem (lookup_commerce.trans (if_pos h))
    obtain ⟨fields, hfields⟩ := Schema.eq_obj_of_object hcommerce
    simp [hfields, h, Core.truthy]
  · have hnone := prop_absent hread hmem (lookup_commerce.trans (if_neg h))
    simp [hnone, h, Core.truthy]

/-- **The rule that a generated configuration violates**, when it does. -/
theorem find_violated :
    ((Core.DEPENDENCY_RULES.find? fun rule => rule.isViolated env resolved).map
        fun rule => (rule.flag, rule.requires)) =
      if .identity ∈ options.modules ∧ jwtSecret env = "" then
        some ("auth.jwtSecret", "auth.provider = \"internal\"")
      else if .commerce ∈ options.modules ∧ .finance ∉ options.modules then
        some ("finance.baseCurrency", "commerce")
      else none := by
  have hledger : Schema.prop resolved "ledger" = none :=
    prop_absent hread (show ("ledger", Core.LedgerSchema.optional) ∈ _ by simp [Core.configShape])
      (lookup_other (by simp))
  have hgovernance : Schema.prop resolved "governance" = none :=
    prop_absent hread
      (show ("governance", Core.GovernanceSchema.optional) ∈ _ by simp [Core.configShape])
      (lookup_other (by simp))
  have hstrict : ∀ s, Core.isString s none = false := fun s => rfl
  have hbool : ∀ b, Core.isBool b none = false := fun b => rfl
  have hdry : Core.isBool true (some (.bool false)) = false := rfl
  simp only [Core.DEPENDENCY_RULES, List.find?_cons, secret_violated hread, hledger, hgovernance,
    prop_dryRun hread, truthy_commerce hread, truthy_baseCurrency hread, Schema.prop_none, hstrict,
    hbool, hdry, Bool.false_and]
  by_cases hsecret : .identity ∈ options.modules ∧ jwtSecret env = ""
  · simp [hsecret]
  · by_cases hcommerce : .commerce ∈ options.modules
    · by_cases hfinance : .finance ∈ options.modules <;> simp [hsecret, hcommerce, hfinance]
    · simp [hsecret, hcommerce]

end Read

variable {options : ResolvedScaffoldOptions}

/-- **When a generated configuration passes.** -/
theorem passes_configLiteral_iff :
    Passes readUrl env ((configLiteral options).eval env) ↔
      (.commerce ∈ options.modules → .finance ∈ options.modules) ∧
        (.identity ∈ options.modules → jwtSecret env ≠ "") := by
  obtain ⟨resolved, hread⟩ := accepts_configLiteral readUrl env options
  rw [Core.passes_iff hread, ← Option.map_eq_none_iff, find_violated hread]
  by_cases hsecret : .identity ∈ options.modules ∧ jwtSecret env = ""
  · rw [if_pos hsecret]
    exact iff_of_false nofun fun h => h.2 hsecret.1 hsecret.2
  · rw [if_neg hsecret]
    by_cases hcommerce : .commerce ∈ options.modules ∧ .finance ∉ options.modules
    · rw [if_pos hcommerce]
      exact iff_of_false nofun fun h => hcommerce.2 (h.1 hcommerce.1)
    · rw [if_neg hcommerce]
      exact iff_of_true rfl ⟨fun h => not_not.1 fun hfinance => hcommerce ⟨h, hfinance⟩,
        fun h hempty => hsecret ⟨h, hempty⟩⟩

/-- Commerce without finance is refused for the missing currency. -/
theorem defineConfig_commerce_only (hcommerce : .commerce ∈ options.modules)
    (hfinance : .finance ∉ options.modules) (hidentity : .identity ∉ options.modules) :
    Core.defineConfig readUrl env ((configLiteral options).eval env) =
      .error (.dependency "finance.baseCurrency" "commerce") := by
  obtain ⟨resolved, hread⟩ := accepts_configLiteral readUrl env options
  have hfind := find_violated hread
  rw [if_neg fun h => hidentity h.1, if_pos ⟨hcommerce, hfinance⟩] at hfind
  obtain ⟨rule, hrule, hnames⟩ := Option.map_eq_some_iff.1 hfind
  rw [Core.defineConfig_violated hread hrule, (Prod.mk.inj hnames).1, (Prod.mk.inj hnames).2]

end Value

/-! ## Projects -/

/-- What has been asked for, and the secret in the environment. -/
def BootCondition (env : Env) (options : ScaffoldOptions) : Prop :=
  ("commerce" ∈ requested options → "finance" ∈ requested options) ∧
    ("identity" ∈ requested options → env "JWT_SECRET" ≠ some "")

theorem scaffoldProject_eq_ok {rawName : Text} (hname : ∃ c ∈ rawName, c.isAlphanum = true)
    (options : ScaffoldOptions) :
    scaffoldProject rawName options =
      .ok
        { dirName := toKebabCase rawName
          projectName := toKebabCase rawName
          options := resolveScaffoldOptions options
          paths := filePaths (resolveScaffoldOptions options)
          config := buildConfigSource (toKebabCase rawName) (resolveScaffoldOptions options) } :=
  if_neg (toKebabCase_ne_nil_iff.2 hname)

theorem jwtSecret_ne_empty_iff {env : Env} : jwtSecret env ≠ "" ↔ env "JWT_SECRET" ≠ some "" := by
  unfold jwtSecret
  cases env "JWT_SECRET" <;> simp

/-- **A generated project boots** when finance is asked for with commerce, and the secret is not
empty with identity. -/
theorem scaffoldProject_boots_iff (readUrl : String → Option String) (env : Env) {rawName : Text}
    (hname : ∃ c ∈ rawName, c.isAlphanum = true) (options : ScaffoldOptions) :
    ∃ project, scaffoldProject rawName options = .ok project ∧
      (Boots readUrl env project.config ↔ BootCondition env options) := by
  refine ⟨_, scaffoldProject_eq_ok hname options, ?_⟩
  have hslug := slugText_toKebabCase rawName
  rw [boots_iff_passes hslug, passes_configLiteral_iff, jwtSecret_ne_empty_iff,
    mem_resolveScaffoldOptions, mem_resolveScaffoldOptions, mem_resolveScaffoldOptions]
  rfl

theorem scaffoldProject_boots_store :
    ∃ project,
      scaffoldProject "Corner Shop".toList ⟨none, none, none, none, none⟩ = .ok project ∧
        Boots (fun _ => none) (fun _ => none) project.config := by
  have hname : ∃ c ∈ "Corner Shop".toList, c.isAlphanum = true := ⟨'C', by decide, by decide⟩
  obtain ⟨project, hproject, hboots⟩ :=
    scaffoldProject_boots_iff (fun _ => none) (fun _ => none) hname ⟨none, none, none, none, none⟩
  exact ⟨project, hproject, hboots.2 ⟨fun _ => by decide, fun _ => nofun⟩⟩

/-- Commerce alone: the quote that needs finance is written, and the project does not boot. -/
theorem commerce_alone_refused :
    ∃ project, scaffoldProject "shop".toList ⟨none, some ["commerce"], none, none, none⟩ =
        .ok project ∧
      "src/actions/quote.ts" ∈ project.paths ∧
      ¬ Boots (fun _ => none) (fun _ => none) project.config := by
  have hname : ∃ c ∈ "shop".toList, c.isAlphanum = true := ⟨'s', by decide, by decide⟩
  have hcommerce : ModuleName.commerce ∈
      (resolveScaffoldOptions ⟨none, some ["commerce"], none, none, none⟩).modules := by decide
  refine ⟨_, scaffoldProject_eq_ok hname _, by decide, ?_⟩
  rw [boots_iff_passes (slugText_toKebabCase _)]
  rintro ⟨defined, hdefined⟩
  rw [defineConfig_commerce_only hcommerce (by decide) (by decide)] at hdefined
  cases hdefined

end Intellibiz.Cli
