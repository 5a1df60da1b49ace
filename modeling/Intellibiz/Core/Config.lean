import Intellibiz.Db.Template
import Intellibiz.Schema

/-!
# Configuration at boot

Model of `defineConfig` (`packages/core/src/config/validate.ts`) and of the schema it reads a
configuration with (`packages/core/src/config/schema.ts`).

* `IntellibizConfigSchema` — the sections of a configuration; `readUrl` stands for the check of a
  database address, which hands on the text it has trimmed.
* `DEPENDENCY_RULES` — what one section requires of another.
* `defineConfig` — both passes; the warnings are returned beside the configuration.

Principal results: `passes_iff` and `prop_section`.
-/

namespace Intellibiz.Core

open Schema

/-! ## Checks -/

/-- The length of a text in UTF-16 code units. -/
def utf16Length (s : String) : ℕ := (s.toList.map fun c => if c.toNat < 0x10000 then 1 else 2).sum

def minLength (n : ℕ) : Check String := fun s => if utf16Length s < n then some .tooSmall else none

def hasLength (n : ℕ) : Check String := fun s =>
  if utf16Length s < n then some .tooSmall else if n < utf16Length s then some .tooBig else none

/-- `/^\d+[dwmy]$/` -/
def retentionFormat : Check String := fun s =>
  match s.toList.reverse with
  | unit :: digits =>
    if unit ∈ ['d', 'w', 'm', 'y'] ∧ digits ≠ [] ∧ digits.all Char.isDigit then none
    else some .invalidFormat
  | [] => some .invalidFormat

/-- A safe integer. -/
def int : Check ℚ := fun q =>
  if q.den ≠ 1 then some .invalidType
  else if q < -(2 ^ 53 - 1) then some .tooSmall
  else if 2 ^ 53 - 1 < q then some .tooBig
  else none

def positive : Check ℚ := fun q => if 0 < q then none else some .tooSmall

def nonnegative : Check ℚ := fun q => if 0 ≤ q then none else some .tooSmall

def atMostOne : Check ℚ := fun q => if q ≤ 1 then none else some .tooBig

def upperCase (s : String) : String := String.ofList (Db.toUpperCase s.toList)

/-! ## Sections -/

def TenancySchema : Reader := object [
  ("strategy", enum ["column", "schema"]),
  ("key", (string [minLength 1]).withDefault (.str "org_id")),
  ("type", (enum ["uuid", "string"]).withDefault (.str "uuid")),
  ("strict", boolean.withDefault (.bool true)),
  ("resolve", any.optional)]

def AuthSchema : Reader := object [
  ("provider", enum ["internal", "external"]),
  ("jwtSecret", (string []).optional),
  ("algorithm", (enum ["HS256", "RS256"]).withDefault (.str "HS256")),
  ("tokenExpiry", (string []).withDefault (.str "24h")),
  ("refreshTokenExpiry", (string []).withDefault (.str "30d"))]

def FinanceSchema : Reader := object [
  ("baseCurrency", (string [hasLength 3]).mapString upperCase),
  ("rounding", (enum ["bankers", "half-up", "truncate"]).withDefault (.str "bankers")),
  ("taxation", (object [
    ("provider", (enum ["internal", "external"]).withDefault (.str "internal")),
    ("autoCalculate", boolean.withDefault (.bool true))]).optional),
  ("exchangeRates", (object [
    ("provider", (enum ["internal", "openexchangerates", "fixer"]).withDefault (.str "internal")),
    ("syncInterval", (enum ["hourly", "daily", "manual"]).withDefault (.str "hourly"))]).optional)]

def CommerceSchema : Reader := object [
  ("ledger", (object [
    ("mode", (enum ["atomic", "background"]).withDefault (.str "atomic"))]).optional),
  ("invoicing", (enum ["auto", "manual"]).withDefault (.str "manual")),
  ("webhookDedup", (object [
    ("provider", (enum ["memory", "redis"]).withDefault (.str "memory")),
    ("ttlHours", (number [int, positive]).withDefault (.num 24))]).optional)]

def LedgerSchema : Reader := object [
  ("mode", (enum ["atomic", "background"]).withDefault (.str "atomic")),
  ("sync", (array (string [])).withDefault (.arr [.str "db"])),
  ("retention", (string [retentionFormat]).withDefault (.str "7y")),
  ("signatureAlgorithm", (enum ["ed25519", "sha256"]).withDefault (.str "sha256"))]

def GovernanceSchema : Reader := object [
  ("auditAll", boolean.withDefault (.bool true)),
  ("allowSudo", boolean.withDefault (.bool false)),
  ("excludeSensitive",
    (array (string [])).withDefault (.arr [.str "password", .str "cardNumber", .str "ssn"]))]

def url (readUrl : String → Option String) : Reader
  | some (.str s) =>
    match readUrl s with
    | some t => .ok (some (.str t))
    | none => reject .invalidFormat
  | _ => reject .invalidType

def DatabaseSchema (readUrl : String → Option String) : Reader := object [
  ("url", (url readUrl).optional),
  ("pool", (object [
    ("min", (number [int, nonnegative]).withDefault (.num 2)),
    ("max", (number [int, positive]).withDefault (.num 10))]).optional),
  ("queryTimeout", (number [int, positive]).withDefault (.num 30000)),
  ("defaultLimit", (number [int, positive]).withDefault (.num 100))]

def EnvironmentSchema : Reader := object [
  ("dryRun", boolean.withDefault (.bool false)),
  ("trace", boolean.withDefault (.bool true)),
  ("logLevel", (enum ["debug", "info", "warn", "error", "silent"]).withDefault (.str "info"))]

def EventBusSchema : Reader := object [
  ("provider", (enum ["internal", "redis", "nats"]).withDefault (.str "internal")),
  ("maxRetries", (number [int, nonnegative]).withDefault (.num 3)),
  ("deadLetterRetention", (string []).withDefault (.str "7d"))]

def InventorySchema : Reader := object [
  ("mode", (enum ["strict", "lenient"]).withDefault (.str "strict")),
  ("lowStockAlert", (number [int, nonnegative]).withDefault (.num 5)),
  ("reservationTtl", (string []).withDefault (.str "15m"))]

def OverridesSchema : Reader := object [
  ("taxCalculation", boolean.withDefault (.bool false)),
  ("autoScaffold", boolean.withDefault (.bool true)),
  ("path", (string []).withDefault (.str "./intellibiz"))]

def configModules : List String :=
  ["commerce", "finance", "identity", "legal", "db", "inventory", "logistics"]

def configShape (readUrl : String → Option String) : List (String × Reader) := [
  ("modules", (array (enum configModules)).optional),
  ("tenancy", TenancySchema.optional),
  ("auth", AuthSchema.optional),
  ("finance", FinanceSchema.optional),
  ("commerce", CommerceSchema.optional),
  ("ledger", LedgerSchema.optional),
  ("governance", GovernanceSchema.optional),
  ("database", (DatabaseSchema readUrl).optional),
  ("inventory", InventorySchema.optional),
  ("environment", EnvironmentSchema.optional),
  ("eventBus", EventBusSchema.optional),
  ("taxation", (object [
    ("provider", (enum ["internal", "external"]).withDefault (.str "internal")),
    ("defaultRate", (number [nonnegative, atMostOne]).withDefault (.num 0))]).optional),
  ("plugins", (array any).optional),
  ("overrides", OverridesSchema.optional)]

def IntellibizConfigSchema (readUrl : String → Option String) : Reader :=
  object (configShape readUrl)

/-! ## Dependency rules -/

/-- The environment variables of the process. -/
abbrev Env : Type := String → Option String

/-- `Boolean(v)` -/
def truthy : Option Value → Bool
  | some (.bool b) => b
  | some (.num q) => q ≠ 0
  | some (.str s) => s ≠ ""
  | some (.arr _) | some (.obj _) | some .function => true
  | some .null | none => false

/-- `v === s` -/
def isString (s : String) : Option Value → Bool
  | some (.str t) => t = s
  | _ => false

/-- `v === b` -/
def isBool (b : Bool) : Option Value → Bool
  | some (.bool c) => c = b
  | _ => false

structure DependencyRule where
  flag : String
  requires : String
  isViolated : Env → Option Value → Bool

def DEPENDENCY_RULES : List DependencyRule := [
  { flag := "auth.jwtSecret"
    requires := "auth.provider = \"internal\""
    isViolated := fun _ c =>
      isString "internal" (prop (prop c "auth") "provider") &&
        !truthy (prop (prop c "auth") "jwtSecret") },
  { flag := "tenancy"
    requires := "ledger.mode = \"atomic\""
    isViolated := fun _ c =>
      isString "atomic" (prop (prop c "ledger") "mode") && !truthy (prop c "tenancy") },
  { flag := "governance.auditAll"
    requires := "governance.allowSudo = true"
    isViolated := fun _ c =>
      isBool true (prop (prop c "governance") "allowSudo") &&
        isBool false (prop (prop c "governance") "auditAll") },
  { flag := "environment.dryRun = false"
    requires := "production"
    isViolated := fun env c =>
      isBool true (prop (prop c "environment") "dryRun") && env "NODE_ENV" == some "production" },
  { flag := "finance.baseCurrency"
    requires := "commerce"
    isViolated := fun _ c =>
      truthy (prop c "commerce") && !truthy (prop (prop c "finance") "baseCurrency") }]

def startupWarnings (env : Env) (c : Option Value) : List String :=
  (if truthy (prop (prop c "governance") "allowSudo") then
    ["[intellibiz] WARNING: governance.allowSudo is true. db.sudo() bypasses tenancy. " ++
      "Ensure all usages are audited."]
  else []) ++
  (if truthy (prop (prop c "environment") "dryRun") then
    ["[intellibiz] WARNING: environment.dryRun is true. No data will be written."]
  else []) ++
  (if !truthy (prop c "tenancy") && env "NODE_ENV" == some "production" then
    ["[intellibiz] WARNING: No tenancy configuration. Multi-tenancy is disabled."]
  else [])

/-! ## Both passes -/

inductive ConfigError where
  | validation (issues : List Issue)
  | dependency (flag requires : String)
  deriving DecidableEq

/-- The resolved configuration with what was warned of. -/
structure Defined where
  config : Option Value
  warnings : List String

def defineConfig (readUrl : String → Option String) (env : Env) (config : Value) :
    Except ConfigError Defined :=
  match IntellibizConfigSchema readUrl (some config) with
  | .error issues => .error (.validation issues)
  | .ok resolved =>
    match DEPENDENCY_RULES.find? fun rule => rule.isViolated env resolved with
    | some rule => .error (.dependency rule.flag rule.requires)
    | none => .ok { config := resolved, warnings := startupWarnings env resolved }

/-- The configuration passes both passes. -/
def Passes (readUrl : String → Option String) (env : Env) (config : Value) : Prop :=
  ∃ defined, defineConfig readUrl env config = .ok defined

section Passing

variable {readUrl : String → Option String} {env : Env} {config : Value} {resolved : Option Value}

/-- **A configuration that is read passes when no rule is violated.** -/
theorem passes_iff (hread : IntellibizConfigSchema readUrl (some config) = .ok resolved) :
    Passes readUrl env config ↔
      (DEPENDENCY_RULES.find? fun rule => rule.isViolated env resolved) = none := by
  unfold Passes defineConfig
  rw [hread]
  cases hfind : DEPENDENCY_RULES.find? fun rule => rule.isViolated env resolved with
  | none =>
    refine iff_of_true ⟨{ config := resolved, warnings := startupWarnings env resolved }, ?_⟩ rfl
    simp only [hfind]
  | some rule =>
    refine iff_of_false ?_ nofun
    rintro ⟨defined, hdefined⟩
    simp only [hfind] at hdefined
    cases hdefined

/-- The error names the first rule that is violated. -/
theorem defineConfig_violated {rule : DependencyRule}
    (hread : IntellibizConfigSchema readUrl (some config) = .ok resolved)
    (hfind : (DEPENDENCY_RULES.find? fun r => r.isViolated env resolved) = some rule) :
    defineConfig readUrl env config = .error (.dependency rule.flag rule.requires) := by
  unfold defineConfig
  rw [hread]
  simp only [hfind]

theorem nodup_configShape : ((configShape readUrl).map Prod.fst).Nodup := by
  simp [configShape]

/-- **A section of what is read** is what its schema reads of the section. -/
theorem prop_section {fields : List (String × Value)}
    (hread : IntellibizConfigSchema readUrl (some (.obj fields)) = .ok resolved) {key : String}
    {s : Reader} (hmem : (key, s) ∈ configShape readUrl) :
    s (fields.lookup key) = .ok (prop resolved key) :=
  prop_object nodup_configShape hread hmem

end Passing

end Intellibiz.Core
