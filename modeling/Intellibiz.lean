import Intellibiz.Delimited
import Intellibiz.HexPairs
import Intellibiz.Utf8
import Intellibiz.FormUrlencoded
import Intellibiz.JsNumber
import Intellibiz.HashChain
import Intellibiz.Machine
import Intellibiz.JsMap
import Intellibiz.Ledger.Entry
import Intellibiz.Ledger.Writer
import Intellibiz.Ledger.Tamper
import Intellibiz.Commerce.Transaction
import Intellibiz.Commerce.Concurrent
import Intellibiz.Commerce.Providers
import Intellibiz.Commerce.Webhook
import Intellibiz.Commerce.Replay
import Intellibiz.Commerce.BankRetry
import Intellibiz.Sql.Occurrence
import Intellibiz.Sql.Lexer
import Intellibiz.Db.Template
import Intellibiz.Sql.Blocks
import Intellibiz.Db.Scope
import Intellibiz.Db.Filter
import Intellibiz.Db.TenantLiteral
import Intellibiz.Sql.Condition
import Intellibiz.Sql.Restriction
import Intellibiz.Db.Strengthen
import Intellibiz.Db.Skipping
import Intellibiz.Db.Placeholder
import Intellibiz.Db.Governance
import Intellibiz.PriorityQueue
import Intellibiz.Scheduler
import Intellibiz.Scheduler.Timing
import Intellibiz.Ledger.Concurrent
import Intellibiz.Ledger.Bridge
import Intellibiz.Ledger.Drain
import Intellibiz.Core.Events
import Intellibiz.Core.Budgets
import Intellibiz.Core.License
import Intellibiz.Core.Plugins
import Intellibiz.Core.Loading
import Intellibiz.Core.FailedLoad
import Intellibiz.Core.Namespaces
import Intellibiz.Core.Reloads
import Intellibiz.Commerce.RetryRegistry
import Intellibiz.Commerce.RetryVerdict
import Intellibiz.Commerce.Rollback
import Intellibiz.Commerce.FinalState
import Intellibiz.Commerce.ProviderChange
import Intellibiz.Commerce.LicenseKeys
import Intellibiz.Commerce.Reconciliation
import Intellibiz.Rounding
import Intellibiz.Thresholds
import Intellibiz.FixedPoint
import Intellibiz.Numeral
import Intellibiz.Extended
import Intellibiz.Apportion
import Intellibiz.MachineInt
import Intellibiz.Finance.Money
import Intellibiz.Finance.Numbers
import Intellibiz.Finance.Written
import Intellibiz.Finance.Allocate
import Intellibiz.Finance.Tax
import Intellibiz.Finance.Cart
import Intellibiz.Finance.Rate
import Intellibiz.Finance.Display
import Intellibiz.Finance.Serialized
import Intellibiz.Finance.Finite
import Intellibiz.Commerce.DedupLog
import Intellibiz.Commerce.Signature
import Intellibiz.Commerce.PayFast
import Intellibiz.Commerce.Stripe
import Intellibiz.Commerce.PaymentWebhook
import Intellibiz.Formula.Engine
import Intellibiz.Formula.Allocate
import Intellibiz.Formula.RoundTrip
import Intellibiz.Formula.Refusal
import Intellibiz.Formula.Agreement
import Intellibiz.Formula.Fallback
import Intellibiz.Formula.Conversions
import Intellibiz.Formula.Allocators
import Intellibiz.Identity.Tenancy
import Intellibiz.Db.Sudo
import Intellibiz.Planner.Plan
import Intellibiz.Planner.Rows
import Intellibiz.Db.Literals
import Intellibiz.Db.Runs
import Intellibiz.Decimals
import Intellibiz.Rules.Engine
import Intellibiz.Rules.Rates
import Intellibiz.Rules.Accounts
import Intellibiz.Rules.Currency
import Intellibiz.Rules.Fallback
import Intellibiz.Ledger.DoubleEntry
import Intellibiz.Bitmask
import Intellibiz.Identity.Permissions
import Intellibiz.Identity.Authority
import Intellibiz.Identity.Engines
import Intellibiz.FixedWidth
import Intellibiz.Core.TraceId
import Intellibiz.Words
import Intellibiz.Cli.CaseHelpers
import Intellibiz.Cli.Identifiers
import Intellibiz.Testing.Clock
import Intellibiz.Core.Contexts
import Intellibiz.Core.Sockets
import Intellibiz.AsyncScope
import Intellibiz.Core.Propagation
import Intellibiz.Http.Errors
import Intellibiz.Http.Isolation
import Intellibiz.Http.Exchange
import Intellibiz.Schema
import Intellibiz.ObjectLiteral
import Intellibiz.Core.Config
import Intellibiz.Core.Resolved
import Intellibiz.Cli.Scaffold
import Intellibiz.Cli.Boot
