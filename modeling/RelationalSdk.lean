import RelationalSdk.Runs
import RelationalSdk.Threads
import RelationalSdk.KeyedTable
import RelationalSdk.Text
import RelationalSdk.Domain
import RelationalSdk.TxTables
import RelationalSdk.Grants
import RelationalSdk.GrantMirror
import RelationalSdk.Wallets
import RelationalSdk.Indexer
import RelationalSdk.Bump
import RelationalSdk.PoolCounters
import RelationalSdk.PoolSchedules
import RelationalSdk.CsvReader
import RelationalSdk.DataValidation
import RelationalSdk.Dataset
import RelationalSdk.Uploads
import RelationalSdk.RowCounts
import RelationalSdk.Signing
import RelationalSdk.PoolHandlers
import RelationalSdk.Issuance
import RelationalSdk.PoolLifecycle
import RelationalSdk.Revocations
import RelationalSdk.AuditIndex
import RelationalSdk.AuditLog
import RelationalSdk.AuditTrail
import RelationalSdk.ScriptCache
import RelationalSdk.TransactionHandlers
import RelationalSdk.FirstPageCache
import RelationalSdk.TransactionStatus
import RelationalSdk.DeletedWallets
import RelationalSdk.Nonces
import RelationalSdk.PoolTables
import RelationalSdk.GroupedTable
import RelationalSdk.PoolRecords
import RelationalSdk.CredentialPaths
import RelationalSdk.JsonValue
import RelationalSdk.QueryAudit
import RelationalSdk.PoolAudit
import RelationalSdk.AtomicWrite
import RelationalSdk.MeanScript
import RelationalSdk.StrictFaults
import RelationalSdk.IndexLoops
import RelationalSdk.MeanScan
import RelationalSdk.NumberParser
import RelationalSdk.JsonText
import RelationalSdk.ScriptArgs
import RelationalSdk.JsonGrammar
import RelationalSdk.ScriptOutput
import RelationalSdk.GuestMemory
import RelationalSdk.HexIds
import RelationalSdk.DrtRequests
import RelationalSdk.Wire
import RelationalSdk.PoolRegistration
import RelationalSdk.Base64
import RelationalSdk.CursorTokens
import RelationalSdk.UploadPayload
import RelationalSdk.DecimalCells
import RelationalSdk.UriSyntax
import RelationalSdk.ScriptAllowlist
import RelationalSdk.LoopbackUrl
import RelationalSdk.CivilTime
import RelationalSdk.Marketplace
import RelationalSdk.DrtEvents
import RelationalSdk.TransactionSize
import RelationalSdk.Fallible
import RelationalSdk.TokenValidation
import RelationalSdk.UploadForms
import RelationalSdk.Base58
import RelationalSdk.ChainAccounts
import RelationalSdk.DataQueries
import RelationalSdk.QueryAnswers
import RelationalSdk.GuestRuns
import RelationalSdk.MessageMeaning
import RelationalSdk.Transfers
import RelationalSdk.GrantAccounts
import RelationalSdk.ProgramInterface
import RelationalSdk.GrantTransactions
