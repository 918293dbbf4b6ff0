import Plenora.Lib.Ieee
import Plenora.Core.ResumedRead
import Plenora.Core.Checkpoint
import Plenora.Lib.Kleene
import Plenora.Lib.Keyset
import Plenora.Core.WkbAgreement
import Plenora.Core.Arrow
import Plenora.Lib.PrefixCode
import Plenora.Core.WriteKeys
import Plenora.Core.Cancellation
import Plenora.Core.StoreRewrite
import Plenora.Core.CancellationGraph
import Plenora.Core.CancellationRuns
import Plenora.Lib.Decimal
import Plenora.Lib.IeeeRounding
import Plenora.Core.CastTable
import Plenora.Core.OperandAdmission
import Plenora.Core.ExactDecimals
import Plenora.Core.TemporalForms
import Plenora.Core.ExactAdmission
import Plenora.Core.Graph
import Plenora.Lib.PostgresLexer
import Plenora.Postgres.Age
import Plenora.Engine.Cache
import Plenora.Engine.Coherence
import Plenora.Core.Transaction
import Plenora.Lib.Calls
import Plenora.Lib.TransactionServer
import Plenora.Postgres.Errors
import Plenora.Postgres.Transaction
import Plenora.Postgres.TransactionOutcome
import Plenora.Sqlserver.Errors
import Plenora.Sqlserver.Transaction
import Plenora.Sqlserver.TransactionOutcome
import Plenora.Mysql.Errors
import Plenora.Mysql.Transaction
import Plenora.Mysql.TransactionOutcome
import Plenora.Core.ConditionalUpdate
import Plenora.Postgres.ConditionalUpdate
import Plenora.Sqlserver.ConditionalUpdate
import Plenora.Mysql.ConditionalUpdate
import Plenora.Providers.ConditionalUpdates
import Plenora.Core.WriteOutcome
import Plenora.Core.RowDiagnostics
import Plenora.Postgres.WriteRecovery
import Plenora.Postgres.WriteRun
import Plenora.Postgres.WriteEnds
import Plenora.Lib.MysqlLexer
import Plenora.Core.MysqlCallerPolicy
import Plenora.Core.MysqlCallerReading
import Plenora.Lib.Wkb
import Plenora.Sdk.JsonInput
import Plenora.Core.GeometryReader
import Plenora.Sdk.GeoJson
import Plenora.Lib.Dialogue
import Plenora.Sdk.Migrations
import Plenora.Sdk.MigrationRuns
import Plenora.Core.ResourceBudget
import Plenora.Core.CallerSql
import Plenora.Core.RowDiagnosis
import Plenora.Core.WkbLanguage
import Plenora.Lib.DecimalGroups
import Plenora.Postgres.NumericCodec
import Plenora.Postgres.NumericExact
import Plenora.Postgres.Pool
import Plenora.Lib.ArrayInput
import Plenora.Postgres.ArrayLiteral
import Plenora.Lib.CopyText
import Plenora.Postgres.CopyText
import Plenora.Lib.JsonText
import Plenora.Core.StrictJson
import Plenora.Postgres.JsonKeys
import Plenora.Core.QueryAst
import Plenora.Lib.WorkStack
import Plenora.Core.QueryValidation
import Plenora.Core.QueryAgreement
import Plenora.Lib.SetExpressions
import Plenora.Sql.SetQueries
import Plenora.Lib.Conditions
import Plenora.Core.Portable
import Plenora.Core.PortableCompiler
import Plenora.Core.RelationalMutation
import Plenora.Core.PredicateLowering
import Plenora.Core.CrsDefinition
import Plenora.Core.CrsWkt
import Plenora.Core.EwkbNormal
import Plenora.Core.EwkbRootSrid
import Plenora.Core.Projjson
import Plenora.Core.ProjjsonTokens
import Plenora.Core.ProjjsonValidation
import Plenora.Core.QueryLocking
import Plenora.Core.StatementHeads
import Plenora.Core.WriteSettlement
import Plenora.Lib.JsonStrings
import Plenora.Postgres.Agtype
import Plenora.Postgres.AgtypeGrammar
import Plenora.Postgres.AgtypeSoundness
import Plenora.Core.ProjjsonIdentifiers
import Plenora.Core.RowCursor
import Plenora.Mysql.RowWriter
import Plenora.Providers.RowWriters
import Plenora.Db2.Parameter
import Plenora.Db2.ParameterArray
import Plenora.Engine.RuntimeAdmission
import Plenora.Sqlserver.Inspection
import Plenora.Sqlserver.InspectionAgreement
import Plenora.Db2.ArrayAgreement
import Plenora.Lib.Ledger
import Plenora.Mysql.BatchStream
import Plenora.Mysql.BoundedRead
import Plenora.Mysql.GroupDeterminism
import Plenora.Lib.Parts
import Plenora.Mysql.QueryPlan
import Plenora.Mysql.ResultColumns
import Plenora.Core.JsonNumbers
import Plenora.Core.QuotedIdentifiers
import Plenora.Lib.IntervalInput
import Plenora.Postgres.IntervalText
import Plenora.Lib.Pieces
import Plenora.Lib.Utf16
import Plenora.Oracle.DecimalTexts
import Plenora.Oracle.LobBinding
import Plenora.Oracle.NumericExactness
import Plenora.Lib.CypherLexer
import Plenora.Sdk.CypherSafety
import Plenora.Core.QueryWalk
import Plenora.Core.CastRule
