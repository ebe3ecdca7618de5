import DbRelay.Types
import DbRelay.Lib.StepSystem
import DbRelay.Pool.Table
import DbRelay.Pool.System
import DbRelay.Pool.Holding
import DbRelay.Pool.Isolation
import DbRelay.Pool.Uniqueness
import DbRelay.Pool.Handles
import DbRelay.Pool.Expiry
import DbRelay.Pool.Kill
import DbRelay.Pool.Shutdown
import DbRelay.Lib.Semaphore
import DbRelay.Lib.CriticalSection
import DbRelay.Pool.Sections
import DbRelay.Pool.Locking
import DbRelay.Lib.Framing
import DbRelay.Lib.History
import DbRelay.Wire.Socket
import DbRelay.Lib.Decimal
import DbRelay.Wire.Connector
import DbRelay.Wire.Client
import DbRelay.Wire.Protocol
import DbRelay.Wire.Settings
import DbRelay.Params
import DbRelay.Wire.SqlText
import DbRelay.Wire.Results
import DbRelay.Wire.Broken
import DbRelay.Wire.Buffers
import DbRelay.Wire.MainLoop
import DbRelay.Wire.Logins
import DbRelay.Lib.Json
import DbRelay.Lib.JsonString
import DbRelay.Json.Writer
import DbRelay.Json.Tree
import DbRelay.Json.RoundTrip
import DbRelay.Json.Outline
import DbRelay.Json.Escape
import DbRelay.Pool.Status
import DbRelay.Db.Backend
import DbRelay.Db.FillData
import DbRelay.Db.CellBuffers
import DbRelay.Db.Standard
import DbRelay.Db.ColumnNames
import DbRelay.Db.EmbeddedCsv
import DbRelay.Query.RunQuery
import DbRelay.Query.ErrorText
import DbRelay.Query.ErrorBuffers
import DbRelay.Query.Response
import DbRelay.Lib.Dialogue
import DbRelay.Query.Conversation
import DbRelay.Json.Line
import DbRelay.Query.Relay
import DbRelay.Form.Parser
import DbRelay.Form.Fields
import DbRelay.Form.Splitting
import DbRelay.Form.Agreement
import DbRelay.Form.WriteValue
import DbRelay.Lib.Percent
import DbRelay.Form.RoundTrip
import DbRelay.Query.Transaction
import DbRelay.Query.CurrentDatabase
import DbRelay.Lib.Template
import DbRelay.Query.Placeholders
import DbRelay.Db.TableName
import DbRelay.Cli.Loop
import DbRelay.Cli.Leaks
import DbRelay.Query.Resources
import DbRelay.Query.Waiting
import DbRelay.Wire.SqlMode
import DbRelay.Lib.Strtok
import DbRelay.Http.Headers
import DbRelay.Http.Checks
import DbRelay.Db.Calls
import DbRelay.Db.Mssql
import DbRelay.Db.MssqlSession
