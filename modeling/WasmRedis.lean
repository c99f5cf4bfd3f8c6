import WasmRedis.Command
import WasmRedis.Persistence
import WasmRedis.Calls
import WasmRedis.Foundation.Runs
import WasmRedis.Changes
import WasmRedis.Foundation.Expiry
import WasmRedis.Foundation.NumberedLog
import WasmRedis.IndexContents
import WasmRedis.Restoring
import WasmRedis.StorageCalls
import WasmRedis.EngineInvariant
import WasmRedis.Queries
import WasmRedis.LazyExpiry
import WasmRedis.Compaction
import WasmRedis.Durability
import WasmRedis.Closing
import WasmRedis.Lifetimes
import WasmRedis.Agreement
import WasmRedis.Bookkeeping
import WasmRedis.Histories
import WasmRedis.Crashes
import WasmRedis.Retries
import WasmRedis.Recovery
import WasmRedis.Deadlines
import WasmRedis.EngineFiles
import WasmRedis.Reopening
import WasmRedis.Corruption
import WasmRedis.Searches
import WasmRedis.Quoting
import WasmRedis.Language
import WasmRedis.Paging
import WasmRedis.Service
import WasmRedis.Locks
import WasmRedis.Rebuilding
import WasmRedis.WindowPage
import WasmRedis.Displayed
import WasmRedis.Batches
import WasmRedis.Survival
import WasmRedis.Acknowledged
import WasmRedis.Serving
import WasmRedis.Handlers
import WasmRedis.Dashboard
import WasmRedis.Stored
import WasmRedis.Demo
import WasmRedis.Accounts
import WasmRedis.Machine
import WasmRedis.Screen
import WasmRedis.Shutdown
import WasmRedis.Sessions
