import HkuUtils.AsioPool.Capacity
import HkuUtils.AsioPool.Closers
import HkuUtils.AsioPool.Races
import HkuUtils.BlockingPool.Wakeup
import HkuUtils.BlockingPool.Versions
import HkuUtils.HttpClient.Responses
import HkuUtils.HttpClient.Reuse
import HkuUtils.LruCache.Recency
import HkuUtils.Database.Items
import HkuUtils.Database.Removal
import HkuUtils.Database.Repetition
import HkuUtils.MySQL.Reports
import HkuUtils.MySQL.Sequences
import HkuUtils.Statement.RoundTrip
import HkuUtils.Database.TransAction
import HkuUtils.DBUpgrade.Once
import HkuUtils.Parameter.Archive
import HkuUtils.HttpClient.Routing
import HkuUtils.HttpClient.Framing
import HkuUtils.ThreadPool.Tasks
import HkuUtils.StealPool.Tasks
import HkuUtils.TimerManager.Stop
import HkuUtils.TimerManager.Removal
import HkuUtils.TimerManager.Occurrences
import HkuUtils.TimerManager.Window
import HkuUtils.Algorithm.Loops
import HkuUtils.GlobalMQPool.Join
import HkuUtils.NestedFor.Deadlock
import HkuUtils.NestedFor.Quiescent
import HkuUtils.HttpClient.Port
import HkuUtils.HttpClient.Target
import HkuUtils.Datetime.Navigation
import HkuUtils.Datetime.Encodings
import HkuUtils.Datetime.Text
import HkuUtils.HttpClient.Delivery
import HkuUtils.HttpClient.Timeouts
import HkuUtils.Node.Server
import HkuUtils.ResultSet.Pages
import HkuUtils.ResultSet.Iterators
import HkuUtils.Statement.Reuse
import HkuUtils.Statement.Rebinding
import HkuUtils.Condition.Composition
import HkuUtils.ResultSet.Split
import HkuUtils.Statement.Returning
import HkuUtils.Parameter.Json
import HkuUtils.IniParser.Atomicity
import HkuUtils.IniParser.LineEndings
import HkuUtils.Datetime.Days
import HkuUtils.Datetime.Validation
import HkuUtils.Datetime.Range
import HkuUtils.Datetime.DeltaText
import HkuUtils.Datetime.Parsing
import HkuUtils.Algorithm.AwaitFuture
import HkuUtils.FilterNode.Processor
import HkuUtils.MQStealPool.Stack
import HkuUtils.MQStealPool.Stop
import HkuUtils.SQLite.Recovery
import HkuUtils.Os.Containment
import HkuUtils.ConnectPool.Waiting
import HkuUtils.Arithmetic.Quantile
import HkuUtils.TimerManager.Ids
import HkuUtils.Strings.Ends
import HkuUtils.Strings.Pieces
import HkuUtils.Base64.Codec
import HkuUtils.Snowflake.Ids
import HkuUtils.LruCache11.Refinement
import HkuUtils.Md5.Refinement
import HkuUtils.Plugin.Sharing
import HkuUtils.TableMacro.Rows
import HkuUtils.MoFile.Catalogue
import HkuUtils.Node.ClientSocket
import HkuUtils.Node.RemoteCall
import HkuUtils.MQStealPool.Tasks
import HkuUtils.HttpClient.Concurrency
