import KhCommon.Lib.Machine
import KhCommon.Lib.Outcome
import KhCommon.Lib.OrderedDict
import KhCommon.Lib.Retry
import KhCommon.Lib.Attempts
import KhCommon.Lib.Window
import KhCommon.Lib.KeyedLoop
import KhCommon.Lib.Tally
import KhCommon.Lib.Statistics
import KhCommon.Lib.ExpiringDict
import KhCommon.Lib.Placeholders
import KhCommon.Lib.Transactions
import KhCommon.Lib.ShiftRegister
import KhCommon.Lib.OffsetLog
import KhCommon.Lib.Split
import KhCommon.Lib.Trim
import KhCommon.Lib.Repeats
import KhCommon.Lib.Python
import KhCommon.Lib.Percent
import KhCommon.Lib.Authority
import KhCommon.Lib.Path
import KhCommon.Lib.Base64
import KhCommon.Lib.Rounding
import KhCommon.Utilities
import KhCommon.IntCodec
import KhCommon.Base64
import KhCommon.Crc
import KhCommon.CrcLaws
import KhCommon.Gateway
import KhCommon.SafeJoin
import KhCommon.Crawling
import KhCommon.JsonStream
import KhCommon.Terminated
import KhCommon.MessageQueue
import KhCommon.Caching.Order
import KhCommon.Caching.CacheKey
import KhCommon.Caching.KeyValueStore
import KhCommon.Caching.LocalExpiry
import KhCommon.Caching.PlainMap
import KhCommon.Caching.KeyValueStoreAsync
import KhCommon.Caching.Coherence
import KhCommon.Caching.Truncate
import KhCommon.Caching.ArgsCache
import KhCommon.Caching.AsyncAge
import KhCommon.Caching.AsyncCache
import KhCommon.Caching.Alike
import KhCommon.Caching.Transparent
import KhCommon.Caching.Canonical
import KhCommon.Caching.SimpleCache
import KhCommon.Caching.Aggregator
import KhCommon.Caching.Aggregate
import KhCommon.Caching.AggregateStatistics
import KhCommon.Caching.RejectedSample
import KhCommon.Caching.AerospikeCache
import KhCommon.Caching.DeclaredType
import KhCommon.Caching.Integer
import KhCommon.Auth.Token
import KhCommon.Auth.Soundness
import KhCommon.Auth.RoundTrip
import KhCommon.Auth.Serving
import KhCommon.Auth.Followed
import KhCommon.Auth.Expiry
import KhCommon.Auth.Errors
import KhCommon.Auth.Middleware
import KhCommon.Auth.FailClosed
import KhCommon.Auth.Failures
import KhCommon.Auth.VerifyScope
import KhCommon.Cors
import KhCommon.Sql.Query
import KhCommon.Sql.QueryParams
import KhCommon.Sql.Interface
import KhCommon.Sql.Transaction
import KhCommon.Sql.TransactionBlock
import KhCommon.Sql.FailedQuery
import KhCommon.Sql.Reconnect
import KhCommon.Sql.RetriedQuery
import KhCommon.Telegram.SplitMessage
import KhCommon.Telegram.Listener
import KhCommon.Telegram.Shutdown
import KhCommon.Telegram.ParseMessage
import KhCommon.Backblaze.Interface
import KhCommon.Backblaze.Upload
import KhCommon.Backblaze.FileInfo
import KhCommon.Backblaze.DeleteFile
import KhCommon.Backblaze.Retries
import KhCommon.Backblaze.Sequential
import KhCommon.Lib.CommitQueue
import KhCommon.MessageQueue.Broker
import KhCommon.Telegram.SendMessage
import KhCommon.Exceptions.BaseError
import KhCommon.Exceptions.HttpError
import KhCommon.Exceptions.Chain
import KhCommon.Exceptions.Secrecy
import KhCommon.Auth.Revocation
import KhCommon.Telegram.Delivery
import KhCommon.Caching.KeyValueStoreMany
import KhCommon.Caching.SimpleCacheAsync
import KhCommon.SecureFolders
import KhCommon.Server.ServerApp
import KhCommon.Sql.Page
import KhCommon.Sql.Threads
import KhCommon.Caching.AnswerAge
import KhCommon.Caching.IntegerShared
import KhCommon.Gateway.Shared
import KhCommon.Map
import KhCommon.Config.Credentials
import KhCommon.Telegram.Answers
