import OriginDB.Lib.Bytes
import OriginDB.Lib.OrdMap
import OriginDB.Lib.Machine
import OriginDB.Lib.GuardedReplay
import OriginDB.Storage.Table
import OriginDB.Storage.RowCodec
import OriginDB.Storage.WalFile
import OriginDB.Storage.WalWriter
import OriginDB.Storage.WalProtocol
import OriginDB.Storage.WalSafety
import OriginDB.Lib.Json
import OriginDB.Storage.RowJson
import OriginDB.Storage.Snapshot
import OriginDB.Storage.Engine
import OriginDB.Storage.Database
import OriginDB.Storage.Logging
import OriginDB.Storage.Atomicity
import OriginDB.Storage.Recovery
import OriginDB.Storage.Server
import OriginDB.Storage.History
import OriginDB.Storage.ServerInv
import OriginDB.Storage.CrashSafety
import OriginDB.Storage.PowerLoss
import OriginDB.Storage.ReplayFidelity
import OriginDB.Changefeed.Events
import OriginDB.Changefeed.Publish
import OriginDB.Lib.Numbers
import OriginDB.Changefeed.Predicate
import OriginDB.Changefeed.Subscription
import OriginDB.Storage.Store
import OriginDB.Sql.Parser
import OriginDB.Sql.Engine
import OriginDB.Storage.WriteSets
import OriginDB.Wasm.HostCalls
import OriginDB.Wasm.Execute
import OriginDB.Wasm.StagedWrites
import OriginDB.Wasm.Contention
import OriginDB.Wasm.Deploy
import OriginDB.Wasm.HotSwap
import OriginDB.Changefeed.Visibility
import OriginDB.Changefeed.Frames
import OriginDB.Lib.Replica
import OriginDB.Changefeed.Convergence
import OriginDB.Changefeed.Wakeup
import OriginDB.Wasm.Confinement
import OriginDB.Sql.ConcurrentUpdate
import OriginDB.Websocket.Sockets
import OriginDB.Websocket.Messages
import OriginDB.Websocket.Identity
import OriginDB.Wasm.StoreFiles
import OriginDB.Storage.SchemaDurability
import OriginDB.Wasm.CallEffect
import OriginDB.Wasm.FailedDeploy
import OriginDB.Wasm.Versions
import OriginDB.Wasm.DeployRace
import OriginDB.Changefeed.CommitEvents
import OriginDB.Websocket.Routing
import OriginDB.Storage.GroupCommit
import OriginDB.Changefeed.FanOut
import OriginDB.Changefeed.DeliveryOrder
import OriginDB.Storage.Statistics
import OriginDB.Lib.JsonText
import OriginDB.Storage.Checkpointable
import OriginDB.Lib.Throwing
import OriginDB.Websocket.Lifecycle
import OriginDB.Websocket.Framing
import OriginDB.Websocket.Handlers
import OriginDB.Websocket.CallReply
import OriginDB.Websocket.Reports
import OriginDB.Websocket.HandleClient
import OriginDB.Lib.Doubles
import OriginDB.Lib.Utf16
import OriginDB.Lib.Pointer
import OriginDB.Storage.TornTail
import OriginDB.Storage.SchemaCodec
import OriginDB.Changefeed.Grammar
import OriginDB.Changefeed.PredicateCursor
import OriginDB.Changefeed.Tokens
import OriginDB.Changefeed.Printing
import OriginDB.Changefeed.LikePattern
import OriginDB.Changefeed.IntegerComparison
import OriginDB.Changefeed.Prefixes
import OriginDB.Changefeed.SelectText
import OriginDB.Websocket.AreaOfInterest
import OriginDB.Websocket.SnapshotRows
import OriginDB.Sql.SubscribedTable
import OriginDB.Sql.ReadOnly
import OriginDB.Websocket.AllTables
import OriginDB.Lib.Slices
import OriginDB.Websocket.Slicing
import OriginDB.Websocket.FrameCodec
import OriginDB.Websocket.Segmentation
import OriginDB.Websocket.Fragments
import OriginDB.Websocket.EventIds
import OriginDB.Websocket.Output
import OriginDB.Websocket.Projection
import OriginDB.Lib.FirstDifference
import OriginDB.Wasm.VersionOrder
import OriginDB.Wasm.GeneratedIds
import OriginDB.Changefeed.Retention
import OriginDB.Changefeed.Paging
import OriginDB.Changefeed.Metrics
import OriginDB.Lib.Memo
import OriginDB.Storage.JsonCache
import OriginDB.Storage.ReadYourWrites
import OriginDB.Sql.InsertExisting
import OriginDB.Sql.SetList
import OriginDB.Lib.Access
import OriginDB.Sql.Accesses
import OriginDB.Lib.Respelling
import OriginDB.Lib.NumberCase
import OriginDB.Lib.Words
import OriginDB.Lib.Spellings
import OriginDB.Sql.Spellings
import OriginDB.Sql.KeywordCase
import OriginDB.Lib.Layers
import OriginDB.Wasm.MergedScan
import OriginDB.Wasm.TickPhase
import OriginDB.Lib.Fairness
import OriginDB.Wasm.TickScheduler
import OriginDB.Wasm.TickProgress
import OriginDB.Wasm.Stopping
import OriginDB.Changefeed.Barrier
import OriginDB.Common.AuthManager
import OriginDB.Websocket.FailClosed
import OriginDB.Lib.Positioned
import OriginDB.Websocket.BinaryProtocol
import OriginDB.Websocket.BinaryConverter
import OriginDB.Lib.JsonGrammar
import OriginDB.Sdk.JsonValue
import OriginDB.Sdk.JsonParser
import OriginDB.Sdk.JsonTokens
import OriginDB.Sdk.JsonKinds
import OriginDB.Sdk.JsonRoundTrip
import OriginDB.Sdk.JsonAccepts
import OriginDB.Lib.Base64
import OriginDB.Wasm.HostBase64
import OriginDB.Sdk.Base64
import OriginDB.Lib.LinearMemory
import OriginDB.Wasm.GuestMemory
import OriginDB.Sdk.HostTexts
import OriginDB.Sdk.WriteBack
import OriginDB.Sdk.JsonAccess
import OriginDB.Sdk.JsonNormal
import OriginDB.Sdk.Invocation
import OriginDB.Sdk.Filters
import OriginDB.Sdk.Describe
import OriginDB.Storage.Transactions
import OriginDB.Websocket.BinaryMessages
import OriginDB.Lib.TwoIndexes
import OriginDB.Websocket.WasmSubscriptions
import OriginDB.Websocket.EventQueue
import OriginDB.Wasm.Imports
