import PGLogical.Machine.Run
import PGLogical.Soundness.Feedback
import PGLogical.Model.Relation
import PGLogical.Model.ProtoNative
import PGLogical.Model.Proto
import PGLogical.Soundness.Wire
import PGLogical.Model.Hooks
import PGLogical.Soundness.Repset
import PGLogical.Model.Backend
import PGLogical.Soundness.RepsetCache
import PGLogical.Model.Output
import PGLogical.Soundness.Output
import PGLogical.Model.Sync
import PGLogical.Model.SyncingTables
import PGLogical.Soundness.SyncingTables
import PGLogical.Model.Replay
import PGLogical.Soundness.Replay
import PGLogical.Model.TableSync
import PGLogical.Soundness.TableSync
import PGLogical.Soundness.TableSyncOnce
import PGLogical.Model.Worker
import PGLogical.Model.WorkerStartup
import PGLogical.Soundness.WorkerStartup
import PGLogical.Soundness.WorkerRecords
import PGLogical.Model.Manager
import PGLogical.Soundness.Manager
import PGLogical.Model.ManagerPass
import PGLogical.Soundness.ManagerPass
import PGLogical.Model.XactSignal
import PGLogical.Soundness.XactSignal
import PGLogical.Model.Conflict
import PGLogical.Soundness.Conflict
import PGLogical.Model.RowFilter
import PGLogical.Soundness.RowFilter
import PGLogical.Model.RelcacheInval
import PGLogical.Soundness.RelcacheInval
import PGLogical.Model.Node
import PGLogical.Model.NodeFunctions
import PGLogical.Machine.Fallible
import PGLogical.Soundness.Node
import PGLogical.Soundness.NodeRefs
import PGLogical.Soundness.SubscribedSets
import PGLogical.Soundness.SlotName
import PGLogical.Model.RepsetFunctions
import PGLogical.Soundness.RepsetIdentity
import PGLogical.Model.Copy
import PGLogical.Soundness.Copy
import PGLogical.Model.ProtoJson
import PGLogical.Soundness.Disclosure
import PGLogical.Model.Callbacks
import PGLogical.Soundness.Callbacks
import PGLogical.Model.MessageFormat
import PGLogical.Soundness.MessageFormat
import PGLogical.Model.ReplicationHandler
import PGLogical.Soundness.MessageGrammar
import PGLogical.Machine.Contract
import PGLogical.Model.SyncSubscription
import PGLogical.Soundness.SyncSubscription
import PGLogical.Model.ApplyTuple
import PGLogical.Soundness.AppliedRow
import PGLogical.Model.RowHandlers
import PGLogical.Soundness.RowHandlers
import PGLogical.Soundness.RowRelease
import PGLogical.Soundness.RowTriggers
import PGLogical.Soundness.InsertConflict
import PGLogical.Soundness.ReplicaIdentity
import PGLogical.Model.OriginEmulation
import PGLogical.Soundness.OriginEmulation
import PGLogical.Model.RepsetTuple
import PGLogical.Soundness.RepsetTuple
import PGLogical.Model.DependencyCheck
import PGLogical.Soundness.SequenceState
import PGLogical.Soundness.DependencyCheck
import PGLogical.Soundness.SequenceTracking
import PGLogical.Model.StartupMessage
import PGLogical.Soundness.StartupMessage
import PGLogical.Model.CopyColumns
import PGLogical.Soundness.CopyColumns
import PGLogical.Model.ReplicationCommand
import PGLogical.Soundness.ReplicationCommand
import PGLogical.Model.TruncateTrigger
import PGLogical.Soundness.TruncateTrigger
import PGLogical.Model.QueueMessage
import PGLogical.Soundness.QueueMessage
import PGLogical.Soundness.QueueRoundTrip
import PGLogical.Model.TruncateQueue
import PGLogical.Soundness.TruncateQueue
import PGLogical.Soundness.SequenceAhead
import PGLogical.Model.OutputConfig
import PGLogical.Soundness.OutputConfig
import PGLogical.Model.NodeInfo
import PGLogical.Soundness.NodeInfo
import PGLogical.Soundness.SlotLength
import PGLogical.Machine.Loop
import PGLogical.Model.PGArray
import PGLogical.Soundness.PGArray
import PGLogical.Model.Connstr
import PGLogical.Soundness.Connstr
import PGLogical.Wire.JsonValue
import PGLogical.Soundness.JsonOutput
import PGLogical.Model.Transfer
import PGLogical.Soundness.Delivery
import PGLogical.Soundness.Transfer
import PGLogical.Soundness.SessionGrammar
import PGLogical.Wire.Emits
import PGLogical.Soundness.SentFormat
import PGLogical.Model.Replica
import PGLogical.Soundness.RowReturns
import PGLogical.Soundness.Replica
import PGLogical.Model.Mesh
import PGLogical.Soundness.Mesh
import PGLogical.Model.CreateSubscriber
import PGLogical.Soundness.CreateSubscriber
import PGLogical.Model.Handshake
import PGLogical.Soundness.Handshake
