import HybridDatabase.Base.Runs
import HybridDatabase.Storage.Safety
import HybridDatabase.Database.Readable
import HybridDatabase.Storage.Local
import HybridDatabase.Database.Local
import HybridDatabase.Database.Truncate
import HybridDatabase.Database.Changes
import HybridDatabase.Database.Rejected
import HybridDatabase.Database.Open
import HybridDatabase.Database.Reopen
import HybridDatabase.Service.Commit
import HybridDatabase.Service.Durable
import HybridDatabase.Base.UndoLog
import HybridDatabase.Transaction.Nodes
import HybridDatabase.Transaction.Effects
import HybridDatabase.Transaction.References
import HybridDatabase.Transaction.Replay
import HybridDatabase.Transaction.Pointers
import HybridDatabase.Service.Files
import HybridDatabase.Service.Rotation
import HybridDatabase.Database.Interrupted
import HybridDatabase.Allocator.Nodes
import HybridDatabase.Allocator.Slots
import HybridDatabase.Allocator.ForEach
import HybridDatabase.Database.Recorded
import HybridDatabase.Database.Stored
import HybridDatabase.Database.Enumerated
import HybridDatabase.Base.Locked
import HybridDatabase.Transaction.Shared
import HybridDatabase.Transaction.Footprint
import HybridDatabase.Transaction.Marks
import HybridDatabase.Transaction.Counts
import HybridDatabase.Transaction.Deletion
import HybridDatabase.Utils.FastStack
import HybridDatabase.Rollback.Memory
import HybridDatabase.Base.ShiftRegister
import HybridDatabase.Storage.Remainder
import HybridDatabase.Storage.Skip
import HybridDatabase.Service.Tokens
import HybridDatabase.Service.Delivery
import HybridDatabase.Transaction.Holders
import HybridDatabase.Transaction.Reclaimed
import HybridDatabase.Rollback.Items
import HybridDatabase.Rollback.Handle
import HybridDatabase.Rollback.ReadBack
import HybridDatabase.Rollback.Generic
import HybridDatabase.Rollback.Nested
import HybridDatabase.Rollback.Changes
import HybridDatabase.Rollback.Levels
import HybridDatabase.Stm.Machine
import HybridDatabase.Stm.Locks
import HybridDatabase.Stm.Reads
import HybridDatabase.Stm.Order
import HybridDatabase.Stm.Validation
import HybridDatabase.Stm.Serial
import HybridDatabase.Stm.Flat
import HybridDatabase.Stm.Nested
import HybridDatabase.Stm.Queue
import HybridDatabase.Stm.Dependencies
import HybridDatabase.Stm.Prefixes
import HybridDatabase.Storage.Burst
import HybridDatabase.Allocator.Ledger
import HybridDatabase.Database.Handles
import HybridDatabase.Utils.Stack
import HybridDatabase.Database.Schema
import HybridDatabase.Base.Logged
import HybridDatabase.Database.Tables
import HybridDatabase.Base.Chain
import HybridDatabase.Utils.NumDictionary
import HybridDatabase.Utils.DictionaryChains
import HybridDatabase.Utils.DictionaryMap
import HybridDatabase.Utils.DictionaryRuns
import HybridDatabase.Allocator.Linked
import HybridDatabase.Allocator.Handed
import HybridDatabase.Allocator.SlotRuns
import HybridDatabase.Allocator.DumpWalk
import HybridDatabase.Storage.Grammar
import HybridDatabase.Storage.Rescuer
import HybridDatabase.Storage.RescuerElements
import HybridDatabase.Storage.RescuerRuns
import HybridDatabase.Storage.Healthy
import HybridDatabase.Database.FileNames
import HybridDatabase.Storage.Canonical
import HybridDatabase.Transaction.Retry
import HybridDatabase.Service.CommitTypes
import HybridDatabase.Storage.WriterCalls
import HybridDatabase.Service.Buffered
import HybridDatabase.Utils.SList
import HybridDatabase.Utils.SListRuns
import HybridDatabase.Utils.PagedStacks
import HybridDatabase.Utils.PagedStackSteps
import HybridDatabase.Utils.PagedStackRuns
import HybridDatabase.Base.Durable
import HybridDatabase.Service.Recovery
import HybridDatabase.Allocator.Caches
import HybridDatabase.Allocator.Delayed
import HybridDatabase.Allocator.Released
import HybridDatabase.Base.Simulation
import HybridDatabase.Stm.Bundles
import HybridDatabase.Stm.CellRuns
import HybridDatabase.Stm.CellSerial
