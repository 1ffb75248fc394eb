import QwerQ.Library.KeyedMap
import QwerQ.Library.Process
import QwerQ.Library.Run
import QwerQ.Message
import QwerQ.Group
import QwerQ.Queue
import QwerQ.Queue.Delivery
import QwerQ.Queue.Runs
import QwerQ.Queue.Ledger
import QwerQ.Queue.Lease
import QwerQ.Queue.Retries
import QwerQ.Group.Delivery
import QwerQ.Group.Ready
import QwerQ.Group.Runs
import QwerQ.Group.Ledger
import QwerQ.Broker
import QwerQ.Handlers
import QwerQ.Queue.Table
import QwerQ.Broker.Mirror
import QwerQ.Broker.Durability
import QwerQ.Broker.Recovery
import QwerQ.Broker.DeadLetter
import QwerQ.Broker.Crash
import QwerQ.Broker.Publish
import QwerQ.Library.Latch
import QwerQ.Broker.Trace
import QwerQ.Broker.PurgeRace
import QwerQ.Broker.AckRace
import QwerQ.Badger.Codec
import QwerQ.Queue.Fifo
import QwerQ.Badger.Store
import QwerQ.Badger.Isolation
import QwerQ.Broker.Load
import QwerQ.Broker.Restart
import QwerQ.Server
import QwerQ.Broker.Modes
import QwerQ.Server.Registry
import QwerQ.Server.Cleanup
import QwerQ.Server.Acks
import QwerQ.Cluster
import QwerQ.Library.Replicas
import QwerQ.Queue.Live
import QwerQ.Cluster.Agreement
import QwerQ.Cluster.Replay
import QwerQ.Cluster.Snapshot
import QwerQ.Group.Copies
import QwerQ.Queue.Ordering
import QwerQ.Queue.Groups
import QwerQ.Queue.Drain
import QwerQ.Queue.Membership
import QwerQ.Replicator
import QwerQ.Server.Settlement
import QwerQ.Cluster.NackParity
import QwerQ.Broker.Imprint
import QwerQ.Cluster.PublishParity
import QwerQ.Cluster.Restore
import QwerQ.Stream.Records
import QwerQ.Stream.Retention
import QwerQ.Stream.Sequence
import QwerQ.Stream.Delivery
import QwerQ.Stream.Stranded
import QwerQ.Library.Incremental
import QwerQ.Protocol.Frame
import QwerQ.TypeScript.Protocol
import QwerQ.Library.Protobuf
import QwerQ.Protocol.Messages
import QwerQ.Protocol.ClientCodec
import QwerQ.TypeScript.Codec
import QwerQ.TypeScript.Requests
import QwerQ.TypeScript.Messages
import QwerQ.Server.Sizes
import QwerQ.TypeScript.Connection
import QwerQ.Badger.Batcher
import QwerQ.Broker.Retry
import QwerQ.Broker.Refusal
import QwerQ.Broker.Dedup
import QwerQ.Stream.Age
import QwerQ.Library.Suffix
import QwerQ.Stream.Size
import QwerQ.Stream.Kept
import QwerQ.Broker.Purge
import QwerQ.Server.Survival
import QwerQ.Broker.Collision
import QwerQ.Queue.Attempts
import QwerQ.Broker.Attempts
import QwerQ.Library.Digits
import QwerQ.Ulid
import QwerQ.Broker.Order
import QwerQ.Queue.Exact
import QwerQ.Group.Members
import QwerQ.Library.Parser
import QwerQ.Badger.Truncation
import QwerQ.Protocol.PublishResponse
import QwerQ.Library.Channel
import QwerQ.Server.Calls
import QwerQ.Server.Replies
import QwerQ.Stream.Teardown
import QwerQ.Badger.Shutdown
import QwerQ.Badger.Streams
import QwerQ.Badger.Offsets
import QwerQ.Protocol.Writes
import QwerQ.Protocol.Publish
import QwerQ.Server.Schema
