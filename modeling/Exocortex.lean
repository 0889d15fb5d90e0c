import Exocortex.Storage.Discoveries
import Exocortex.Storage.Feed
import Exocortex.Dreams.Recovery
import Exocortex.Dreams.LostAck
import Exocortex.Dreams.MergeEffects
import Exocortex.Dreams.Abstractions
import Exocortex.Reasoning.Soundness
import Exocortex.Dreams.WriteCounts
import Exocortex.Dreams.LocalCounters
import Exocortex.Dreams.FireQueue
import Exocortex.Client.Backup
import Exocortex.Client.ReadBack
import Exocortex.Server.Noninterference
import Exocortex.Server.CorpusExport
import Exocortex.Server.VisibilityRule
import Exocortex.Client.FeedEvents
import Exocortex.Ops.ActionPreflight
import Exocortex.Adapter.Replication
import Exocortex.Cache.TraversalBounds
import Exocortex.Cache.Accounting
import Exocortex.Cache.SearchExact
import Exocortex.Storage.VisibilityOrder
import Exocortex.Ops.Promotion
import Exocortex.Adapter.Rewinds
import Exocortex.Client.BatchIds
import Exocortex.Ingest.Signing
import Exocortex.Kernel.TypeIds
import Exocortex.Kernel.Divergence
import Exocortex.Client.SseParser
import Exocortex.Kernel.HexDecoders
import Exocortex.Storage.Settlements
import Exocortex.Dreams.LeaseRelease
import Exocortex.Dreams.Transitive
import Exocortex.Client.SchemaInlining
import Exocortex.Ingest.RegionDeltas
import Exocortex.Ingest.Entities
import Exocortex.Cluster.Base64
import Exocortex.Adapter.AvroFraming
import Exocortex.Adapter.ReplicationFrames
import Exocortex.Resolution.Blocking
import Exocortex.Adapter.PartitionOverlay
import Exocortex.Adapter.GithubPartition
import Exocortex.Client.SyncLoop
