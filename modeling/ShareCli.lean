import ShareCli.Cast.Proofs.CasterProofs
import ShareCli.Commands.AgentCallPolicy
import ShareCli.Commands.ConfigEdit
import ShareCli.Commands.ProcSort
import ShareCli.Commands.Undo
import ShareCli.Configuration.Watcher
import ShareCli.Coordination.CommandLocks
import ShareCli.Coordination.PriorityQueue
import ShareCli.Core.Proofs.HypervisorProofs
import ShareCli.Core.Proofs.SpeculativeCoalescerProofs
import ShareCli.Core.Proofs.TransactionContractProofs
import ShareCli.Fleet.Proofs.ProcScanProofs
import ShareCli.Fuse.DirScan
import ShareCli.Fuse.PathRemap
import ShareCli.Fuse.Proofs.CowRefinementProofs
import ShareCli.Fuse.Proofs.NegDentryProofs
import ShareCli.Fuse.Proofs.ProvenanceProofs
import ShareCli.Fuse.Proofs.StoreLockProofs
import ShareCli.Gateway.DnsMessage
import ShareCli.Gateway.HistogramMetrics
import ShareCli.Gateway.JsonPatch
import ShareCli.Gateway.JwtHs256
import ShareCli.Gateway.M3uParser
import ShareCli.Gateway.PemCodec
import ShareCli.Gateway.Pkcs7Padding
import ShareCli.Gateway.PrometheusExposition
import ShareCli.Gateway.Proofs.RespAcceptanceProofs
import ShareCli.Gateway.TlsRecord
import ShareCli.Ipc.LogBuffer
import ShareCli.Ipc.Proofs.PidfileProofs
import ShareCli.Ipc.Proofs.QueueProofs
import ShareCli.Ipc.Proofs.ServeLockProofs
import ShareCli.Ipc.Proofs.SlotQueueProofs
import ShareCli.Mesh.Proofs.OwnershipProofs
import ShareCli.Mesh.Proofs.WorktreePoolProofs
import ShareCli.Serve.AuditLog
import ShareCli.Serve.Proofs.HealthCheckProofs
import ShareCli.Serve.Proofs.RateLimitProofs
import ShareCli.Session.Proofs.DiscoveryProofs
import ShareCli.Session.Proofs.EventStreamProofs
import ShareCli.Session.Proofs.LedgerProofs
import ShareCli.Session.Recovery
import ShareCli.Session.SidecarState
import ShareCli.Session.Subscription
import ShareCli.Spawn.Proofs.SemaphoreProofs
import ShareCli.Spawn.Proofs.SpawnEnvProofs
import ShareCli.Spawn.Waitpid
import ShareCli.Teamcomm.Proofs.AcceptProofs
import ShareCli.Teamcomm.Proofs.InboxProofs
import ShareCli.Teamcomm.Proofs.LifecycleProofs
import ShareCli.Teamcomm.Proofs.LifetimeProofs
import ShareCli.Teamcomm.Proofs.RetentionProofs
