import Teuton.PyJson
import Teuton.Signatures
import Teuton.Protocol
import Teuton.ProtocolRoundTrip
import Teuton.CasCell
import Teuton.KeyedDict
import Teuton.OrchestratorQueue
import Teuton.QueueWriters
import Teuton.QueueAdditions
import Teuton.QueueDirtyFlags
import Teuton.QueueRemovals
import Teuton.BucketPaths
import Teuton.ObjectStore
import Teuton.ComputeUnits
import Teuton.ScoreWindows
import Teuton.VerdictBinding
import Teuton.CreditConservation
import Teuton.ArtifactCrypto
import Teuton.AuditReplay
import Teuton.PassedReceipts
import Teuton.ReplayVerifier
import Teuton.VerdictObjects
import Teuton.ScoreErasure
import Teuton.VerdictWrites
import Teuton.ScoreIsolation
import Teuton.IdentityChecks
import Teuton.JobEmission
import Teuton.RoundEmission
import Teuton.CryptoAgreement
import Teuton.Scheduler
import Teuton.AssignmentGrants
import Teuton.Discovery
import Teuton.Effects
import Teuton.Dispatch
import Teuton.StreamManager
import Teuton.StreamBackpressure
import Teuton.ReceiptDrain
import Teuton.RoundManager
import Teuton.QuotaReservations
import Teuton.PassedDigests
import Teuton.ByteWords
import Teuton.TensorIo
import Teuton.JsonBytes
import Teuton.RaisesOnly
import Teuton.CorruptOutputs
import Teuton.EnvelopeRoundTrip
import Teuton.JobExecution
import Teuton.ExecutionSteps
import Teuton.HonestWork
import Teuton.VerdictReach
import Teuton.AuditJobs
import Teuton.SelfAudits
import Teuton.AuditInfluence
import Teuton.StrandedAudits
import Teuton.MinerSafety
import Teuton.MinerMemory
import Teuton.DistributedExecution
import Teuton.GrantSufficiency
import Teuton.QueueVersions
import Teuton.RunTeardown
import Teuton.TimelockedReceipts
import Teuton.LiveWorkers
import Teuton.QueueRestart
import Teuton.InputDigests
import Teuton.WorkerProgress
import Teuton.Collectives
import Teuton.SplitMatrices
import Teuton.TensorParallel
import Teuton.TensorParallelForward
import Teuton.TensorParallelBackward
import Teuton.GptPipeTask
import Teuton.StressAttach
import Teuton.BuiltGraphs
import Teuton.ScoreMonotonicity
import Teuton.EpochQuota
import Teuton.AuditBacklog
import Teuton.FleetAdmission
import Teuton.RowMajor
import Teuton.TensorCodec
import Teuton.WeightPublication
import Teuton.ShardedTensors
import Teuton.EnvelopeAuthenticity
import Teuton.GrantSealing
import Teuton.GraphAddresses
import Teuton.InputReaders
import Teuton.KeyBuilders
import Teuton.TeardownScope
import Teuton.ReceiptScan
import Teuton.FileTrees
import Teuton.LocalStore
import Teuton.CacheAccounting
import Teuton.ContractionCosts
import Teuton.QueueBus
