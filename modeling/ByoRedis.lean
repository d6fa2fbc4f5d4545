import ByoRedis.Analysis.Unauthenticated
import ByoRedis.Analysis.TornTail
import ByoRedis.Analysis.EvictionReplay
import ByoRedis.Analysis.FailedPersistence
import ByoRedis.Analysis.FullResync
import ByoRedis.Analysis.Restart
import ByoRedis.Analysis.ValueRoundTrip
import ByoRedis.Analysis.RdbCorruption
import ByoRedis.Analysis.Saving
import ByoRedis.Analysis.LazyExpiry
import ByoRedis.Analysis.DroppedLinks
import ByoRedis.Analysis.ReplicaStream
import ByoRedis.Analysis.Rejection
import ByoRedis.Analysis.EvictionOrder
import ByoRedis.Analysis.SnapshotSize
import ByoRedis.Analysis.ReplicaAof
import ByoRedis.Analysis.Replies
import ByoRedis.Analysis.SaveRace
import ByoRedis.Analysis.SavedOnDisk
import ByoRedis.Analysis.AppendAlone
import ByoRedis.Analysis.StuckAppends
import ByoRedis.Analysis.DurableAppends
import ByoRedis.Analysis.RewriteLimits
import ByoRedis.Analysis.FreeingMemory
import ByoRedis.Analysis.FrameTimeout
import ByoRedis.Analysis.HeaderSpelling
import ByoRedis.Analysis.Authentication
import ByoRedis.Analysis.ListQueue
import ByoRedis.Analysis.WireReplication
import ByoRedis.Analysis.LinkAccounts
import ByoRedis.Analysis.SavedMoments
import ByoRedis.Analysis.LogAhead
import ByoRedis.Analysis.RdbGrammar
import ByoRedis.Analysis.ReconnectingReplica
import ByoRedis.Analysis.KilledRestart
import ByoRedis.Analysis.WriteAnswered
