import ByoRedis.Model.Store
import ByoRedis.Model.Resp

/-!
# Configuration

The fields of `Config` that the modelled code reads, with their defaults, and the checks
`config_from_args` makes before it builds one. Seconds given as `float` are rationals.
-/

set_option autoImplicit false

namespace ByoRedis.Model

/-- The settings of `--appendfsync`. -/
inductive AofFsync where
  | always
  | everysec
  | no
  deriving DecidableEq

/-- The settings of `--role`. -/
inductive Role where
  | master
  | replica
  deriving DecidableEq

/-- `Config`.
SOURCE: config.py:17-50 -/
structure Config where
  port : ℕ := 6379
  dir : Str := "./data".toList
  dbfilename : Str := "dump.rdb".toList
  aofEnabled : Bool := true
  aofFsync : AofFsync := .everysec
  role : Role := .master
  replicaofHost : Option Str := none
  replicaofPort : Option ℕ := none
  protoMaxBulkLen : ℕ := 16777216
  protoMaxArrayLen : ℕ := 1024
  maxArrayDepth : ℕ := 16
  maxBufferBytes : ℕ := 32000000
  partialTimeoutSec : ℚ := 30
  clientIdleTimeoutSec : ℚ := 300
  maxClients : ℕ := 1000
  maxAuthFailures : ℕ := 5
  aofQueueMaxCommands : ℕ := 10000
  aofEnqueueTimeoutSec : ℚ := 5
  replicaBacklogMaxBytes : ℕ := 67108864
  replicaPendingMaxCommands : ℕ := 10000
  persistenceMaxLoadBytes : ℕ := 1073741824
  maxmemoryBytes : ℕ := 0
  maxmemoryPolicy : MaxmemoryPolicy := .noeviction
  requirepass : Option Str := none
  masterauth : Option Str := none
  deriving DecidableEq

namespace Config

/-- `is_replica`. -/
def isReplica (cfg : Config) : Bool := cfg.role = .replica

/-- The checks of `config_from_args`.
SOURCE: config.py:231-270 -/
def accepted (cfg : Config) : Bool :=
  (1 ≤ cfg.port ∧ cfg.port ≤ 65535) ∧
  1024 ≤ cfg.protoMaxBulkLen ∧
  0 < cfg.protoMaxArrayLen ∧
  0 < cfg.maxArrayDepth ∧
  1024 ≤ cfg.maxBufferBytes ∧
  0 < cfg.partialTimeoutSec ∧
  0 < cfg.clientIdleTimeoutSec ∧
  0 < cfg.maxClients ∧
  0 < cfg.maxAuthFailures ∧
  0 < cfg.aofQueueMaxCommands ∧
  0 < cfg.aofEnqueueTimeoutSec ∧
  1024 ≤ cfg.replicaBacklogMaxBytes ∧
  0 < cfg.replicaPendingMaxCommands ∧
  1024 ≤ cfg.persistenceMaxLoadBytes ∧
  cfg.requirepass ≠ some [] ∧
  cfg.masterauth ≠ some []

/-- The limits of the parser `handle_client` builds for a connection.
SOURCE: server.py:273-278 -/
def clientLimits (cfg : Config) : Limits where
  maxBulkLen := cfg.protoMaxBulkLen
  maxBufferBytes := cfg.maxBufferBytes
  maxArrayLen := cfg.protoMaxArrayLen
  maxArrayDepth := cfg.maxArrayDepth

/-- The empty store `RedisServer.__init__` builds.
SOURCE: server.py:33-36 -/
def emptyStore (cfg : Config) : Store where
  maxmemoryBytes := cfg.maxmemoryBytes
  maxmemoryPolicy := cfg.maxmemoryPolicy

end Config

end ByoRedis.Model
