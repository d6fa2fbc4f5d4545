import ByoRedis.Model.Commands
import ByoRedis.Model.Master

/-!
# The server

`byo_redis/server.py`: the server's state, command dispatch and `_execute`. A command is
executed in two parts, as the event loop sees it. `prepare` is everything up to the first
await: the gates, the handler and the memory limit. What it leaves to do is a list of
records, each appended to the AOF and then propagated by `commit`; other tasks may run
between two of them. `execute` is the whole of it without interruption.

What the operating system decides is an argument: `Env` for the clock and the gauges that
INFO reads, `RecordIO` for the fate of one record.
-/

set_option autoImplicit false

namespace ByoRedis.Model

open ByoRedis.Lib

/-! ## The append-only log as the server drives it -/

/-- `AOFLog`: the file at `aof_path`, whether it is open for append, and the text of the
failure that makes it unhealthy. -/
structure AofLog where
  file : Option Bytes := none
  opened : Bool := false
  failure : Option Str := none
  deriving DecidableEq

/-- The fate of one record: it is written; `write` raises; it is written and the fsync of
the policy `always` raises; the periodic fsync of `everysec` raises while the record is
still queued, or after it was written; the queue stays full.
SOURCE: persistence/aof.py:100-165 -/
inductive WriteFault where
  | none
  | writeFails (text : Str)
  | fsyncFails (text : Str)
  | dropped (text : Str)
  | degraded (text : Str)
  | queueFull
  deriving DecidableEq

namespace AofLog

/-- `healthy`. -/
def healthy (a : AofLog) : Bool := a.failure.isNone

/-- `_write_sync` on a file opened for append. -/
def write (a : AofLog) (payload : Bytes) : AofLog :=
  { a with file := some (a.file.getD [] ++ payload) }

/-- `open`: the file is created when it does not exist.
SOURCE: persistence/aof.py:77-88 -/
def openLog (cfg : Config) (a : AofLog) : AofLog :=
  if cfg.aofEnabled then { file := some (a.file.getD []), opened := true } else a

/-- `append`, up to the completion of its record; an error is the text of the `OSError`.
SOURCE: persistence/aof.py:167-186 -/
def append (cfg : Config) (a : AofLog) (argv : Command) (fault : WriteFault) :
    Except Str Unit × AofLog :=
  if !cfg.aofEnabled || !a.opened then (.ok (), a)
  else
    match a.failure with
    | some text => (.error ("AOF is unhealthy: ".toList ++ text), a)
    | none =>
      let payload := encodeCommand argv
      match fault with
      | .none => (.ok (), a.write payload)
      | .writeFails text => (.error text, { a with failure := some text })
      | .fsyncFails text =>
        if cfg.aofFsync = .always then (.error text, { a.write payload with failure := some text })
        else (.ok (), a.write payload)
      | .dropped text =>
        if cfg.aofFsync = .everysec then (.error text, { a with failure := some text })
        else (.ok (), a.write payload)
      | .degraded text =>
        if cfg.aofFsync = .everysec then (.ok (), { a.write payload with failure := some text })
        else (.ok (), a.write payload)
      | .queueFull => (.error "AOF queue is full".toList, a)

/-- `_replace_file_sync` when every file operation succeeds.
SOURCE: persistence/aof.py:196-211 -/
def replaceFile (a : AofLog) (payload : Bytes) : AofLog :=
  { a with file := some payload, opened := true }

end AofLog

/-! ## The state -/

/-- `RedisServer`. `connections` are the keys of `_writers`, and `unregisters` the
connections for which an `unregister` task has been created and has not run.
SOURCE: server.py:30-73 -/
structure Server where
  config : Config
  store : Store
  aof : AofLog := {}
  master : MasterReplication
  rdbFile : Option Bytes := none
  lastSaveTime : ℤ := 0
  bgsaveInProgress : Bool := false
  aofRewriteInProgress : Bool := false
  replicaLinkUp : Bool := false
  connections : List ℕ := []
  authenticated : List ℕ := []
  authFailures : Dict ℕ ℕ := Dict.empty
  clientCount : ℕ := 0
  totalConnectionsReceived : ℕ := 0
  rejectedConnections : ℕ := 0
  totalCommandsProcessed : ℕ := 0
  totalCommandsFailed : ℕ := 0
  unregisters : List ℕ := []

/-- `RedisServer.__init__` in a data directory with the given files. -/
def Server.init (cfg : Config) (replid : Replid) (aofFile rdbFile : Option Bytes) : Server where
  config := cfg
  store := cfg.emptyStore
  aof := { file := aofFile }
  master :=
    { backlogMaxBytes := cfg.replicaBacklogMaxBytes
      pendingMaxCommands := cfg.replicaPendingMaxCommands
      replid := replid }
  rdbFile := rdbFile

/-- What the environment decides during a command: `now_ms()`, `int(time.time())`, the
gauges that INFO shows, and the text of an `OSError` in the file operations of SAVE. -/
structure Env where
  now : ℤ := 0
  time : ℤ := 0
  uptimeSeconds : ℕ := 0
  aofPendingCommands : ℕ := 0
  aofLastFsyncTime : ℤ := 0
  saveError : Option Str := none

/-- The keyword arguments of `_execute` that its callers set. -/
structure Flags where
  isReplicaClient : Bool := false
  isLoading : Bool := false
  deriving DecidableEq

/-- A client's command. -/
def Flags.client : Flags := {}

/-- `_apply_replicated_command`.
SOURCE: server.py:577-578 -/
def Flags.replicated : Flags := { isReplicaClient := true }

/-- The replay of `_load_persistence`.
SOURCE: server.py:231-232 -/
def Flags.loading : Flags := { isReplicaClient := true, isLoading := true }

/-- The fate of one record: in the AOF, and at the writer of each live replica. -/
structure RecordIO where
  fault : WriteFault := .none
  fails : ℕ → Bool := fun _ => false

namespace Server

/-! ## Handlers that reach into the server -/

/-- `authenticate`.
SOURCE: server.py:537-550 -/
def authenticate (srv : Server) (conn : ℕ) (password : Bytes) : Bool × Server :=
  match srv.config.requirepass with
  | none => (false, srv)
  | some configured =>
    if encodeUtf8 configured ≠ password then
      (false, { srv with
        authFailures := srv.authFailures.insert conn ((srv.authFailures.get? conn).getD 0 + 1) })
    else
      (true, { srv with
        authenticated := if conn ∈ srv.authenticated then srv.authenticated
          else srv.authenticated ++ [conn]
        authFailures := srv.authFailures.erase conn })

/-- `cmd_auth`.
SOURCE: commands/connection_cmds.py:40-48 -/
def cmdAuth (srv : Server) (conn : ℕ) (argv : Command) : Handled × Server :=
  match argv with
  | [_, password] =>
    if srv.config.requirepass.isNone then
      (.error "ERR AUTH called without any password configured".toList, srv)
    else
      match srv.authenticate conn password with
      | (true, srv) => (.ok, srv)
      | (false, srv) => (.error "WRONGPASS invalid username-password pair".toList, srv)
  | _ => (.error (wrongArity "auth"), srv)

/-- The text of a policy in INFO. -/
def policyText : MaxmemoryPolicy → Str
  | .noeviction => "noeviction".toList
  | .allkeysLru => "allkeys-lru".toList
  | .volatileTtl => "volatile-ttl".toList

/-- The lines of INFO between its keyspace figures and its end.
SOURCE: commands/server_cmds.py:20-69 -/
def infoLines (srv : Server) (env : Env) (keys expires : ℕ) (avgTtl : ℤ) (used : ℕ) : List Str :=
  let flag (b : Bool) : Str := if b then "1".toList else "0".toList
  let cfg := srv.config
  ["# Server".toList,
    "redis_version:0.2.2".toList,
    "redis_mode:standalone".toList,
    "tcp_port:".toList ++ natText cfg.port,
    "uptime_in_seconds:".toList ++ natText env.uptimeSeconds,
    "total_connections_received:".toList ++ natText srv.totalConnectionsReceived,
    "rejected_connections:".toList ++ natText srv.rejectedConnections,
    "total_commands_processed:".toList ++ natText srv.totalCommandsProcessed,
    "total_commands_failed:".toList ++ natText srv.totalCommandsFailed,
    "used_memory:".toList ++ natText used,
    "maxmemory:".toList ++ natText cfg.maxmemoryBytes,
    "maxmemory_policy:".toList ++ policyText cfg.maxmemoryPolicy,
    "evicted_keys:".toList ++ natText srv.store.evictedKeys,
    [],
    "# Clients".toList,
    "connected_clients:".toList ++ natText srv.clientCount,
    "maxclients:".toList ++ natText cfg.maxClients,
    [],
    "# Replication".toList,
    "role:".toList ++ (if cfg.isReplica then "slave".toList else "master".toList)] ++
  (if cfg.isReplica then
    ["master_host:".toList ++ cfg.replicaofHost.getD [],
      "master_port:".toList ++ natText (cfg.replicaofPort.getD 0),
      "master_link_status:".toList ++
        (if srv.replicaLinkUp then "up".toList else "down".toList)]
  else ["connected_slaves:".toList ++ natText srv.master.connectedReplicas]) ++
  [[],
    "# Keyspace".toList,
    "db0:keys=".toList ++ natText keys ++ ",expires=".toList ++ natText expires ++
      ",avg_ttl=".toList ++ intText avgTtl,
    [],
    "# Persistence".toList,
    "aof_enabled:".toList ++ flag cfg.aofEnabled,
    "aof_pending_commands:".toList ++ natText env.aofPendingCommands,
    "aof_healthy:".toList ++ flag srv.aof.healthy,
    "aof_last_fsync_time:".toList ++ intText env.aofLastFsyncTime,
    "aof_rewrite_in_progress:".toList ++ flag srv.aofRewriteInProgress,
    "rdb_last_save_time:".toList ++ intText srv.lastSaveTime]

/-- `cmd_info`. The section argument changes nothing but the arity check. `str` refuses a
mean TTL of more than `maxStrDigits` digits.
SOURCE: commands/server_cmds.py:13-83 -/
def cmdInfo (srv : Server) (env : Env) (argv : Command) : Handled × Server :=
  if 2 < argv.length then (.error (wrongArity "info"), srv)
  else
    let stats := srv.store.keyspaceStats env.now
    let used := stats.2.memoryUsage env.now
    let srv := { srv with store := used.2 }
    if maxStrDigits < (natText stats.1.2.2.natAbs).length then (.internal, srv)
    else
      let lines := srv.infoLines env stats.1.1 stats.1.2.1 stats.1.2.2 used.1
      (.value (.bytes (lines.flatMap fun line => encodeUtf8 line ++ crlf)), srv)

/-- `cmd_save` with `save_rdb_sync`.
SOURCE: commands/server_cmds.py:86-94, server.py:580-582, persistence/rdb.py:116-125 -/
def cmdSave (srv : Server) (env : Env) (argv : Command) : Handled × Server :=
  if argv.length ≠ 1 then (.error (wrongArity "save"), srv)
  else
    let taken := srv.store.snapshot env.now
    let srv := { srv with store := taken.2 }
    match dumpRdbEntries taken.1 with
    | none => (.internal, srv)
    | some payload =>
      match env.saveError with
      | some text => (.error ("ERR SAVE failed: ".toList ++ text), srv)
      | none => (.ok, { srv with rdbFile := some payload, lastSaveTime := env.time })

/-- `cmd_bgsave` with `schedule_bgsave`.
SOURCE: commands/server_cmds.py:97-104, server.py:584-589 -/
def cmdBgsave (srv : Server) (argv : Command) : Handled × Server :=
  if argv.length ≠ 1 then (.error (wrongArity "bgsave"), srv)
  else if srv.bgsaveInProgress then
    (.error "ERR Background save already in progress".toList, srv)
  else (.simple "Background saving started", { srv with bgsaveInProgress := true })

/-- `cmd_bgrewriteaof` with `schedule_aof_rewrite`.
SOURCE: commands/server_cmds.py:107-115, server.py:625-630 -/
def cmdBgrewriteaof (srv : Server) (argv : Command) : Handled × Server :=
  if argv.length ≠ 1 then (.error (wrongArity "bgrewriteaof"), srv)
  else if !srv.config.aofEnabled then (.error "ERR AOF is disabled".toList, srv)
  else if srv.aofRewriteInProgress then
    (.error "ERR Background append only file rewriting already in progress".toList, srv)
  else
    (.simple "Background append only file rewriting started",
      { srv with aofRewriteInProgress := true })

/-- `full_resync` with nothing running in between: registration and snapshot, header and
RDB, and the switch to live with an empty backlog. A failed encoding unregisters the
link and raises, which is `false`.
SOURCE: replication/master.py:126-204 -/
def fullResync (srv : Server) (now : ℤ) (conn : ℕ) : Bool × Server :=
  let registered := srv.master.registerSyncing conn
  let taken := srv.store.snapshot now
  let srv := { srv with store := taken.2, master := registered }
  match dumpRdbEntries taken.1 with
  | none => (false, { srv with master := srv.master.unregister conn })
  | some rdb =>
    let payload := MasterReplication.fullresyncPayload registered.replid.text registered.offset rdb
    (true, { srv with master := ((srv.master.writeLink conn payload).takeBatch conn).2 })

/-- `cmd_psync` with `handle_psync`, which only a replica's own clients reach.
SOURCE: commands/repl_cmds.py:16-20, server.py:645-650 -/
def cmdPsync (srv : Server) (env : Env) (conn : ℕ) (argv : Command) : Handled × Server :=
  if argv.length ≠ 3 then (.error (wrongArity "psync"), srv)
  else if conn ∉ srv.connections then
    (.error "ERR PSYNC requires active connection".toList, srv)
  else
    match srv.fullResync env.now conn with
    | (true, srv) => (.noReply, srv)
    | (false, srv) => (.internal, srv)

/-! ## Dispatch -/

/-- Running a handler that needs only the store. -/
def onStore (srv : Server) (r : Handled × Store) : Handled × Server :=
  (r.1, { srv with store := r.2 })

/-- The registered handler of a command. -/
def handle (srv : Server) (env : Env) (conn : ℕ) (argv : Command) :
    CommandName → Handled × Server
  | .ping => (cmdPing argv, srv)
  | .echo => (cmdEcho argv, srv)
  | .select => (cmdSelect argv, srv)
  | .command => (cmdCommand argv, srv)
  | .auth => srv.cmdAuth conn argv
  | .set => srv.onStore (cmdSet env.now argv srv.store)
  | .get => srv.onStore (cmdGet env.now argv srv.store)
  | .expire => srv.onStore (cmdExpire env.now argv srv.store)
  | .ttl => srv.onStore (cmdTtl env.now argv srv.store)
  | .lpush => srv.onStore (cmdLpush env.now argv srv.store)
  | .rpop => srv.onStore (cmdRpop env.now argv srv.store)
  | .hset => srv.onStore (cmdHset env.now argv srv.store)
  | .hgetall => srv.onStore (cmdHgetall env.now argv srv.store)
  | .info => srv.cmdInfo env argv
  | .save => srv.cmdSave env argv
  | .bgsave => srv.cmdBgsave argv
  | .bgrewriteaof => srv.cmdBgrewriteaof argv
  | .config => (cmdConfig srv.config argv, srv)
  | .del => srv.onStore (cmdDel env.now argv srv.store)
  | .dbsize => srv.onStore (cmdDbsize env.now argv srv.store)
  | .replconf => (cmdReplconf argv, srv)
  | .psync => srv.cmdPsync env conn argv

/-- `CommandRegistry.dispatch`.
SOURCE: commands/registry.py:37-58 -/
def dispatch (srv : Server) (env : Env) (flags : Flags) (conn : ℕ) (argv : Command) :
    Handled × Server :=
  match argv with
  | [] => (.error "ERR empty command".toList, srv)
  | name :: _ =>
    match CommandName.lookup name with
    | none => (.error (unknownCommand name), srv)
    | some c =>
      if srv.config.isReplica && isWrite argv && !flags.isReplicaClient && !flags.isLoading then
        (.error readonlyError, srv)
      else srv.handle env conn argv c

/-! ## `_execute` -/

/-- What is left of a command after its synchronous part: nothing but a reply, or records
to commit before the reply is sent. -/
inductive Prepared where
  | done (reply : Option Bytes)
  | records (commands : List Command) (propagates : Bool) (reply : Bytes)

/-- A reply that counts as a failed command. -/
def fail (srv : Server) (message : Str) : Prepared × Server :=
  (.done (some (encodeError message)),
    { srv with totalCommandsFailed := srv.totalCommandsFailed + 1 })

/-- The gate on unauthenticated connections.
SOURCE: server.py:437-445 -/
def noauth (srv : Server) (flags : Flags) (conn : ℕ) (argv : Command) : Bool :=
  srv.config.requirepass.isSome && conn ∉ srv.authenticated && upperName argv ≠ ascii "AUTH" &&
    !flags.isLoading && !flags.isReplicaClient

/-- The gate on writes while the AOF is unhealthy.
SOURCE: server.py:446-454 -/
def misconf (srv : Server) (flags : Flags) (argv : Command) : Bool :=
  isWrite argv && srv.config.aofEnabled && !srv.aof.healthy && !flags.isLoading &&
    !flags.isReplicaClient

/-- The error of a write that the memory limit refuses. -/
def oomError : Str := "OOM command not allowed when used memory > maxmemory".toList

/-- The record of an eviction. -/
def evictionRecord (key : Bytes) : Command := [ascii "DEL", key]

/-- The choice of the records of a command that succeeded.
SOURCE: server.py:493-535 -/
def hooks (srv : Server) (flags : Flags) (argv : Command) (evicted : List Bytes)
    (v : PyValue) : Prepared :=
  if isWrite argv && !flags.isLoading && !flags.isReplicaClient && !srv.config.isReplica then
    .records (argv :: evicted.map evictionRecord) true (encodeValue v)
  else if isWrite argv && flags.isReplicaClient && !flags.isLoading then
    .records [argv] false (encodeValue v)
  else .done (some (encodeValue v))

/-- The part of `_execute_inner` after the handler: the memory limit with its rollback to
`before`, then the hooks. `none` is the sentinel `_NO_CLIENT_REPLY`.
SOURCE: server.py:475-498 -/
def settle (srv : Server) (env : Env) (flags : Flags) (argv : Command) (before : Entries)
    (result : Option PyValue) : Prepared × Server :=
  let limited := if isWrite argv then srv.store.enforceMemoryLimit env.now
    else (some [], srv.store)
  match limited with
  | (none, store) => ({ srv with store := store.loadEntries before }).fail oomError
  | (some evicted, store) =>
    let srv := { srv with store := store }
    match result with
    | none => (.done none, srv)
    | some v => (srv.hooks flags argv evicted v, srv)

/-- `_execute_inner` up to its first await.
SOURCE: server.py:436-498 -/
def prepare (srv : Server) (env : Env) (flags : Flags) (conn : ℕ) (argv : Command) :
    Prepared × Server :=
  if srv.noauth flags conn argv then srv.fail "NOAUTH Authentication required.".toList
  else if srv.misconf flags argv then srv.fail "MISCONF AOF persistence is unhealthy".toList
  else
    let before := srv.store.live env.now
    let srv := if isWrite argv then { srv with store := srv.store.purge env.now } else srv
    match srv.dispatch env flags conn argv with
    | (.error message, srv) => srv.fail message
    | (.internal, srv) => srv.fail "ERR internal error".toList
    | (.noReply, srv) => srv.settle env flags argv before none
    | (.value v, srv) => srv.settle env flags argv before (some v)

/-- `self.master.propagate(argv)`; the links it gives up are scheduled for `unregister`. -/
def propagateRecord (srv : Server) (fails : ℕ → Bool) (argv : Command) : Server :=
  let r := srv.master.propagate argv fails
  { srv with master := r.1, unregisters := srv.unregisters ++ r.2 }

/-- One record: appended, then propagated. A failed append counts as a failed command and
nothing is propagated.
SOURCE: server.py:503-522 -/
def commit (srv : Server) (propagates : Bool) (argv : Command) (io : RecordIO) :
    Except Str Unit × Server :=
  match srv.aof.append srv.config argv io.fault with
  | (.error text, aof) =>
    (.error text, { srv with aof := aof, totalCommandsFailed := srv.totalCommandsFailed + 1 })
  | (.ok (), aof) =>
    let srv := { srv with aof := aof }
    (.ok (), if propagates then srv.propagateRecord io.fails argv else srv)

/-- The records one after the other, until one fails: the text of the failure, the
records committed and the server. Records beyond the list of fates meet no fault. -/
def commitAll (propagates : Bool) : List Command → List RecordIO → Server →
    Option Str × List Command × Server
  | [], _, srv => (none, [], srv)
  | argv :: rest, ios, srv =>
    match srv.commit propagates argv (ios.headD {}) with
    | (.error text, srv) => (some text, [], srv)
    | (.ok (), srv) =>
      let r := commitAll propagates rest ios.tail srv
      (r.1, argv :: r.2.1, r.2.2)

/-- The result of `_execute`: the reply, the records that were appended and propagated,
and the server. -/
structure Execution where
  reply : Option Bytes
  records : List Command
  server : Server

/-- The reply to a command whose record could not be appended. -/
def misconfReply (text : Str) : Bytes :=
  encodeError ("MISCONF AOF persistence failed: ".toList ++ text)

/-- `_execute`, run without interruption.
SOURCE: server.py:409-535 -/
def execute (srv : Server) (env : Env) (flags : Flags) (conn : ℕ) (argv : Command)
    (ios : List RecordIO) : Execution :=
  match srv.prepare env flags conn argv with
  | (.done reply, srv) => ⟨reply, [], srv⟩
  | (.records commands propagates reply, srv) =>
    match commitAll propagates commands ios srv with
    | (none, committed, srv) => ⟨some reply, committed, srv⟩
    | (some text, committed, srv) => ⟨some (misconfReply text), committed, srv⟩

/-! ## Start -/

/-- Why `start` raises. -/
inductive LoadError where
  | aof (e : AofError)
  | rdb (e : RdbError)
  deriving DecidableEq

/-- `apply` of `_load_persistence`, at time `now`. -/
def replayOne (srv : Server) (now : ℤ) (argv : Command) : Server :=
  (srv.execute { now := now } .loading 0 argv []).server

/-- `exists() and stat().st_size > 0`. -/
def hasContent (file : Option Bytes) : Bool := file.any fun data => !data.isEmpty

/-- `replay_aof`: the `i`-th command is applied at time `clock i`.
SOURCE: persistence/aof.py:302-317 -/
def replayAof (clock : ℕ → ℤ) : List Command → Server → Server
  | [], srv => srv
  | argv :: rest, srv => replayAof (fun i => clock (i + 1)) rest (srv.replayOne (clock 0) argv)

/-- `_load_persistence`.
SOURCE: server.py:226-248 -/
def loadPersistence (srv : Server) (clock : ℕ → ℤ) : Except LoadError Server :=
  let cfg := srv.config
  if cfg.aofEnabled && hasContent srv.aof.file then
    match readCommands cfg.protoMaxBulkLen cfg.persistenceMaxLoadBytes srv.aof.file with
    | .error e => .error (.aof e)
    | .ok commands => .ok (replayAof clock commands srv)
  else if hasContent srv.rdbFile then
    match loadRdbBytes cfg.persistenceMaxLoadBytes (clock 0) (srv.rdbFile.getD []) with
    | .error e => .error (.rdb e)
    | .ok entries => .ok { srv with store := srv.store.loadEntries entries }
  else .ok srv

/-- `start`: a fresh server loads its files and opens the AOF.
SOURCE: server.py:125-135 -/
def start (cfg : Config) (replid : Replid) (aofFile rdbFile : Option Bytes)
    (clock : ℕ → ℤ) : Except LoadError Server :=
  ((init cfg replid aofFile rdbFile).loadPersistence clock).map fun srv =>
    { srv with aof := srv.aof.openLog cfg }

/-! ## The link to the master -/

/-- The end of `_handshake`: the snapshot of a FULLRESYNC takes the place of the keyspace. A
snapshot that is refused ends the session and leaves the store as it was.
SOURCE: replication/replica.py:150-154, server.py:154-163 -/
def loadSnapshot (srv : Server) (now : ℤ) (rdb : Bytes) : Server :=
  match loadRdbBytes srv.config.persistenceMaxLoadBytes now rdb with
  | .error _ => srv
  | .ok entries => { srv with store := srv.store.loadEntries entries, replicaLinkUp := true }

end Server

end ByoRedis.Model
