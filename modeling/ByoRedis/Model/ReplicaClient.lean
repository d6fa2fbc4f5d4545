import ByoRedis.Model.Replica
import ByoRedis.Model.Server

/-!
# The life of a replica client

`ReplicaClient._run` in `byo_redis/replication/replica.py`: one session after the other, with a
pause after each one that fails. A session is what `Session.run` makes of the chunks that have
arrived, so a chunk that arrives adds to the server what the session does with it that it had
not done without it. What the network and the clock decide is in the action: whether a
connection is made, what arrives on it and when, and that it breaks.

The pauses are in milliseconds.
-/

set_option autoImplicit false

namespace ByoRedis.Model

/-- The session as far as it got. -/
def Progress.session {α : Type} : Progress α → Session
  | .waiting s => s
  | .failed _ s => s
  | .ok _ s => s

namespace Server

/-- `apply_command`, which is `_apply_replicated_command`, on one command after the other. The
`i`-th meets the environment `env i` and its record the fate `fate i`. An error reply is dropped.
What leaves `_execute` as an exception ends the session; this is the `ValueError` of `encode_value`
alone, which only the number of a `TTL` can be long enough for, and a master sends no `TTL`. Here
the session goes on after it.
SOURCE: replication/replica.py:212-227, server.py:577-578 -/
def applyReplicated (env : ℕ → Env) (fate : ℕ → List RecordIO) : List Command → Server → Server
  | [], srv => srv
  | argv :: rest, srv =>
    applyReplicated (fun i => env (i + 1)) (fun i => fate (i + 1)) rest
      (srv.execute (env 0) .replicated 0 argv (fate 0)).server

/-- The end of `_handshake`: the entries take the place of the keyspace and the link is up.
SOURCE: replication/replica.py:152-153 -/
def loadEntries (srv : Server) (entries : Entries) : Server :=
  { srv with store := srv.store.loadEntries entries, replicaLinkUp := true }

end Server

/-- Where `_run` is: in front of a connection attempt, in a session, in the pause after one that
failed, or cancelled. A session has the clock that `load_rdb_bytes` reads, as soon as it has read
it, and the chunks that have arrived. -/
inductive RunState where
  | starting
  | session (loadTime : ℤ) (chunks : List Bytes)
  | pausing
  | cancelled

/-- `ReplicaClient` with the server whose store it fills and whose commands it runs.
SOURCE: replication/replica.py:22-46, 58-59 -/
structure ReplicaClient where
  config : ReplicaConfig
  server : Server
  backoff : ℕ := 500
  state : RunState := .starting

/-- What happens to a client: the connection is refused or made, a chunk arrives on it, it
breaks in some other way, the pause is over, or `stop` is called. An empty chunk is the end of
the stream. -/
inductive ClientAction where
  | refused
  | connected
  | received (data : Bytes) (now : ℤ) (env : ℕ → Env) (fate : ℕ → List RecordIO)
  | broken
  | resumed
  | stopped

/-- What is observed of a client: a snapshot was loaded, a command was applied, a session failed
and the next attempt is so many milliseconds away. -/
inductive ClientEvent where
  | loaded (entries : Entries)
  | applied (argv : Command)
  | retrying (ms : ℕ)

namespace ReplicaClient

/-- A session that fails: the link is down, and `_run` pauses.
SOURCE: replication/replica.py:66-79, 90-91 -/
def fail (c : ReplicaClient) : ReplicaClient × List ClientEvent :=
  ({ c with server := { c.server with replicaLinkUp := false }, state := .pausing },
    [.retrying c.backoff])

/-- The snapshot that a chunk brings: the session had none before. -/
def newSnapshot (before after : Session) : Option Entries :=
  match before.loaded with
  | none => after.loaded
  | some _ => none

/-- The commands that a chunk brings. -/
def newCommands (before after : Session) : List Command :=
  after.applied.drop before.applied.length

/-- What is seen of a chunk. -/
def observed (before after : Session) : List ClientEvent :=
  (newSnapshot before after).toList.map ClientEvent.loaded ++
    (newCommands before after).map ClientEvent.applied

/-- The server after what a chunk brings.
SOURCE: replication/replica.py:150-154, 197-227 -/
def catchUp (env : ℕ → Env) (fate : ℕ → List RecordIO) (before after : Session) (srv : Server) :
    Server :=
  (match newSnapshot before after with
    | none => srv
    | some entries => srv.loadEntries entries).applyReplicated env fate (newCommands before after)

/-- A chunk arrives. When the session ends without an exception `_run` starts the next one at
once, with the pause at its first value again.
SOURCE: replication/replica.py:58-79, 83-227 -/
def receive (c : ReplicaClient) (loadTime : ℤ) (chunks : List Bytes) (data : Bytes) (now : ℤ)
    (env : ℕ → Env) (fate : ℕ → List RecordIO) : ReplicaClient × List ClientEvent :=
  let before := (Session.run c.config loadTime chunks).session
  let loadTime := if before.loaded.isSome then loadTime else now
  let outcome := Session.run c.config loadTime (chunks ++ [data])
  let after := outcome.session
  let c := { c with server := catchUp env fate before after c.server }
  let seen := observed before after
  match outcome with
  | .waiting _ => ({ c with state := .session loadTime (chunks ++ [data]) }, seen)
  | .failed _ _ => (c.fail.1, seen ++ c.fail.2)
  | .ok _ _ =>
    ({ c with
      server := { c.server with replicaLinkUp := false }
      backoff := 500
      state := .starting }, seen)

/-- One action; `none` when the client is not at that point.
SOURCE: replication/replica.py:48-96 -/
def step (c : ReplicaClient) : ClientAction → Option (ReplicaClient × List ClientEvent)
  | .refused =>
    match c.state with
    | .starting => some c.fail
    | .session _ _ => none
    | .pausing => none
    | .cancelled => none
  | .connected =>
    match c.state with
    | .starting => some ({ c with state := .session 0 [] }, [])
    | .session _ _ => none
    | .pausing => none
    | .cancelled => none
  | .received data now env fate =>
    match c.state with
    | .starting => none
    | .session loadTime chunks => some (c.receive loadTime chunks data now env fate)
    | .pausing => none
    | .cancelled => none
  | .broken =>
    match c.state with
    | .starting => none
    | .session _ _ => some c.fail
    | .pausing => none
    | .cancelled => none
  | .resumed =>
    match c.state with
    | .starting => none
    | .session _ _ => none
    | .pausing => some ({ c with backoff := min (c.backoff * 2) 10000, state := .starting }, [])
    | .cancelled => none
  | .stopped =>
    some ({ c with server := { c.server with replicaLinkUp := false }, state := .cancelled }, [])

end ReplicaClient

end ByoRedis.Model
