import ByoRedis.Model.Server

/-!
# One client connection

`handle_client` of `byo_redis/server.py`. The loop reads a chunk, feeds the parser and
handles the messages one after the other; `Client` is its state at the awaits in between.
Other tasks run at these awaits, so the server is an argument of every step. `Input` is
what the connection brings: an empty chunk is the end of the stream, and `lost` an error
of the transport.

A command of this connection runs without interruption here; `ByoRedis.Model.System` takes
a write apart.
-/

set_option autoImplicit false

namespace ByoRedis.Model

open ByoRedis.Lib

/-- `_normalize_argv`.
SOURCE: server.py:393-407 -/
def normalizeArgv : RespValue → Except ProtocolError Command
  | .array items => items.mapM fun item =>
    match item.argument with
    | some a => .ok a
    | none => .error (.badArgument item.typeName)
  | _ => .error .expectedArray

/-- Where `handle_client` stands: in its loop, holding a replica's connection, or done. -/
inductive Phase where
  | serving
  | holding
  | closed
  deriving DecidableEq

/-- The state of `handle_client`: `pending` are the messages of the last chunk that have
not been handled, and `out` the bytes written by `handle_client` itself. -/
structure Client where
  parser : RespParser
  pending : List RespValue := []
  out : Bytes := []
  phase : Phase := .serving

/-- What happens to a connection from outside. -/
inductive Input where
  | recv (chunk : Bytes)
  | next
  | timeout
  | lost

namespace Server

/-- The bookkeeping of an accepted connection.
SOURCE: server.py:263-270 -/
def openConnection (srv : Server) (conn : ℕ) : Server :=
  { srv with
    totalConnectionsReceived := srv.totalConnectionsReceived + 1
    clientCount := srv.clientCount + 1
    connections := srv.connections ++ [conn] }

/-- The `finally` block of `handle_client`.
SOURCE: server.py:366-381 -/
def closeConnection (srv : Server) (conn : ℕ) : Server :=
  { srv with
    master := srv.master.unregister conn
    connections := srv.connections.filter (· ≠ conn)
    authenticated := srv.authenticated.filter (· ≠ conn)
    authFailures := srv.authFailures.erase conn
    clientCount := srv.clientCount - 1 }

end Server

namespace Client

/-- A connection that has just been accepted.
SOURCE: server.py:273-280 -/
def connect (cfg : Config) : Client where
  parser := { limits := cfg.clientLimits }

/-- `writer.write(reply)`. -/
def write (c : Client) (reply : Bytes) : Client := { c with out := c.out ++ reply }

/-- The reply to a protocol error. -/
def protocolError (e : ProtocolError) : Bytes :=
  encodeError ("ERR protocol error: ".toList ++ e.message)

/-- Leaving the loop. -/
def close (srv : Server) (conn : ℕ) (c : Client) : Server × Client :=
  (srv.closeConnection conn, { c with pending := [], phase := .closed })

/-- `encode_value` raises `ValueError` on an integer of more than `maxStrDigits` digits, and
`_execute_inner` catches `TypeError` only. No write returns such an integer: its answers are
counts.
SOURCE: server.py:531-535, protocol/encoder.py:21-22 -/
def encodeRaises (srv : Server) (env : Env) (conn : ℕ) (argv : Command) : Bool :=
  !srv.noauth .client conn argv && !isWrite argv &&
    match (srv.dispatch env .client conn argv).1 with
    | .value (.int i) => maxStrDigits < (natText i.natAbs).length
    | _ => false

/-- The connection is closed after too many failed AUTHs.
SOURCE: server.py:351-357 -/
def tooManyFailures (srv : Server) (conn : ℕ) (argv : Command) : Bool :=
  upperName argv = ascii "AUTH" &&
    srv.config.maxAuthFailures ≤ (srv.authFailures.get? conn).getD 0

/-- PSYNC on a master: `full_resync` writes to the connection itself, and the connection is
held for the replica; when it raises, the connection is closed.
SOURCE: server.py:328-345 -/
def psync (srv : Server) (env : Env) (conn : ℕ) (c : Client) : Server × Client :=
  match srv.fullResync env.now conn with
  | (true, srv) => (srv, { c with pending := [], phase := .holding })
  | (false, srv) => close srv conn (c.write (encodeError "ERR PSYNC failed".toList))

/-- The body of the loop over the messages. An exception that `_execute` lets through ends
`handle_client` without a reply.
SOURCE: server.py:318-381 -/
def handleMessage (srv : Server) (env : Env) (ios : List RecordIO) (conn : ℕ) (c : Client)
    (msg : RespValue) : Server × Client :=
  let srv := { srv with totalCommandsProcessed := srv.totalCommandsProcessed + 1 }
  match normalizeArgv msg with
  | .error e => (srv, c.write (protocolError e))
  | .ok [] => (srv, c)
  | .ok argv =>
    if upperName argv = ascii "PSYNC" ∧ srv.config.isReplica = false then psync srv env conn c
    else
      let x := srv.execute env .client conn argv ios
      if encodeRaises srv env conn argv then close x.server conn c else
      let c := c.write (x.reply.getD [])
      if tooManyFailures x.server conn argv then close x.server conn c else (x.server, c)

/-- A chunk that arrived while the loop waits for one.
SOURCE: server.py:304-317 -/
def receive (srv : Server) (conn : ℕ) (c : Client) (chunk : Bytes) : Server × Client :=
  if chunk.isEmpty then close srv conn c
  else
    match c.parser.feed chunk with
    | .error e => close srv conn (c.write (protocolError e))
    | .ok (messages, parser) => (srv, { c with parser := parser, pending := messages })

/-- A read that timed out: an idle client is dropped, an incomplete frame is an error.
SOURCE: server.py:290-303 -/
def expire (srv : Server) (conn : ℕ) (c : Client) : Server × Client :=
  if c.parser.bufferedSize = 0 then close srv conn c
  else
    close srv conn (c.write
      (protocolError (.frameTimedOut (roundHalfEven srv.config.partialTimeoutSec))))

/-- One step of `handle_client`; `none` when it does not wait for this input. A held
connection ignores what it receives.
SOURCE: server.py:282-391 -/
def step (srv : Server) (env : Env) (ios : List RecordIO) (conn : ℕ) (c : Client) :
    Input → Option (Server × Client)
  | .recv chunk =>
    match c.phase, c.pending with
    | .serving, [] => some (receive srv conn c chunk)
    | .holding, _ => some (if chunk.isEmpty then close srv conn c else (srv, c))
    | _, _ => none
  | .next =>
    match c.phase, c.pending with
    | .serving, msg :: rest =>
      some (handleMessage srv env ios conn { c with pending := rest } msg)
    | _, _ => none
  | .timeout =>
    match c.phase, c.pending with
    | .serving, [] => some (expire srv conn c)
    | _, _ => none
  | .lost => if c.phase = .closed then none else some (close srv conn c)

end Client

/-- Everything written to the connection: by `handle_client`, then by `full_resync` and
`propagate`, if it became a replica's. -/
def sentTo (srv : Server) (conn : ℕ) (c : Client) : Bytes :=
  c.out ++ ((srv.master.links.get? conn).elim [] ReplicaLink.written)

end ByoRedis.Model
