import ByoRedis.Model.Connection

/-!
# The connections of a server

All the `handle_client` tasks of one server, each cut at its awaits: a message is taken, its
command is executed once a write has the lock, and the loop goes on when the reply has been
drained. In between the other connections take their steps, the link to the master applies
commands, and the remaining tasks change everything of the server but its configuration and
the two collections of the authentication.

`AuthEvent` is what is observed of the authentication.
-/

set_option autoImplicit false

namespace ByoRedis.Model

open ByoRedis.Lib

/-- Where a task stands: at the top of its loops, before the execution of a command, or before
the drain of its reply. -/
inductive Stage where
  | reading
  | waiting (argv : Command)
  | replied (argv : Command)

/-- One `handle_client` task. -/
structure ClientTask where
  client : Client
  stage : Stage := .reading

/-- A server and the tasks of its connections; `connSeq` is `_conn_seq`. -/
structure Connections where
  server : Server
  connSeq : ℕ := 0
  tasks : Dict ℕ ClientTask := Dict.empty

/-- What a task does between two awaits. -/
inductive Move where
  | accept
  | input (conn : ℕ) (i : Input)
  | take (conn : ℕ) (env : Env)
  | execute (conn : ℕ) (env : Env) (ios : List RecordIO)
  | resume (conn : ℕ)
  | applied (argv : Command) (env : Env) (ios : List RecordIO)
  | others (srv : Server)

/-- What is observed: a connection opened or closed, a command reached `_execute`, was
dispatched to its handler, or had a password compared with the configured one. -/
inductive AuthEvent where
  | opened (conn : ℕ)
  | sent (conn : ℕ) (argv : Command)
  | dispatched (conn : ℕ) (argv : Command)
  | compared (conn : ℕ) (password : Bytes)
  | closed (conn : ℕ)
  deriving DecidableEq

/-- The password that the handler of AUTH hands to `authenticate`.
SOURCE: commands/connection_cmds.py:40-48, server.py:537-543 -/
def Server.comparedPassword (srv : Server) (argv : Command) : Option Bytes :=
  match argv with
  | [_, password] =>
    if upperName argv = ascii "AUTH" && srv.config.requirepass.isSome then some password else none
  | _ => none

namespace Connections

/-- The server after its start, with no connections.
SOURCE: server.py:95-102, 125-135 -/
def start (srv : Server) : Connections := { server := srv }

/-- The end of a step of a task. -/
def finish (st : Connections) (conn : ℕ) (x : Server × Client) (stage : Stage)
    (es : List AuthEvent) : Option (Connections × List AuthEvent) :=
  some ({ st with server := x.1, tasks := st.tasks.insert conn { client := x.2, stage := stage } },
    es ++ if x.2.phase = .closed then [.closed conn] else [])

/-- A connection is accepted under the next number, or turned away.
SOURCE: server.py:249-280 -/
def accept (st : Connections) : Connections × List AuthEvent :=
  let srv := st.server
  if srv.config.maxClients ≤ srv.clientCount then
    ({ st with server := { srv with
        totalConnectionsReceived := srv.totalConnectionsReceived + 1
        rejectedConnections := srv.rejectedConnections + 1 } }, [])
  else
    let conn := st.connSeq + 1
    ({ server := srv.openConnection conn
       connSeq := conn
       tasks := st.tasks.insert conn { client := Client.connect srv.config } }, [.opened conn])

/-- The next message of the chunk, up to the lock of a write. PSYNC does not reach `_execute`.
SOURCE: server.py:318-347 -/
def take (srv : Server) (env : Env) (conn : ℕ) (c : Client) (msg : RespValue) :
    (Server × Client) × Stage :=
  let srv := { srv with totalCommandsProcessed := srv.totalCommandsProcessed + 1 }
  match normalizeArgv msg with
  | .error e => ((srv, c.write (Client.protocolError e)), .reading)
  | .ok [] => ((srv, c), .reading)
  | .ok argv =>
    if upperName argv = ascii "PSYNC" ∧ srv.config.isReplica = false then
      (Client.psync srv env conn c, .reading)
    else ((srv, c), .waiting argv)

/-- `_execute` and the writing of its reply. The records of a write are committed in the same
step; they have no part in the authentication.
SOURCE: server.py:347-349, 409-535 -/
def execute (srv : Server) (env : Env) (ios : List RecordIO) (conn : ℕ) (c : Client)
    (argv : Command) : Server × Client :=
  let x := srv.execute env .client conn argv ios
  if Client.encodeRaises srv env conn argv then Client.close x.server conn c
  else (x.server, c.write (x.reply.getD []))

/-- What is observed of a command: the gates let it through to its handler, and AUTH compares.
SOURCE: server.py:436-455, 475-477 -/
def executed (srv : Server) (conn : ℕ) (argv : Command) : List AuthEvent :=
  .sent conn argv ::
    if srv.noauth .client conn argv || srv.misconf .client argv then []
    else .dispatched conn argv :: (srv.comparedPassword argv).toList.map (.compared conn)

/-- The loop goes on after the drain of a reply, unless there were too many failures.
SOURCE: server.py:350-357 -/
def resume (srv : Server) (conn : ℕ) (c : Client) (argv : Command) : Server × Client :=
  if Client.tooManyFailures srv conn argv then Client.close srv conn c else (srv, c)

/-- One step; `none` when the task does not stand there. A connection may be lost at any await.
SOURCE: server.py:249-391 -/
def step (st : Connections) : Move → Option (Connections × List AuthEvent)
  | .accept => some st.accept
  | .input conn i =>
    match st.tasks.get? conn, i with
    | some ⟨c, _⟩, .lost => (Client.step st.server {} [] conn c .lost).bind fun x =>
        st.finish conn x .reading []
    | some ⟨_, _⟩, .next => none
    | some ⟨c, .reading⟩, i => (Client.step st.server {} [] conn c i).bind fun x =>
        st.finish conn x .reading []
    | _, _ => none
  | .take conn env =>
    match st.tasks.get? conn with
    | some ⟨c, .reading⟩ =>
      match c.phase, c.pending with
      | .serving, msg :: rest =>
        let r := take st.server env conn { c with pending := rest } msg
        st.finish conn r.1 r.2 []
      | _, _ => none
    | _ => none
  | .execute conn env ios =>
    match st.tasks.get? conn with
    | some ⟨c, .waiting argv⟩ =>
      if c.phase = .closed then none
      else st.finish conn (execute st.server env ios conn c argv) (.replied argv)
        (executed st.server conn argv)
    | _ => none
  | .resume conn =>
    match st.tasks.get? conn with
    | some ⟨c, .replied argv⟩ =>
      if c.phase = .closed then none
      else st.finish conn (resume st.server conn c argv) .reading []
    | _ => none
  | .applied argv env ios =>
    some ({ st with server := (st.server.execute env .replicated 0 argv ios).server }, [])
  | .others srv =>
    some ({ st with server := { srv with
      config := st.server.config
      authenticated := st.server.authenticated
      authFailures := st.server.authFailures } }, [])

end Connections

end ByoRedis.Model
