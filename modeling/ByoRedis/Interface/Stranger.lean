import ByoRedis.Model.Connection

/-!
# A connection without the password

What a server with `requirepass` shows to a connection that has not authenticated, as a
function of the configuration and of what arrives on the connection: error replies, and
the end of the connection. Nothing else of the server is an argument of `View.step`.

PSYNC is the one command this does not describe; the view ends there.
`ByoRedis.Analysis.Unauthenticated` connects the view with `handle_client`.
-/

set_option autoImplicit false

namespace ByoRedis.Interface

open ByoRedis.Model

/-- The message is a PSYNC. -/
def IsPsync (msg : RespValue) : Prop :=
  ∃ argv, normalizeArgv msg = .ok argv ∧ upperName argv = ascii "PSYNC"

/-- The message presents the password. -/
def Presents (password : Str) (msg : RespValue) : Prop :=
  ∃ name, normalizeArgv msg = .ok [name, encodeUtf8 password] ∧ upper name = ascii "AUTH"

/-- The connection as a stranger sees it, with the number of failed AUTHs. -/
structure View where
  client : Client
  failures : ℕ := 0

namespace View

/-- The error every command is answered with, and the failed AUTHs after it. -/
def answer (argv : Command) (failures : ℕ) : Str × ℕ :=
  if upperName argv = ascii "AUTH" then
    match argv with
    | [_, _] => ("WRONGPASS invalid username-password pair".toList, failures + 1)
    | _ => (wrongArity "auth", failures)
  else ("NOAUTH Authentication required.".toList, failures)

/-- The connection has ended. -/
def close (c : Client) : View := { client := { c with pending := [], phase := .closed } }

/-- One message. -/
def handle (cfg : Config) (v : View) (msg : RespValue) : View :=
  match normalizeArgv msg with
  | .error e => { v with client := v.client.write (Client.protocolError e) }
  | .ok [] => v
  | .ok argv =>
    if upperName argv = ascii "PSYNC" then
      { v with client := { v.client with pending := [], phase := .holding } }
    else
      let a := answer argv v.failures
      let c := v.client.write (encodeError a.1)
      if upperName argv = ascii "AUTH" ∧ cfg.maxAuthFailures ≤ a.2 then close c
      else { client := c, failures := a.2 }

/-- A chunk. -/
def receive (v : View) (chunk : Bytes) : View :=
  if chunk.isEmpty then close v.client
  else
    match v.client.parser.feed chunk with
    | .error e => close (v.client.write (Client.protocolError e))
    | .ok (messages, parser) =>
      { v with client := { v.client with parser := parser, pending := messages } }

/-- A read that timed out. -/
def expire (cfg : Config) (v : View) : View :=
  if v.client.parser.bufferedSize = 0 then close v.client
  else
    close (v.client.write
      (Client.protocolError (.frameTimedOut (roundHalfEven cfg.partialTimeoutSec))))

/-- One step of the view. -/
def step (cfg : Config) (v : View) : Input → Option View
  | .recv chunk =>
    match v.client.phase, v.client.pending with
    | .serving, [] => some (v.receive chunk)
    | .holding, _ => some (if chunk.isEmpty then close v.client else v)
    | _, _ => none
  | .next =>
    match v.client.phase, v.client.pending with
    | .serving, msg :: rest =>
      some (handle cfg { v with client := { v.client with pending := rest } } msg)
    | _, _ => none
  | .timeout =>
    match v.client.phase, v.client.pending with
    | .serving, [] => some (v.expire cfg)
    | _, _ => none
  | .lost => if v.client.phase = .closed then none else some (close v.client)

/-- The message that an input makes the connection handle. -/
def current (v : View) : Input → Option RespValue
  | .next => if v.client.phase = .serving then v.client.pending.head? else none
  | _ => none

/-- The messages handled on a stranger's connection, in order, up to an input the connection
does not wait for. -/
def handled (cfg : Config) (v : View) : List Input → List RespValue
  | [] => []
  | i :: inputs =>
    match v.step cfg i with
    | none => []
    | some v' => (v.current i).toList ++ handled cfg v' inputs

/-- A connection that has just been accepted. -/
def start (cfg : Config) : View := { client := Client.connect cfg }

end View

end ByoRedis.Interface
