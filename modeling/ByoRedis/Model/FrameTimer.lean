import ByoRedis.Model.Connection

/-!
# The timer of an incomplete frame

`handle_client` with its clock: `partial_since`, and the timeout of the read it awaits. A
`TimedClient` is the loop of `ByoRedis.Model.Connection` with what it keeps of the time. The
top of the loop is a step of its own: there the timeout is computed from `time.monotonic()`,
or the error is raised at once. `wait_for` gives up at its deadline or later.
-/

set_option autoImplicit false

namespace ByoRedis.Model

/-- The loop of `handle_client` with its times: `clock` is the time of its last step, and
`waitUntil` the end of the `wait_for` that it awaits. -/
structure TimedClient where
  client : Client
  partialSince : Option ℚ := none
  waitUntil : Option ℚ := none
  clock : ℚ := 0

/-- A step of the loop: its top, or what happens to the connection. -/
inductive TimedInput where
  | top
  | on (i : Input)

/-- What the clock has to do with: a chunk that `read` returned to the loop, and the error of
an incomplete frame. -/
inductive TimerEvent where
  | received (now : ℚ) (chunk : Bytes)
  | timedOut (now : ℚ)
  deriving DecidableEq

namespace TimedClient

/-- An accepted connection.
SOURCE: server.py:263-280 -/
def connect (cfg : Config) (now : ℚ) : TimedClient where
  client := Client.connect cfg
  clock := now

/-- The timeout of the next read; `none` when the frame in the buffer has already timed out.
SOURCE: server.py:283-290 -/
def readTimeout (cfg : Config) (now : ℚ) (c : TimedClient) : Option ℚ :=
  match c.partialSince with
  | some since =>
    if 0 < c.client.parser.bufferedSize then
      let remaining := cfg.partialTimeoutSec - (now - since)
      if remaining ≤ 0 then none else some (min cfg.clientIdleTimeoutSec remaining)
    else some cfg.clientIdleTimeoutSec
  | none => some cfg.clientIdleTimeoutSec

/-- `partial_since` after a chunk has been fed to the parser.
SOURCE: server.py:312-316 -/
def sinceAfter (now : ℚ) (since : Option ℚ) (parser : RespParser) : Option ℚ :=
  if 0 < parser.bufferedSize then
    match since with
    | none => some now
    | some since => some since
  else none

/-- The error of an incomplete frame ends the loop, at its top or when the read times out.
SOURCE: server.py:286-303, 358-364 -/
def raise (srv : Server) (conn : ℕ) (now : ℚ) (c : TimedClient) :
    Server × TimedClient × List TimerEvent :=
  let x := Client.close srv conn (c.client.write
    (Client.protocolError (.frameTimedOut (roundHalfEven srv.config.partialTimeoutSec))))
  (x.1, { c with client := x.2, waitUntil := none, clock := now }, [.timedOut now])

/-- The top of the loop.
SOURCE: server.py:282-292 -/
def await (srv : Server) (conn : ℕ) (now : ℚ) (c : TimedClient) :
    Server × TimedClient × List TimerEvent :=
  match c.readTimeout srv.config now with
  | none => c.raise srv conn now
  | some timeout => (srv, { c with waitUntil := some (now + timeout), clock := now }, [])

/-- `read` returns a chunk. The loop is left behind without a look at the clock when the
stream has ended or `feed` raises.
SOURCE: server.py:304-317 -/
def receive (srv : Server) (conn : ℕ) (now : ℚ) (c : TimedClient) (chunk : Bytes) :
    Server × TimedClient × List TimerEvent :=
  let x := Client.receive srv conn c.client chunk
  (x.1,
    { client := x.2
      partialSince :=
        if x.2.phase = .closed then c.partialSince else sinceAfter now c.partialSince x.2.parser
      waitUntil := none
      clock := now },
    [.received now chunk])

/-- A step that does not look at the clock. -/
def untimed (now : ℚ) (c : TimedClient) (x : Server × Client) :
    Server × TimedClient × List TimerEvent :=
  (x.1, { c with client := x.2, clock := now }, [])

/-- One step of `handle_client` at time `now`; `none` when it does not wait for this input, or
when the time lies behind the last step: `time.monotonic()` does not go back.
SOURCE: server.py:282-391 -/
def step (srv : Server) (env : Env) (ios : List RecordIO) (conn : ℕ) (now : ℚ) (c : TimedClient)
    (input : TimedInput) : Option (Server × TimedClient × List TimerEvent) :=
  if now < c.clock then none
  else
    match input with
    | .top =>
      match c.client.phase, c.client.pending, c.waitUntil with
      | .serving, [], none => some (c.await srv conn now)
      | _, _, _ => none
    | .on (.recv chunk) =>
      match c.client.phase, c.client.pending, c.waitUntil with
      | .serving, [], some _ => some (c.receive srv conn now chunk)
      | .holding, _, _ => (Client.step srv env ios conn c.client (.recv chunk)).map (c.untimed now)
      | _, _, _ => none
    | .on .timeout =>
      match c.client.phase, c.client.pending, c.waitUntil with
      | .serving, [], some deadline =>
        if now < deadline then none
        else if c.client.parser.bufferedSize = 0 then
          some (c.untimed now (Client.close srv conn c.client))
        else some (c.raise srv conn now)
      | _, _, _ => none
    | .on i => (Client.step srv env ios conn c.client i).map (c.untimed now)

end TimedClient

end ByoRedis.Model
