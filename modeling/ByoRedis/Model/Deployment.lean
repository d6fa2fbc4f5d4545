import ByoRedis.Model.ReplicaClient
import ByoRedis.Model.System

/-!
# A master and a replica of it

The tasks of a master and one replica client in one system, with the connection between them. A
`DeploymentMove` is an action of one of them. What the master has written to the link of the
client's connection arrives in order, in any chunks and as late as it may; before it come the
replies to the commands in front of PSYNC. A connection can break at any time, and what was on the
way is lost with it. A client that tries again gets a new connection.
-/

set_option autoImplicit false

namespace ByoRedis.Model

/-- A master and a replica client. Of the client's last connection: its id at the master, the
replies in front of PSYNC that have still to arrive, and the chunks of the link that have
arrived. -/
structure Deployment where
  master : System
  client : ReplicaClient
  conn : ℕ := 0
  greeting : List Bytes := []
  received : List Bytes := []

/-- An action of the master; a connection that is made, with the replies it will bring, the next
of them, and what comes behind them; or another action of the client. -/
inductive DeploymentMove where
  | master (a : Action)
  | dial (conn : ℕ) (greeting : List Bytes)
  | greet (now : ℤ) (env : ℕ → Env) (fate : ℕ → List RecordIO)
  | deliver (data : Bytes) (now : ℤ) (env : ℕ → Env) (fate : ℕ → List RecordIO)
  | refuse
  | hangUp
  | resume
  | stop

/-- What is observed: an event of the master, a chunk of a link that arrives, an event of the
client on a connection. -/
inductive DeploymentEvent where
  | master (ev : Event)
  | delivered (conn : ℕ) (data : Bytes)
  | client (conn : ℕ) (ev : ClientEvent)

namespace Deployment

/-- What was written to the link of the connection. -/
def wire (dep : Deployment) : Bytes :=
  match dep.master.server.master.links.get? dep.conn with
  | none => []
  | some l => l.written

/-- An action of the client. -/
def act (dep : Deployment) (a : ClientAction) : Option (Deployment × List DeploymentEvent) :=
  (dep.client.step a).map fun r =>
    ({ dep with client := r.1 }, r.2.map (DeploymentEvent.client dep.conn))

/-- One move; `none` when it is not possible. -/
def step (dep : Deployment) : DeploymentMove → Option (Deployment × List DeploymentEvent)
  | .master a =>
    (dep.master.step a).map fun r => ({ dep with master := r.1 }, r.2.map DeploymentEvent.master)
  | .dial conn greeting =>
    match dep.master.server.master.links.get? conn with
    | none =>
      act { dep with conn := conn, greeting := greeting, received := [] } .connected
    | some _ => none
  | .greet now env fate =>
    match dep.greeting with
    | [] => none
    | data :: rest => act { dep with greeting := rest } (.received data now env fate)
  | .deliver data now env fate =>
    if dep.greeting = [] ∧ data ≠ [] ∧ data.length ≤ 65536 ∧
        dep.received.flatten ++ data <+: dep.wire then
      (act { dep with received := dep.received ++ [data] } (.received data now env fate)).map
        fun r => (r.1, .delivered dep.conn data :: r.2)
    else none
  | .refuse => dep.act .refused
  | .hangUp => dep.act .broken
  | .resume => dep.act .resumed
  | .stop => dep.act .stopped

end Deployment

end ByoRedis.Model
