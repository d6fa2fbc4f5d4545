import ByoRedis.Model.Rdb
import ByoRedis.Model.Resp
import ByoRedis.Model.Aof

/-!
# Master-side replication

`byo_redis/replication/master.py`. A `ReplicaLink` is an object that outlives its place
in `self.replicas`: `full_resync` and the drain task go on using it after it has been
unregistered. So `links` holds the link objects by connection id (a connection asks for
at most one full resync) and `replicas` the ids that are keys of `self.replicas`, in
order. `written` is everything `MasterReplication` has passed to the link's writer.

The parts of `full_resync` between two awaits are separate definitions; the order in
which they run is the business of `ByoRedis.Model.System`.
-/

set_option autoImplicit false

namespace ByoRedis.Model

open ByoRedis.Lib

/-- `ReplicaState`. -/
inductive ReplicaState where
  | syncing
  | live
  deriving DecidableEq

/-- `ReplicaLink`; `pending` is the size of its drain queue.
SOURCE: replication/master.py:29-40 -/
structure ReplicaLink where
  written : Bytes := []
  offset : ℕ := 0
  alive : Bool := true
  state : ReplicaState := .live
  backlog : List Bytes := []
  backlogBytes : ℕ := 0
  pending : ℕ := 0
  deriving DecidableEq

/-- A replication id: `secrets.token_hex(20)`. -/
structure Replid where
  text : Bytes
  length : text.length = 40
  hex : ∀ b ∈ text, isDigit b = true ∨ (97 ≤ b ∧ b ≤ 102)

instance : Inhabited Replid :=
  ⟨⟨List.replicate 40 48, List.length_replicate,
    fun b hb => Or.inl (by rw [List.eq_of_mem_replicate hb]; rfl)⟩⟩

/-- `MasterReplication`.
SOURCE: replication/master.py:43-60 -/
structure MasterReplication where
  backlogMaxBytes : ℕ := 67108864
  pendingMaxCommands : ℕ := 10000
  replid : Replid
  offset : ℕ := 0
  links : Dict ℕ ReplicaLink := Dict.empty
  replicas : List ℕ := []

namespace MasterReplication

/-- `connected_replicas`.
SOURCE: replication/master.py:62-64 -/
def connectedReplicas (m : MasterReplication) : ℕ :=
  (m.replicas.filter fun c => (m.links.get? c).any fun l => l.alive && l.state = .live).length

/-- Writing back a link object. -/
def setLink (m : MasterReplication) (c : ℕ) (l : ReplicaLink) : MasterReplication :=
  { m with links := m.links.insert c l }

/-- `register_syncing`.
SOURCE: replication/master.py:66-80 -/
def registerSyncing (m : MasterReplication) (c : ℕ) : MasterReplication :=
  { m.setLink c { offset := m.offset, state := .syncing } with
    replicas := if c ∈ m.replicas then m.replicas else m.replicas ++ [c] }

/-- The body of the loop of `propagate` for one registered link: the link afterwards and
whether it joins `dead`. `offset` is the offset after this command and `fails` says that
`writer.write` raises.
SOURCE: replication/master.py:221-254 -/
def propagateLink (m : MasterReplication) (payload : Bytes) (offset : ℕ) (fails : Bool)
    (l : ReplicaLink) : ReplicaLink × Bool :=
  if !l.alive then (l, true)
  else if l.state = .syncing then
    if m.backlogMaxBytes < l.backlogBytes + payload.length then ({ l with alive := false }, true)
    else
      ({ l with
        backlog := l.backlog ++ [payload]
        backlogBytes := l.backlogBytes + payload.length
        offset := offset }, false)
  else if m.pendingMaxCommands ≤ l.pending then ({ l with alive := false }, true)
  else if fails then ({ l with alive := false }, true)
  else
    ({ l with written := l.written ++ payload, offset := offset, pending := l.pending + 1 },
      false)

/-- One turn of the loop of `propagate`. -/
def propagateStep (m : MasterReplication) (payload : Bytes) (offset : ℕ) (fails : ℕ → Bool)
    (acc : Dict ℕ ReplicaLink × List ℕ) (c : ℕ) : Dict ℕ ReplicaLink × List ℕ :=
  match acc.1.get? c with
  | none => acc
  | some l =>
    let r := m.propagateLink payload offset (fails c) l
    (acc.1.insert c r.1, if r.2 then acc.2 ++ [c] else acc.2)

/-- `propagate`: the state afterwards and the links it schedules for `unregister`.
SOURCE: replication/master.py:206-256 -/
def propagate (m : MasterReplication) (argv : Command) (fails : ℕ → Bool) :
    MasterReplication × List ℕ :=
  if m.replicas.isEmpty then (m, [])
  else
    let payload := encodeCommand argv
    let offset := m.offset + payload.length
    let r := m.replicas.foldl (m.propagateStep payload offset fails) (m.links, [])
    ({ m with offset := offset, links := r.1 }, r.2)

/-- `unregister`.
SOURCE: replication/master.py:104-124 -/
def unregister (m : MasterReplication) (c : ℕ) : MasterReplication :=
  if c ∈ m.replicas then
    match m.links.get? c with
    | none => { m with replicas := m.replicas.filter (· ≠ c) }
    | some l =>
      { m.setLink c { l with alive := false, pending := l.pending + 1 } with
        replicas := m.replicas.filter (· ≠ c) }
  else m

/-- `writer.write` by `full_resync`. -/
def writeLink (m : MasterReplication) (c : ℕ) (data : Bytes) : MasterReplication :=
  match m.links.get? c with
  | none => m
  | some l => m.setLink c { l with written := l.written ++ data }

/-- The locked part of a turn of the flush loop: the batch taken, or the switch to live
when there is none.
SOURCE: replication/master.py:166-175 -/
def takeBatch (m : MasterReplication) (c : ℕ) : List Bytes × MasterReplication :=
  match m.links.get? c with
  | none => ([], m)
  | some l =>
    if l.backlog.isEmpty then
      ([], m.setLink c
        { l with backlog := [], backlogBytes := 0, state := .live, offset := m.offset })
    else (l.backlog, m.setLink c { l with backlog := [], backlogBytes := 0 })

/-- One marker taken off the drain queue by `_replica_writer_loop`.
SOURCE: replication/master.py:258-263 -/
def drainOne (m : MasterReplication) (c : ℕ) : MasterReplication :=
  match m.links.get? c with
  | none => m
  | some l => m.setLink c { l with pending := l.pending - 1 }

/-- The line `+FULLRESYNC <replid> <offset>`.
SOURCE: replication/master.py:153 -/
def fullresyncLine (replid : Bytes) (offset : ℕ) : Bytes :=
  ascii "FULLRESYNC " ++ replid ++ ascii " " ++ natBytes offset

/-- Header, bulk header and snapshot, as `full_resync` writes them.
SOURCE: replication/master.py:153-155 -/
def fullresyncPayload (replid : Bytes) (offset : ℕ) (rdb : Bytes) : Bytes :=
  (encodeSimpleString (fullresyncLine replid offset)).getD [] ++
    (ascii "$" ++ natBytes rdb.length ++ crlf) ++ rdb

end MasterReplication

end ByoRedis.Model
