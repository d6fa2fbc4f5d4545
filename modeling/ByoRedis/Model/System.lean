import ByoRedis.Model.Connection

/-!
# The server as a system of tasks

The tasks of one running server on the event loop: clients' commands, the AOF writer, the
active expiry, BGSAVE and BGREWRITEAOF, and the full resyncs and links of the replicas.
An `Action` is what one task does between two of its awaits, and `step` its effect, `none`
when the task is not at that point. Every order of actions is a schedule.

`_write_lock` is the field `holder`. A write command takes it, changes the store and then
appends and propagates its records one by one, with other tasks running in between; a
snapshot for a replica, for BGSAVE or for BGREWRITEAOF needs it too. Reads, SAVE, the
active expiry and the rest of a resync do not.

The clock is `now`, which only moves forward.
-/

set_option autoImplicit false

namespace ByoRedis.Model

open ByoRedis.Lib

/-- Who holds `_write_lock`: nobody; a client's write with the records it has not finished,
the first of which may have been appended already; a rewrite that has taken its snapshot,
or built its payload. -/
inductive Holder where
  | free
  | writing (conn : ℕ) (records : List Command) (appended : Bool) (reply : Bytes)
  | rewriting (entries : Entries)
  | replacing (commands : List Command)

/-- How far a full resync is: the snapshot is being encoded, or the backlog is flushed with
`batch` taken and not yet written.
SOURCE: replication/master.py:143-189 -/
inductive Resync where
  | encoding (entries : Entries) (offset : ℕ)
  | flushing (batch : List Bytes)

/-- The server and its tasks. `bgsave` is the snapshot of a BGSAVE that has taken it, and
`handleClosed` says that a rewrite has closed the AOF and could not open it again. -/
structure System where
  server : Server
  now : ℤ := 0
  holder : Holder := .free
  bgsave : Option Entries := none
  resyncs : Dict ℕ Resync := Dict.empty
  handleClosed : Bool := false

/-- What a task does between two awaits. -/
inductive Action where
  | elapse (ms : ℕ)
  | connect (conn : ℕ)
  | disconnect (conn : ℕ)
  | command (conn : ℕ) (argv : Command) (env : Env)
  | append (fault : WriteFault)
  | propagate (fails : ℕ → Bool)
  | expireCycle (sample : List Bytes)
  | scheduleBgsave
  | bgsaveSnapshot
  | bgsaveWrite (time : ℤ)
  | bgsaveFail
  | rewriteSnapshot
  | rewriteBuild
  | rewriteReplace
  | rewriteFail
  | rewriteLose (replaced : Bool)
  | psync (conn : ℕ)
  | resyncSend (conn : ℕ)
  | resyncTake (conn : ℕ)
  | resyncWrite (conn : ℕ)
  | resyncFail (conn : ℕ)
  | drain (conn : ℕ)
  | drainFail (conn : ℕ)
  | unregister (conn : ℕ)

/-- What is observed of a run: a write took effect with its records, a record was appended,
a record was propagated, a snapshot was taken for a replica, the AOF was rewritten, a reply
was sent. -/
inductive Event where
  | executed (now : ℤ) (records : List Command)
  | appended (argv : Command)
  | propagated (argv : Command)
  | snapshot (conn : ℕ) (now : ℤ) (entries : Entries) (offset : ℕ)
  | rewritten (commands : List Command)
  | replied (conn : ℕ) (reply : Bytes)

namespace System

/-- Replacing the server. -/
def setServer (sys : System) (srv : Server) : System := { sys with server := srv }

/-- `store.snapshot()` by a task that holds the lock. -/
def purged (sys : System) : System :=
  sys.setServer { sys.server with store := (sys.server.store.snapshot sys.now).2 }

/-- A client's command up to its first await. PSYNC on a master goes to `psync`; a write
waits for the lock.
SOURCE: server.py:328-347, 409-498 -/
def command (sys : System) (conn : ℕ) (argv : Command) (env : Env) :
    Option (System × List Event) :=
  if upperName argv = ascii "PSYNC" ∧ sys.server.config.isReplica = false then none
  else
    match isWrite argv, sys.holder with
    | true, .writing .. => none
    | true, .rewriting _ => none
    | true, .replacing _ => none
    | _, _ =>
      match sys.server.prepare { env with now := sys.now } .client conn argv with
      | (.done reply, srv) =>
        some (sys.setServer srv, reply.toList.map (Event.replied conn))
      | (.records records _ reply, srv) =>
        some ({ sys with server := srv, holder := .writing conn records false reply },
          [.executed sys.now records])

/-- An append that waits for ever: a write to a closed file raises `ValueError`, which ends
the writer task, and nobody completes the record it had taken.
SOURCE: persistence/aof.py:100-122, 138-143, 167-186 -/
def deaf (sys : System) : Bool :=
  sys.handleClosed && sys.server.config.aofEnabled && sys.server.aof.opened &&
    sys.server.aof.healthy

/-- The AOF writer finishes with the record the lock holder waits for.
SOURCE: server.py:503-509, persistence/aof.py:100-122 -/
def append (sys : System) (fault : WriteFault) : Option (System × List Event) :=
  match sys.holder with
  | .writing conn (argv :: rest) false reply =>
    if sys.deaf then none
    else
      match sys.server.aof.append sys.server.config argv fault with
      | (.error text, aof) =>
        some ({ sys with
          server := { sys.server with
            aof := aof, totalCommandsFailed := sys.server.totalCommandsFailed + 1 }
          holder := .free }, [.replied conn (Server.misconfReply text)])
      | (.ok (), aof) =>
        some ({ sys with
          server := { sys.server with aof := aof }
          holder := .writing conn (argv :: rest) true reply }, [.appended argv])
  | _ => none

/-- The lock holder goes on after the append: it propagates the record, and replies and
releases the lock after the last one.
SOURCE: server.py:510-535 -/
def propagate (sys : System) (fails : ℕ → Bool) : Option (System × List Event) :=
  match sys.holder with
  | .writing conn (argv :: rest) true reply =>
    let sys := sys.setServer (sys.server.propagateRecord fails argv)
    match rest with
    | [] => some ({ sys with holder := .free }, [.propagated argv, .replied conn reply])
    | _ => some ({ sys with holder := .writing conn rest false reply }, [.propagated argv])
  | _ => none

/-- SOURCE: server.py:591-597 -/
def bgsaveSnapshot (sys : System) : Option (System × List Event) :=
  match sys.holder, sys.bgsave with
  | .free, none =>
    if sys.server.bgsaveInProgress then
      some ({ sys.purged with bgsave := some (sys.server.store.live sys.now) }, [])
    else none
  | _, _ => none

/-- The thread writes the file and the task goes on, in one step; `DiskSystem` takes it apart into
file operations, which the SAVE of a client may come between.
SOURCE: server.py:597-613 -/
def bgsaveWrite (sys : System) (time : ℤ) : Option (System × List Event) :=
  match sys.bgsave with
  | none => none
  | some entries =>
    let srv := { sys.server with bgsaveInProgress := false }
    let srv := match dumpRdbEntries entries with
      | none => srv
      | some payload => { srv with rdbFile := some payload, lastSaveTime := time }
    some ({ sys with server := srv, bgsave := none }, [])

/-- SOURCE: server.py:612-613 -/
def bgsaveFail (sys : System) : Option (System × List Event) :=
  match sys.bgsave with
  | none => none
  | some _ =>
    some ({ sys with
      server := { sys.server with bgsaveInProgress := false }
      bgsave := none }, [])

/-- The end of a rewrite. -/
def endRewrite (sys : System) (aof : AofLog) : System :=
  { sys with
    server := { sys.server with aof := aof, aofRewriteInProgress := false }
    holder := .free }

/-- SOURCE: server.py:632-637 -/
def rewriteSnapshot (sys : System) : Option (System × List Event) :=
  match sys.holder with
  | .free =>
    if sys.server.aofRewriteInProgress then
      some ({ sys.purged with holder := .rewriting (sys.server.store.live sys.now) }, [])
    else none
  | _ => none

/-- `_build_rewrite_payload`; a failure ends the rewrite.
SOURCE: persistence/aof.py:188-192, 320-345 -/
def rewriteBuild (sys : System) : Option (System × List Event) :=
  match sys.holder with
  | .rewriting entries =>
    match rewriteCommands sys.now entries with
    | none => some (sys.endRewrite sys.server.aof, [])
    | some commands => some ({ sys with holder := .replacing commands }, [])
  | _ => none

/-- The new file is in place and open, at the first or the second try. With a closed file in
hand `fileno` raises before that.
SOURCE: persistence/aof.py:193-211 -/
def rewriteReplace (sys : System) : Option (System × List Event) :=
  match sys.holder with
  | .replacing commands =>
    if sys.handleClosed then none
    else
      some (sys.endRewrite (sys.server.aof.replaceFile (commands.flatMap encodeCommand)),
        [.rewritten commands])
  | _ => none

/-- A rewrite that fails before the file is replaced; the file it had is as open as before.
SOURCE: persistence/aof.py:204-216, server.py:640-643 -/
def rewriteFail (sys : System) : Option (System × List Event) :=
  match sys.holder with
  | .rewriting _ => some (sys.endRewrite sys.server.aof, [])
  | .replacing _ => some (sys.endRewrite sys.server.aof, [])
  | _ => none

/-- A rewrite that has closed the file and can open none: neither the new one, which may be in
place, nor in the exception handler the one at the path.
SOURCE: persistence/aof.py:204-216 -/
def rewriteLose (sys : System) (replaced : Bool) : Option (System × List Event) :=
  match sys.holder with
  | .replacing commands =>
    if sys.handleClosed || !sys.server.aof.opened then none
    else if replaced then
      some ({ sys.endRewrite (sys.server.aof.replaceFile (commands.flatMap encodeCommand)) with
        handleClosed := true }, [.rewritten commands])
    else some ({ sys.endRewrite sys.server.aof with handleClosed := true }, [])
  | _ => none

/-- PSYNC on a master: registration and snapshot under the lock. A connection asks once.
SOURCE: server.py:328-330, replication/master.py:146-151 -/
def psync (sys : System) (conn : ℕ) : Option (System × List Event) :=
  match sys.holder, sys.server.master.links.get? conn with
  | .free, none =>
    if sys.server.config.isReplica then none
    else
      let entries := sys.server.store.live sys.now
      let offset := sys.server.master.offset
      some ({ sys with
        server := { sys.purged.server with master := sys.server.master.registerSyncing conn }
        resyncs := sys.resyncs.insert conn (.encoding entries offset) },
        [.snapshot conn sys.now entries offset])
  | _, _ => none

/-- A resync that ends with an exception. -/
def abortResync (sys : System) (conn : ℕ) : System :=
  { sys with
    server := { sys.server with master := sys.server.master.unregister conn }
    resyncs := sys.resyncs.erase conn }

/-- Header and snapshot are written once the snapshot is encoded.
SOURCE: replication/master.py:152-161 -/
def resyncSend (sys : System) (conn : ℕ) : Option (System × List Event) :=
  match sys.resyncs.get? conn with
  | some (.encoding entries offset) =>
    match dumpRdbEntries entries with
    | none => some (sys.abortResync conn, [])
    | some rdb =>
      let payload := MasterReplication.fullresyncPayload sys.server.master.replid.text offset rdb
      some ({ sys with
        server := { sys.server with master := sys.server.master.writeLink conn payload }
        resyncs := sys.resyncs.insert conn (.flushing []) }, [])
  | _ => none

/-- The locked part of a turn of the flush loop.
SOURCE: replication/master.py:166-178 -/
def resyncTake (sys : System) (conn : ℕ) : Option (System × List Event) :=
  match sys.resyncs.get? conn with
  | some (.flushing []) =>
    let taken := sys.server.master.takeBatch conn
    let srv := { sys.server with master := taken.2 }
    some ({ sys with
      server := srv
      resyncs := if taken.1.isEmpty then sys.resyncs.erase conn
        else sys.resyncs.insert conn (.flushing taken.1) }, [])
  | _ => none

/-- SOURCE: replication/master.py:180-189 -/
def resyncWrite (sys : System) (conn : ℕ) : Option (System × List Event) :=
  match sys.resyncs.get? conn with
  | some (.flushing batch) =>
    if batch.isEmpty then none
    else
      some ({ sys with
        server := { sys.server with master := sys.server.master.writeLink conn batch.flatten }
        resyncs := sys.resyncs.insert conn (.flushing []) }, [])
  | _ => none

/-- A drain of the replica's writer that raises.
SOURCE: replication/master.py:263-276 -/
def drainFail (sys : System) (conn : ℕ) : Option (System × List Event) :=
  match sys.server.master.links.get? conn with
  | none => none
  | some link =>
    some (sys.setServer { sys.server with
      master := sys.server.master.setLink conn { link with alive := false }
      unregisters := sys.server.unregisters ++ [conn] }, [])

/-- One action. -/
def step (sys : System) : Action → Option (System × List Event)
  | .elapse ms => some ({ sys with now := sys.now + ms }, [])
  | .connect conn => some (sys.setServer (sys.server.openConnection conn), [])
  | .disconnect conn =>
    some ({ sys with
      server := sys.server.closeConnection conn
      resyncs := sys.resyncs.erase conn }, [])
  | .command conn argv env => sys.command conn argv env
  | .append fault => sys.append fault
  | .propagate fails => sys.propagate fails
  | .expireCycle sample =>
    some (sys.setServer { sys.server with
      store := (sys.server.store.activeExpireCycle sys.now sample).2 }, [])
  | .scheduleBgsave => some (sys.setServer { sys.server with bgsaveInProgress := true }, [])
  | .bgsaveSnapshot => sys.bgsaveSnapshot
  | .bgsaveWrite time => sys.bgsaveWrite time
  | .bgsaveFail => sys.bgsaveFail
  | .rewriteSnapshot => sys.rewriteSnapshot
  | .rewriteBuild => sys.rewriteBuild
  | .rewriteReplace => sys.rewriteReplace
  | .rewriteFail => sys.rewriteFail
  | .rewriteLose replaced => sys.rewriteLose replaced
  | .psync conn => sys.psync conn
  | .resyncSend conn => sys.resyncSend conn
  | .resyncTake conn => sys.resyncTake conn
  | .resyncWrite conn => sys.resyncWrite conn
  | .resyncFail conn =>
    if (sys.resyncs.get? conn).isSome then some (sys.abortResync conn, []) else none
  | .drain conn =>
    some (sys.setServer { sys.server with master := sys.server.master.drainOne conn }, [])
  | .drainFail conn => sys.drainFail conn
  | .unregister conn =>
    if conn ∈ sys.server.unregisters then
      some (sys.setServer { sys.server with
        master := sys.server.master.unregister conn
        unregisters := sys.server.unregisters.erase conn }, [])
    else none

end System

end ByoRedis.Model
