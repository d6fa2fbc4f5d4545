import ByoRedis.Model.RdbFiles
import ByoRedis.Model.System

/-!
# The server and the RDB file on the disk

`System` saves in one step. Here a save is what it is on the file system: SAVE takes its
snapshot and does its file operations on the event loop, which does nothing else until they are
over, and a BGSAVE does them in a worker thread while the event loop goes on, with the temporary
file of SAVE. A crash may come between any two of them. The steps of `RdbFiles` are the file
operations; everything else is a step of `System`, which a saver takes when its operations have
ended.
-/

set_option autoImplicit false

namespace ByoRedis.Model

open ByoRedis.Lib

/-- A SAVE that the event loop is at: the client, its command and the saver. -/
structure Saving where
  conn : ℕ
  argv : Command
  saver : Saver

/-- The server and the files. `thread` is what has become of the file operations of a BGSAVE
whose task waits for them. -/
structure DiskSystem where
  system : System
  files : Files RdbName UInt8 := {}
  save : Option Saving := none
  thread : Option SaveResult := none

/-- What happens next: an action of the server that saves nothing, a SAVE or one of its file
operations, or the start, a file operation or the end of a BGSAVE's. `env` is what the reply of a
SAVE is made with. -/
inductive DiskAction where
  | server (action : Action)
  | saveStart (conn : ℕ) (argv : Command)
  | save (step : SaveStep) (env : Env)
  | bgsaveStart
  | bgsave (step : SaveStep)
  | bgsaveEnd (time : ℤ)

/-- The encoding that a command writes to the RDB file: that of the keyspace, when the command is
a SAVE that reaches its handler and the keyspace can be encoded.
SOURCE: server.py:436-445, commands/server_cmds.py:86-94, persistence/rdb.py:116-118 -/
def System.savePayload (sys : System) (conn : ℕ) (argv : Command) : Option Bytes :=
  if upperName argv = ascii "SAVE" ∧ argv.length = 1 ∧
      sys.server.noauth .client conn argv = false then
    dumpRdbEntries (sys.server.store.live sys.now)
  else none

namespace DiskSystem

/-- Whether an action of the server is one of those that the savers take. -/
def ofSaver (disk : DiskSystem) : Action → Bool
  | .command conn argv _ => (disk.system.savePayload conn argv).isSome
  | .bgsaveWrite _ => true
  | .bgsaveFail => disk.thread.isSome
  | _ => false

/-- An action of the server, with the savers left as they are. -/
def act (disk : DiskSystem) (action : Action) : Option (DiskSystem × List Event) :=
  (disk.system.step action).map fun r => ({ disk with system := r.1 }, r.2)

/-- The fate of a SAVE as its handler sees it. -/
def reported (env : Env) : SaveResult → Env
  | .failed => { env with saveError := some (env.saveError.getD []) }
  | _ => { env with saveError := none }

/-- A file operation of SAVE. When it is the last one the handler goes on to its reply.
SOURCE: persistence/rdb.py:116-125, commands/server_cmds.py:86-94 -/
def stepSave (disk : DiskSystem) (step : SaveStep) (env : Env) :
    Option (DiskSystem × List Event) :=
  disk.save.bind fun saving =>
    (saving.saver.step disk.files step).bind fun r =>
      match r.1 with
      | .running saver =>
        some ({ disk with files := r.2, save := some { saving with saver := saver } }, [])
      | ended =>
        { disk with files := r.2, save := none }.act
          (.command saving.conn saving.argv (reported env ended))

/-- The task of a BGSAVE goes on after its thread, or after the encoding that failed.
SOURCE: server.py:607-613 -/
def stepBgsaveEnd (disk : DiskSystem) (time : ℤ) : Option (DiskSystem × List Event) :=
  match disk.thread with
  | some .done => { disk with thread := none }.act (.bgsaveWrite time)
  | some .failed => { disk with thread := none }.act .bgsaveFail
  | some (.running _) => none
  | none =>
    disk.system.bgsave.bind fun entries =>
      if (dumpRdbEntries entries).isNone then disk.act (.bgsaveWrite time) else none

/-- One step. While a SAVE is at work nothing but the thread of a BGSAVE goes on.
SOURCE: server.py:580-613 -/
def step (disk : DiskSystem) : DiskAction → Option (DiskSystem × List Event)
  | .server action =>
    if disk.save.isNone ∧ disk.ofSaver action = false then disk.act action else none
  | .saveStart conn argv =>
    if disk.save.isNone then
      (disk.system.savePayload conn argv).map fun payload =>
        ({ disk with
          save := some { conn := conn, argv := argv
                         saver := { number := 0, payload := payload } } }, [])
    else none
  | .save step env => disk.stepSave step env
  | .bgsaveStart =>
    if disk.save.isNone ∧ disk.thread.isNone then
      (disk.system.bgsave.bind dumpRdbEntries).map fun payload =>
        ({ disk with thread := some (.running { number := 0, payload := payload }) }, [])
    else none
  | .bgsave step =>
    match disk.thread with
    | some (.running saver) =>
      (saver.step disk.files step).map fun r =>
        ({ disk with files := r.2, thread := some r.1 }, [])
    | _ => none
  | .bgsaveEnd time => if disk.save.isNone then disk.stepBgsaveEnd time else none

end DiskSystem

end ByoRedis.Model
