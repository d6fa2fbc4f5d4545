import ByoRedis.Lib.WaitQueue
import ByoRedis.Model.Aof
import ByoRedis.Model.Config

/-!
# The tasks of the append-only log

`AOFLog` of `byo_redis/persistence/aof.py` as the event loop runs it: any number of calls of
`append`, the writer task, the periodic fsync, rewrites and `close`. A step takes one task
from one await to the next, or does what a worker thread does to the file; between the end of
a thread's call and the moment when its task goes on, other tasks may run.

`append` puts its record with `wait_for`. Python 3.11 runs the put in a task of its own and
later versions run it at once, so it is a step of its own here. What the operating system
decides is an argument of the step: whether a file operation fails, and with which text.
A write that fails writes nothing. Nobody cancels an append or the writer.
-/

set_option autoImplicit false

namespace ByoRedis.Model

open ByoRedis.Lib

/-! ## The state -/

/-- An exception of a call: `OSError` with its text, or the `ValueError` of an operation on a
closed file. -/
inductive Raised where
  | osError (text : Str)
  | valueError
  deriving DecidableEq

/-- `_fh`: `None`, an open file, or a file that was closed and could not be opened again. -/
inductive Handle where
  | none
  | opened
  | closed
  deriving DecidableEq

/-- `_AofItem`; its future is named by the append that waits for it. -/
structure AofItem where
  payload : Bytes
  completed : ℕ
  deriving DecidableEq

/-- A call in a worker thread: not ended yet, or ended without its task having gone on. -/
inductive ThreadCall where
  | running
  | ended (raised : Option Raised)
  deriving DecidableEq

/-- Where a call of `append` stands. `entering`: before its put; `waiting` and `woken`: inside
the put, in line and out of it; `queued`: at `await completed`; `resolved`: that future has
its result; `writing` and `syncing`: the route without a writer. -/
inductive AppendStage where
  | entering
  | waiting
  | woken
  | queued
  | resolved (raised : Option Raised)
  | writing (call : ThreadCall)
  | syncing (call : ThreadCall)
  | done (raised : Option Raised)
  deriving DecidableEq

/-- A call of `append`. -/
structure Append where
  argv : Command
  stage : AppendStage
  deriving DecidableEq

/-- Where the writer task stands. -/
inductive WriterStage where
  | getting
  | writing (item : AofItem) (call : ThreadCall)
  | syncing (item : AofItem) (call : ThreadCall)
  | ended (raised : Option Raised)
  deriving DecidableEq

/-- Where the periodic fsync stands; `off` under the other policies. -/
inductive FsyncStage where
  | off
  | sleeping
  | syncing (call : ThreadCall)
  | ended (raised : Option Raised)
  deriving DecidableEq

/-- Where `close` stands: `joining` waits for the writer. -/
inductive CloseStage where
  | notCalled
  | waiting
  | woken
  | joining
  | finishing
  | done (raised : Option Raised)
  deriving DecidableEq

/-- Who waits in `put`. -/
inductive Putter where
  | append (id : ℕ)
  | close
  deriving DecidableEq

/-- `AOFLog` with its tasks and its file. The file is `base ++ written`: what it held when it
was opened or replaced, and what was written since, of which `synced` bytes are covered by a
completed fsync. `enqueued` are the items put since then. -/
structure AofTasks where
  policy : AofFsync
  queue : WaitQueue (Option AofItem) Putter
  base : Bytes
  fsyncLoop : FsyncStage
  handle : Handle := .opened
  dirty : Bool := false
  closed : Bool := false
  failure : Option Str := none
  hasQueue : Bool := true
  hasWriter : Bool := true
  appends : List Append := []
  writer : WriterStage := .getting
  close : CloseStage := .notCalled
  written : Bytes := []
  synced : ℕ := 0
  enqueued : List AofItem := []

/-! ## What may happen -/

/-- A step of an append: `put` looks whether there is a place, `timeout` ends the wait, and
`thread` is a file operation, with the text when it fails. -/
inductive AppendStep where
  | put
  | timeout
  | thread (fault : Option Str)
  | resume

/-- A step of the writer task. -/
inductive WriterStep where
  | get
  | thread (fault : Option Str)
  | resume

/-- A step of the periodic fsync. -/
inductive FsyncStep where
  | wake
  | thread (fault : Option Str)
  | resume

/-- How `_replace_file_sync` goes: which operation fails, and whether the file can be opened
again then. -/
inductive ReplaceOutcome where
  | tmpFails
  | syncFails
  | closeFails (reopened : Bool)
  | moveFails (reopened : Bool)
  | openFails (reopened : Bool)
  | replaced
  deriving DecidableEq

/-- A step of `close`; the last one fsyncs and closes the file. -/
inductive CloseStep where
  | call
  | put
  | join
  | finish (syncFault closeFault : Option Str)

/-- Who takes a step. -/
inductive AofAction where
  | start (argv : Command)
  | append (id : ℕ) (step : AppendStep)
  | writer (step : WriterStep)
  | fsyncLoop (step : FsyncStep)
  | replace (payload : Bytes) (outcome : ReplaceOutcome)
  | close (step : CloseStep)

/-- The result of a future, unless it has one. -/
def AppendStage.resolve (raised : Option Raised) : AppendStage → AppendStage
  | .queued => .resolved raised
  | s => s

/-- A producer in line is woken. -/
def AppendStage.wake : AppendStage → AppendStage
  | .waiting => .woken
  | s => s

/-- An append that has passed its checks and is not in the queue. -/
def AppendStage.admitted : AppendStage → Bool
  | .entering => true
  | .waiting => true
  | .woken => true
  | _ => false

/-- The same for the sentinel of `close`. -/
def CloseStage.wake : CloseStage → CloseStage
  | .waiting => .woken
  | s => s

namespace AofTasks

/-- `open` and `start_background_fsync` on a file that holds `base`.
SOURCE: persistence/aof.py:77-98 -/
def started (policy : AofFsync) (queueMaxCommands : ℕ) (base : Bytes) : AofTasks where
  policy := policy
  queue := { maxsize := queueMaxCommands }
  base := base
  fsyncLoop := if policy = .everysec then .sleeping else .off

/-- The stage of an append changes. -/
def update (st : AofTasks) (id : ℕ) (f : AppendStage → AppendStage) : AofTasks :=
  { st with appends := st.appends.modify id fun a => { a with stage := f a.stage } }

/-- Wakes a producer that was taken out of the line. -/
def wake (st : AofTasks) : Option Putter → AofTasks
  | none => st
  | some (.append id) => st.update id .wake
  | some .close => { st with close := st.close.wake }

/-! ## Worker threads -/

/-- `_write_sync`. The check and the write are one step: only `close` sets `_fh` to `None`,
and it waits for the writer first.
SOURCE: persistence/aof.py:138-143 -/
def writeSync (st : AofTasks) (payload : Bytes) (fault : Option Str) :
    Option Raised × AofTasks :=
  match st.handle with
  | .none => (some (.osError "AOF is not open".toList), st)
  | .closed => (some .valueError, st)
  | .opened =>
    match fault with
    | some text => (some (.osError text), st)
    | none => (none, { st with written := st.written ++ payload, dirty := true })

/-- `_fsync_sync`.
SOURCE: persistence/aof.py:145-151 -/
def fsyncSync (st : AofTasks) (fault : Option Str) : Option Raised × AofTasks :=
  if st.dirty then
    match st.handle with
    | .none => (none, st)
    | .closed => (some .valueError, st)
    | .opened =>
      match fault with
      | some text => (some (.osError text), st)
      | none => (none, { st with synced := st.written.length, dirty := false })
  else (none, st)

/-- The old file is fsynced before it is closed. -/
def syncOld (st : AofTasks) : AofTasks :=
  if st.handle = .opened then { st with synced := st.written.length, handle := .closed } else st

/-- The `except` branch opens whatever is at the path. -/
def reopen (st : AofTasks) (reopened : Bool) : AofTasks :=
  if reopened then { st with handle := .opened } else st

/-- `os.replace` has put the rewritten file in place. -/
def moved (st : AofTasks) (payload : Bytes) : AofTasks :=
  { st with base := payload, written := [], synced := 0, enqueued := [] }

/-- `_replace_file_sync`: the part under the lock. `fileno` of a closed file raises
`ValueError`, which nothing catches.
SOURCE: persistence/aof.py:196-216 -/
def replaceFileSync (st : AofTasks) (payload : Bytes) (outcome : ReplaceOutcome) : AofTasks :=
  if st.handle = .closed then st
  else
    match outcome with
    | .tmpFails => st
    | .syncFails => st
    | .closeFails reopened =>
      if st.handle = .opened then st.syncOld.reopen reopened else st
    | .moveFails reopened => st.syncOld.reopen reopened
    | .openFails reopened => (st.syncOld.moved payload).reopen reopened
    | .replaced => { st.syncOld.moved payload with handle := .opened, dirty := false }

/-! ## Tasks -/

/-- Whether a new append takes the way through the queue. -/
def queues (st : AofTasks) : Bool :=
  st.handle ≠ .none && st.failure.isNone && st.hasQueue && st.hasWriter

/-- `append` up to its first await.
SOURCE: persistence/aof.py:167-181 -/
def startAppend (st : AofTasks) (argv : Command) : AofTasks :=
  let stage :=
    if st.handle = .none then .done none
    else
      match st.failure with
      | some text => .done (some (.osError ("AOF is unhealthy: ".toList ++ text)))
      | none => if st.hasQueue && st.hasWriter then .entering else .writing .running
  { st with appends := st.appends ++ [{ argv := argv, stage := stage }] }

/-- `put` of an append, from the look at the queue on.
SOURCE: persistence/aof.py:179-186 -/
def putItem (st : AofTasks) (id : ℕ) (argv : Command) : AofTasks :=
  if st.queue.full then
    { st with queue := st.queue.wait (.append id) }.update id fun _ => .waiting
  else
    let item : AofItem := { payload := encodeCommand argv, completed := id }
    { st with
      queue := st.queue.putNowait (some item)
      enqueued := st.enqueued ++ [item] }.update id fun _ => .queued

/-- A producer that was woken for a place it does not take wakes the next. -/
def passOn (st : AofTasks) : AofTasks :=
  if st.queue.full then st
  else { st with queue := st.queue.wakeupNext.2 }.wake st.queue.wakeupNext.1

/-- The timeout of `wait_for` cancels the put; a producer in line leaves it.
SOURCE: persistence/aof.py:182-185 -/
def timeOut (st : AofTasks) (id : ℕ) (stage : AppendStage) : AofTasks :=
  let st := st.update id fun _ => .done (some (.osError "AOF queue is full".toList))
  match stage with
  | .waiting => { st with queue := st.queue.leave (.append id) }
  | .woken => st.passOn
  | _ => st

/-- One step of an append.
SOURCE: persistence/aof.py:167-186 -/
def stepAppend (st : AofTasks) (id : ℕ) (a : Append) : AppendStep → Option AofTasks
  | .put =>
    match a.stage with
    | .entering => some (st.putItem id a.argv)
    | .woken => some (st.putItem id a.argv)
    | _ => none
  | .timeout => if a.stage.admitted then some (st.timeOut id a.stage) else none
  | .thread fault =>
    match a.stage with
    | .writing .running =>
      let r := st.writeSync (encodeCommand a.argv) fault
      some (r.2.update id fun _ => .writing (.ended r.1))
    | .syncing .running =>
      let r := st.fsyncSync fault
      some (r.2.update id fun _ => .syncing (.ended r.1))
    | _ => none
  | .resume =>
    match a.stage with
    | .resolved raised => some (st.update id fun _ => .done raised)
    | .writing (.ended none) =>
      some (st.update id fun _ => if st.policy = .always then .syncing .running else .done none)
    | .writing (.ended (some e)) => some (st.update id fun _ => .done (some e))
    | .syncing (.ended raised) => some (st.update id fun _ => .done raised)
    | _ => none

/-- The loop of `_fail_pending`, at most `n` times. -/
def failPendingLoop (text : Str) : ℕ → AofTasks → AofTasks
  | 0, st => st
  | n + 1, st =>
    match st.queue.getNowait with
    | none => st
    | some (item, woken, queue) =>
      let st := { st with queue := queue }.wake woken
      match item with
      | some item =>
        failPendingLoop text n (st.update item.completed (.resolve (some (.osError text))))
      | none => failPendingLoop text n st

/-- `_fail_pending`: every item in the queue fails, and the sentinel of `close` is lost.
SOURCE: persistence/aof.py:127-136 -/
def failPending (st : AofTasks) (text : Str) : AofTasks :=
  if st.hasQueue then failPendingLoop text st.queue.items.length st else st

/-- The writer with its item in the file. -/
def completeItem (st : AofTasks) (item : AofItem) : AofTasks :=
  { st.update item.completed (.resolve none) with writer := .getting }

/-- The writer whose call raised: only `OSError` is caught.
SOURCE: persistence/aof.py:111-117 -/
def failItem (st : AofTasks) (item : AofItem) : Raised → AofTasks
  | .osError text =>
    let st := { st with failure := some text }
    let st := (st.update item.completed (.resolve (some (.osError text)))).failPending text
    { st with writer := .ended none }
  | .valueError => { st with writer := .ended (some .valueError) }

/-- One step of `_writer_loop`.
SOURCE: persistence/aof.py:100-125 -/
def stepWriter (st : AofTasks) : WriterStep → Option AofTasks
  | .get =>
    match st.writer with
    | .getting =>
      st.queue.getNowait.map fun r =>
        let st := { st with queue := r.2.2 }.wake r.2.1
        match r.1 with
        | some item => { st with writer := .writing item .running }
        | none => { st with writer := .ended none }
    | _ => none
  | .thread fault =>
    match st.writer with
    | .writing item .running =>
      let r := st.writeSync item.payload fault
      some { r.2 with writer := .writing item (.ended r.1) }
    | .syncing item .running =>
      let r := st.fsyncSync fault
      some { r.2 with writer := .syncing item (.ended r.1) }
    | _ => none
  | .resume =>
    match st.writer with
    | .writing item (.ended none) =>
      if st.policy = .always then some { st with writer := .syncing item .running }
      else some (st.completeItem item)
    | .syncing item (.ended none) => some (st.completeItem item)
    | .writing item (.ended (some e)) => some (st.failItem item e)
    | .syncing item (.ended (some e)) => some (st.failItem item e)
    | _ => none

/-- One step of `_fsync_loop`.
SOURCE: persistence/aof.py:153-165 -/
def stepFsync (st : AofTasks) : FsyncStep → Option AofTasks
  | .wake =>
    match st.fsyncLoop with
    | .sleeping => some { st with fsyncLoop := .syncing .running }
    | _ => none
  | .thread fault =>
    match st.fsyncLoop with
    | .syncing .running =>
      let r := st.fsyncSync fault
      some { r.2 with fsyncLoop := .syncing (.ended r.1) }
    | _ => none
  | .resume =>
    match st.fsyncLoop with
    | .syncing (.ended none) =>
      some { st with fsyncLoop := if st.closed then .ended none else .sleeping }
    | .syncing (.ended (some (.osError text))) =>
      some { { st with failure := some text }.failPending text with fsyncLoop := .ended none }
    | .syncing (.ended (some .valueError)) =>
      some { st with fsyncLoop := .ended (some .valueError) }
    | _ => none

/-- `put` of the sentinel. -/
def putSentinel (st : AofTasks) : AofTasks :=
  if st.queue.full then { st with queue := st.queue.wait .close, close := .waiting }
  else { st with queue := st.queue.putNowait none, close := .joining }

/-- The writer has ended: the periodic fsync is cancelled, unless it had failed.
SOURCE: persistence/aof.py:226-238 -/
def cancelFsync (st : AofTasks) : AofTasks :=
  match st.fsyncLoop with
  | .ended (some e) => { st with close := .done (some e) }
  | .off => { st with close := .finishing }
  | _ => { st with fsyncLoop := .ended none, close := .finishing }

/-- The last part of `close`, which has no await.
SOURCE: persistence/aof.py:239-248 -/
def finishClose (st : AofTasks) (syncFault closeFault : Option Str) : AofTasks :=
  match st.handle with
  | .none => { st with hasQueue := false, close := .done none }
  | _ =>
    let r := st.fsyncSync syncFault
    match r.1, closeFault with
    | some .valueError, _ => { r.2 with handle := .none, close := .done (some .valueError) }
    | _, some text => { r.2 with handle := .none, close := .done (some (.osError text)) }
    | _, none => { r.2 with handle := .none, hasQueue := false, close := .done none }

/-- One step of `close`.
SOURCE: persistence/aof.py:218-248 -/
def stepClose (st : AofTasks) : CloseStep → Option AofTasks
  | .call =>
    match st.close with
    | .notCalled =>
      let st := { st with closed := true, close := .joining }
      match st.writer with
      | .ended _ => some st
      | _ => if st.hasQueue && st.hasWriter then some st.putSentinel else some st
    | _ => none
  | .put =>
    match st.close with
    | .woken => some st.putSentinel
    | _ => none
  | .join =>
    match st.close, st.writer with
    | .joining, .ended none => some { st with hasWriter := false }.cancelFsync
    | .joining, .ended (some e) => some { st with close := .done (some e) }
    | _, _ => none
  | .finish syncFault closeFault =>
    match st.close with
    | .finishing => some (st.finishClose syncFault closeFault)
    | _ => none

/-- The append that has just returned normally, if it has. -/
def returned (st : AofTasks) (id : ℕ) : List ℕ :=
  if st.appends[id]?.map Append.stage = some (.done none) then [id] else []

/-- One step; the events are the appends that return normally in it. -/
def step (st : AofTasks) : AofAction → Option (AofTasks × List ℕ)
  | .start argv => some (st.startAppend argv, (st.startAppend argv).returned st.appends.length)
  | .append id e =>
    st.appends[id]?.bind fun a => (st.stepAppend id a e).map fun st' => (st', st'.returned id)
  | .writer e => (st.stepWriter e).map fun st' => (st', [])
  | .fsyncLoop e => (st.stepFsync e).map fun st' => (st', [])
  | .replace payload outcome => some (st.replaceFileSync payload outcome, [])
  | .close e => (st.stepClose e).map fun st' => (st', [])

end AofTasks

end ByoRedis.Model
