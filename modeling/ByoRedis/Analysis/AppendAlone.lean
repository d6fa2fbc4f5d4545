import ByoRedis.Analysis.AppendSteps
import ByoRedis.Lib.Trace
import ByoRedis.Model.Server

/-!
# An append that nothing interrupts

The server's model appends a record in one step, with the fate of the record as an argument.
Here that step is a run of the tasks: for every fate there is a schedule of the append, the
writer and the periodic fsync that ends with the same file, the same health and the same
outcome of the call (`append_alone`), and every schedule in which the call ends is that of a fate
(`append_fated`). The exception is a log that a rewrite has left closed: there the writer ends on
a `ValueError`, and a call that has put its record never ends.
-/

set_option autoImplicit false

namespace ByoRedis.Analysis

open ByoRedis.Model ByoRedis.Lib

/-- The log as the server's model sees it. -/
def seenLog (st : AofTasks) : AofLog where
  file := some (st.base ++ st.written)
  opened := st.handle = .opened
  failure := st.failure

/-- How a call of `append` ended. -/
def outcome : Option Raised → Except Str Unit
  | some (.osError text) => .error text
  | _ => .ok ()

/-- Nobody uses the log, which is open and healthy. -/
structure Quiet (st : AofTasks) : Prop where
  handle : st.handle = .opened
  failure : st.failure = none
  hasQueue : st.hasQueue = true
  hasWriter : st.hasWriter = true
  items : st.queue.items = []
  putters : st.queue.putters = []
  writer : st.writer = .getting
  fsyncLoop : st.policy = .everysec → st.fsyncLoop = .sleeping

/-- A run of the tasks. -/
def TaskRun (st : AofTasks) (acked : List ℕ) (st' : AofTasks) : Prop :=
  Runs AofTasks.step (fun _ _ => True) st acked st'

/-- Changing the last element. -/
theorem modify_last (l : List Append) (a : Append) (f : Append → Append) :
    (l ++ [a]).modify l.length f = l ++ [f a] := by
  induction l with
  | nil => rfl
  | cons b l ih => exact congrArg (b :: ·) ih

/-- The log with a last append. -/
def withLast (st : AofTasks) (l : List Append) (argv : Command) (stage : AppendStage) : AofTasks :=
  { st with appends := l ++ [{ argv := argv, stage := stage }] }

/-- The item of an append. -/
def itemOf (argv : Command) (id : ℕ) : AofItem := { payload := encodeCommand argv, completed := id }

variable {st s s' : AofTasks} {l : List Append} {argv : Command} {stage : AppendStage}
  {acked es : List ℕ}

/-- A run goes on by a step. -/
theorem TaskRun.then (h : TaskRun st acked s) {action : AofAction}
    (hs : s.step action = some (s', es)) : TaskRun st (acked ++ es) s' := Runs.step h trivial hs

/-! ## Single steps -/

/-- The call passes the checks. -/
theorem step_start (h : Quiet st) (argv : Command) :
    st.step (.start argv) = some (withLast st st.appends argv .entering, []) := by
  simp [AofTasks.step, AofTasks.startAppend, AofTasks.returned, h.handle, h.failure, h.hasQueue,
    h.hasWriter, withLast]

/-- Its item goes into the empty queue. -/
theorem step_put (hitems : s.queue.items = []) :
    (withLast s l argv .entering).step (.append l.length .put) =
      some (withLast { s with
        queue := { s.queue with items := [some (itemOf argv l.length)] }
        enqueued := s.enqueued ++ [itemOf argv l.length] } l argv .queued, []) := by
  have hfull : s.queue.full = false := by
    simp only [WaitQueue.full, hitems, List.length_nil, decide_eq_false_iff_not]
    omega
  simp [AofTasks.step, AofTasks.stepAppend, AofTasks.putItem, AofTasks.returned, hfull,
    AofTasks.update, modify_last, withLast, WaitQueue.putNowait, hitems, itemOf]

/-- The call gives up before its put. -/
theorem step_timeout :
    (withLast s l argv .entering).step (.append l.length .timeout) =
      some (withLast s l argv (.done (some (.osError "AOF queue is full".toList))), []) := by
  simp [AofTasks.step, AofTasks.stepAppend, AofTasks.timeOut, AppendStage.admitted, withLast,
    AofTasks.update, modify_last, AofTasks.returned]

/-- The call returns or raises what its future was given. -/
theorem step_return (raised : Option Raised) :
    (withLast s l argv (.resolved raised)).step (.append l.length .resume) =
      some (withLast s l argv (.done raised), if raised = none then [l.length] else []) := by
  simp [AofTasks.step, AofTasks.stepAppend, AofTasks.returned, AofTasks.update, modify_last,
    withLast]

/-- The writer completes the record. -/
theorem step_complete {x : AofItem} (hx : x.completed = l.length)
    (hw : s.writer = .writing x (.ended none) ∧ s.policy ≠ .always ∨
      s.writer = .syncing x (.ended none)) :
    (withLast s l argv .queued).step (.writer .resume) =
      some (withLast { s with writer := .getting } l argv (.resolved none), []) := by
  rcases hw with ⟨hw, hpolicy⟩ | hw
  · simp [AofTasks.step, AofTasks.stepWriter, AofTasks.completeItem, withLast, hw, hpolicy, hx,
      AofTasks.update, modify_last, AppendStage.resolve]
  · simp [AofTasks.step, AofTasks.stepWriter, AofTasks.completeItem, withLast, hw, hx,
      AofTasks.update, modify_last, AppendStage.resolve]

/-- The writer ends on an error, with nothing else in the queue. -/
theorem step_fail {x : AofItem} {text : Str} (hx : x.completed = l.length)
    (hitems : s.queue.items = [])
    (hw : s.writer = .writing x (.ended (some (.osError text))) ∨
      s.writer = .syncing x (.ended (some (.osError text)))) :
    (withLast s l argv .queued).step (.writer .resume) =
      some (withLast { s with failure := some text, writer := .ended none } l argv
        (.resolved (some (.osError text))), []) := by
  rcases hw with hw | hw
  all_goals
    simp [AofTasks.step, AofTasks.stepWriter, AofTasks.failItem, withLast, hw, hx,
      AofTasks.update, modify_last, AppendStage.resolve, AofTasks.failPending, hitems,
      AofTasks.failPendingLoop]

/-- The writer takes the record. -/
theorem step_get {x : AofItem} (hw : s.writer = .getting) (hitems : s.queue.items = [some x])
    (hputters : s.queue.putters = []) :
    (withLast s l argv stage).step (.writer .get) =
      some (withLast { s with
        queue := { s.queue with items := [] }, writer := .writing x .running }
        l argv stage, []) := by
  simp [AofTasks.step, AofTasks.stepWriter, withLast, hw, WaitQueue.getNowait, hitems,
    WaitQueue.wakeupNext, hputters, AofTasks.wake]

/-- The thread writes the record. -/
theorem step_write {x : AofItem} (hw : s.writer = .writing x .running)
    (hh : s.handle = .opened) :
    (withLast s l argv stage).step (.writer (.thread none)) =
      some (withLast { s with
        written := s.written ++ x.payload, dirty := true, writer := .writing x (.ended none) }
        l argv stage, []) := by
  simp [AofTasks.step, AofTasks.stepWriter, withLast, hw, AofTasks.writeSync, hh]

/-- The thread raises. -/
theorem step_writeFails {x : AofItem} {t : Str} (hw : s.writer = .writing x .running)
    (hh : s.handle = .opened) :
    (withLast s l argv stage).step (.writer (.thread (some t))) =
      some (withLast { s with writer := .writing x (.ended (some (.osError t))) }
        l argv stage, []) := by
  simp [AofTasks.step, AofTasks.stepWriter, withLast, hw, AofTasks.writeSync, hh]

/-- Under `always` the fsync comes next. -/
theorem step_always {x : AofItem} (hw : s.writer = .writing x (.ended none))
    (hpolicy : s.policy = .always) :
    (withLast s l argv stage).step (.writer .resume) =
      some (withLast { s with writer := .syncing x .running } l argv stage, []) := by
  simp [AofTasks.step, AofTasks.stepWriter, withLast, hw, hpolicy]

/-- The thread syncs. -/
theorem step_sync {x : AofItem} (hw : s.writer = .syncing x .running) (hh : s.handle = .opened)
    (hd : s.dirty = true) :
    (withLast s l argv stage).step (.writer (.thread none)) =
      some (withLast { s with
        synced := s.written.length, dirty := false, writer := .syncing x (.ended none) }
        l argv stage, []) := by
  simp [AofTasks.step, AofTasks.stepWriter, withLast, hw, AofTasks.fsyncSync, hh, hd]

/-- The fsync raises. -/
theorem step_syncFails {x : AofItem} {t : Str} (hw : s.writer = .syncing x .running)
    (hh : s.handle = .opened) (hd : s.dirty = true) :
    (withLast s l argv stage).step (.writer (.thread (some t))) =
      some (withLast { s with writer := .syncing x (.ended (some (.osError t))) }
        l argv stage, []) := by
  simp [AofTasks.step, AofTasks.stepWriter, withLast, hw, AofTasks.fsyncSync, hh, hd]

/-- The periodic fsync wakes up and fails, up to the moment when its task goes on. -/
theorem taskRun_periodic (s : AofTasks) (text : Str) (hf : s.fsyncLoop = .sleeping)
    (hh : s.handle = .opened) (hd : s.dirty = true) :
    TaskRun (withLast s l argv stage) [] (withLast
      { s with fsyncLoop := .syncing (.ended (some (.osError text))) } l argv stage) := by
  have hwake : (withLast s l argv stage).step (.fsyncLoop .wake) =
      some (withLast { s with fsyncLoop := .syncing .running } l argv stage, []) := by
    simp [AofTasks.step, AofTasks.stepFsync, withLast, hf]
  have hthread : (withLast { s with fsyncLoop := .syncing .running } l argv stage).step
      (.fsyncLoop (.thread (some text))) = some (withLast
        { s with fsyncLoop := .syncing (.ended (some (.osError text))) } l argv stage, []) := by
    simp [AofTasks.step, AofTasks.stepFsync, withLast, AofTasks.fsyncSync, hh, hd]
  exact (TaskRun.then Runs.start hwake).then hthread

/-- It drops what is in the queue. -/
theorem step_drop {text : Str} (hf : s.fsyncLoop = .syncing (.ended (some (.osError text))))
    (hq : s.hasQueue = true) (hitems : s.queue.items = [some (itemOf argv l.length)])
    (hputters : s.queue.putters = []) :
    (withLast s l argv .queued).step (.fsyncLoop .resume) =
      some (withLast { s with
        queue := { s.queue with items := [] }
        failure := some text
        fsyncLoop := .ended none } l argv (.resolved (some (.osError text))), []) := by
  simp [AofTasks.step, AofTasks.stepFsync, withLast, hf, AofTasks.failPending, hq, hitems,
    AofTasks.failPendingLoop, WaitQueue.getNowait, WaitQueue.wakeupNext, hputters, AofTasks.wake,
    AofTasks.update, itemOf, modify_last, AppendStage.resolve]

/-- It finds the queue empty. -/
theorem step_degrade {text : Str} (hf : s.fsyncLoop = .syncing (.ended (some (.osError text))))
    (hitems : s.queue.items = []) :
    (withLast s l argv stage).step (.fsyncLoop .resume) =
      some (withLast { s with failure := some text, fsyncLoop := .ended none }
        l argv stage, []) := by
  simp [AofTasks.step, AofTasks.stepFsync, withLast, hf, AofTasks.failPending, hitems,
    AofTasks.failPendingLoop]

/-! ## The way of a record -/

/-- The record is in the queue. -/
def putAlone (st : AofTasks) (argv : Command) : AofTasks :=
  { st with
    queue := { st.queue with items := [some (itemOf argv st.appends.length)] }
    enqueued := st.enqueued ++ [itemOf argv st.appends.length] }

/-- From the call to the queue. -/
theorem taskRun_put (h : Quiet st) (argv : Command) :
    TaskRun st [] (withLast (putAlone st argv) st.appends argv .queued) :=
  (TaskRun.then Runs.start (step_start h argv)).then (step_put h.items)

/-- The writer has taken the record. -/
def takenAlone (st : AofTasks) (argv : Command) : AofTasks :=
  { putAlone st argv with
    queue := { st.queue with items := [] }
    writer := .writing (itemOf argv st.appends.length) .running }

/-- From the call to the writer. -/
theorem taskRun_taken (h : Quiet st) (argv : Command) :
    TaskRun st [] (withLast (takenAlone st argv) st.appends argv .queued) :=
  (taskRun_put h argv).then (step_get h.writer rfl h.putters)

/-- The record is in the file. -/
def writtenAlone (st : AofTasks) (argv : Command) : AofTasks :=
  { takenAlone st argv with
    written := st.written ++ encodeCommand argv
    dirty := true
    writer := .writing (itemOf argv st.appends.length) (.ended none) }

/-- From the call to the file. -/
theorem taskRun_written (h : Quiet st) (argv : Command) :
    TaskRun st [] (withLast (writtenAlone st argv) st.appends argv .queued) :=
  (taskRun_taken h argv).then (step_write rfl h.handle)

/-- A run of one append: how the call ends and what the log is then. -/
def Ends (st : AofTasks) (argv : Command) (raised : Option Raised) (log : AofLog) : Prop :=
  ∃ acked s, TaskRun st acked (withLast s st.appends argv (.done raised)) ∧ seenLog s = log

/-- The record is written and fsynced as the policy asks. -/
theorem ends_written (h : Quiet st) (argv : Command) :
    Ends st argv none ((seenLog st).write (encodeCommand argv)) := by
  have hlog : ∀ s : AofTasks, s.base = st.base → s.written = st.written ++ encodeCommand argv →
      s.handle = st.handle → s.failure = st.failure →
      seenLog s = (seenLog st).write (encodeCommand argv) := by
    intro s hbase hwritten hhandle hfailure
    simp only [seenLog, AofLog.write, hbase, hwritten, hhandle, hfailure, Option.getD_some,
      List.append_assoc]
  have hrun := taskRun_written h argv
  by_cases hpolicy : st.policy = .always
  · have hsynced := (hrun.then (step_always rfl hpolicy)).then (step_sync rfl h.handle rfl)
    have hdone := hsynced.then (step_complete rfl (Or.inr rfl))
    exact ⟨_, _, hdone.then (step_return none), hlog _ rfl rfl rfl rfl⟩
  · have hdone := hrun.then (step_complete rfl (Or.inl ⟨rfl, hpolicy⟩))
    exact ⟨_, _, hdone.then (step_return none), hlog _ rfl rfl rfl rfl⟩

/-- **The one-step append of the server's model is a run of the tasks**, whatever the fate of
the record. A periodic fsync fails only when something is dirty.
SOURCE: persistence/aof.py:100-186 -/
theorem append_alone {cfg : Config} (h : Quiet st) (argv : Command)
    (hcfg : cfg.aofEnabled = true) (hpolicy : cfg.aofFsync = st.policy) (fault : WriteFault)
    (hdirty : ∀ text, fault = .dropped text → st.dirty = true) :
    ∃ raised log, (seenLog st).append cfg argv fault = (outcome raised, log) ∧
      Ends st argv raised log := by
  have hopened : (seenLog st).opened = true := by
    simp [seenLog, h.handle]
  have hhealthy : (seenLog st).failure = none := h.failure
  have hwritten := ends_written h argv
  cases fault with
  | none =>
    refine ⟨none, _, ?_, hwritten⟩
    simp [AofLog.append, hcfg, hopened, hhealthy, outcome]
  | writeFails text =>
    have hfailed := (taskRun_taken h argv).then (step_writeFails (t := text) rfl h.handle)
    have hdone := hfailed.then (step_fail rfl rfl (Or.inl rfl))
    refine ⟨some (.osError text), _, ?_, _, _, hdone.then (step_return _), rfl⟩
    simp [AofLog.append, hcfg, outcome, seenLog, h.handle, h.failure, takenAlone, putAlone]
  | fsyncFails text =>
    by_cases halways : st.policy = .always
    · have hsyncing := (taskRun_written h argv).then (step_always rfl halways)
      have hfailed := hsyncing.then (step_syncFails (t := text) rfl h.handle rfl)
      have hdone := hfailed.then (step_fail rfl rfl (Or.inr rfl))
      refine ⟨some (.osError text), _, ?_, _, _, hdone.then (step_return _), rfl⟩
      simp [AofLog.append, AofLog.write, hcfg, outcome, hpolicy, halways, seenLog, h.handle,
        h.failure, writtenAlone, takenAlone, putAlone]
    · refine ⟨none, _, ?_, hwritten⟩
      simp [AofLog.append, hcfg, hopened, hhealthy, outcome, hpolicy, halways]
  | dropped text =>
    by_cases heverysec : st.policy = .everysec
    · have hfailed := Runs.trans (taskRun_put h argv)
        (taskRun_periodic (putAlone st argv) text (h.fsyncLoop heverysec) h.handle
          (hdirty text rfl))
      have hdropped := TaskRun.then hfailed (step_drop rfl h.hasQueue rfl h.putters)
      refine ⟨some (.osError text), _, ?_, _, _, hdropped.then (step_return _), rfl⟩
      simp [AofLog.append, hcfg, outcome, hpolicy, heverysec, seenLog, h.handle, h.failure,
        putAlone]
    · refine ⟨none, _, ?_, hwritten⟩
      simp [AofLog.append, hcfg, hopened, hhealthy, outcome, hpolicy, heverysec]
  | degraded text =>
    by_cases heverysec : st.policy = .everysec
    · have hfailed := Runs.trans (taskRun_written h argv)
        (taskRun_periodic (writtenAlone st argv) text (h.fsyncLoop heverysec) h.handle rfl)
      have hdegraded := TaskRun.then hfailed (step_degrade rfl rfl)
      have hpolicy' : st.policy ≠ .always := by
        rw [heverysec]
        exact nofun
      have hdone := hdegraded.then (step_complete rfl (Or.inl ⟨rfl, hpolicy'⟩))
      refine ⟨none, _, ?_, _, _, hdone.then (step_return none), rfl⟩
      simp [AofLog.append, AofLog.write, hcfg, outcome, hpolicy, heverysec, seenLog, h.handle,
        h.failure, writtenAlone, takenAlone, putAlone]
    · refine ⟨none, _, ?_, hwritten⟩
      simp [AofLog.append, hcfg, hopened, hhealthy, outcome, hpolicy, heverysec]
  | queueFull =>
    have hdone := (TaskRun.then Runs.start (step_start h argv)).then step_timeout
    refine ⟨some (.osError "AOF queue is full".toList), _, ?_, _, _, hdone, rfl⟩
    simp [AofLog.append, hcfg, hopened, hhealthy, outcome]

/-! ## Every way of a record -/

/-- Nobody else uses the log: no further call of `append`, no rewrite and no `close`. -/
def leftAlone : AofAction → Bool
  | .start _ => false
  | .replace _ _ => false
  | .close _ => false
  | _ => true

/-- Nothing but the periodic fsync has failed. -/
def Unfailed (s : AofTasks) : Prop := s.failure.isSome = true → s.policy = .everysec

/-- Where the record is, by the stage of its append and the place of the writer. -/
inductive Way (st : AofTasks) (argv : Command) (s : AofTasks) : AppendStage → Prop where
  | entering (writer : s.writer = .getting) (items : s.queue.items = [])
      (file : s.written = st.written) (sound : Unfailed s) : Way st argv s .entering
  | queued (writer : s.writer = .getting)
      (items : s.queue.items = [some (itemOf argv st.appends.length)])
      (file : s.written = st.written) (sound : Unfailed s) : Way st argv s .queued
  | taken (writer : s.writer = .writing (itemOf argv st.appends.length) .running)
      (items : s.queue.items = []) (file : s.written = st.written) (sound : Unfailed s) :
      Way st argv s .queued
  | written (writer : s.writer = .writing (itemOf argv st.appends.length) (.ended none))
      (items : s.queue.items = []) (file : s.written = st.written ++ encodeCommand argv)
      (sound : Unfailed s) : Way st argv s .queued
  | syncing (call : ThreadCall) (hcall : call = .running ∨ call = .ended none)
      (writer : s.writer = .syncing (itemOf argv st.appends.length) call)
      (policy : s.policy = .always) (items : s.queue.items = [])
      (file : s.written = st.written ++ encodeCommand argv) (sound : Unfailed s) :
      Way st argv s .queued
  | failing (text : Str)
      (writer : s.writer = .writing (itemOf argv st.appends.length)
          (.ended (some (.osError text))) ∧ s.written = st.written ∨
        s.writer = .syncing (itemOf argv st.appends.length) (.ended (some (.osError text))) ∧
          s.policy = .always ∧ s.written = st.written ++ encodeCommand argv)
      (items : s.queue.items = []) : Way st argv s .queued
  | stored (stage : AppendStage) (hstage : stage = .resolved none ∨ stage = .done none)
      (writer : s.writer = .getting) (items : s.queue.items = [])
      (file : s.written = st.written ++ encodeCommand argv) (sound : Unfailed s) :
      Way st argv s stage
  | failed (text : Str) (stage : AppendStage)
      (hstage : stage = .resolved (some (.osError text)) ∨
        stage = .done (some (.osError text)))
      (writer : s.writer = .getting ∨ s.writer = .ended none) (items : s.queue.items = [])
      (file : s.written = st.written ∨
        s.policy = .always ∧ s.written = st.written ++ encodeCommand argv)
      (failure : s.failure.isSome = true) : Way st argv s stage
  | full (writer : s.writer = .getting) (items : s.queue.items = [])
      (file : s.written = st.written) (sound : Unfailed s) :
      Way st argv s (.done (some (.osError "AOF queue is full".toList)))

/-- The append is on its way, and all else in the log is as it was found. -/
structure OnWay (st : AofTasks) (argv : Command) (stage : AppendStage) (s : AofTasks) :
    Prop where
  appends : s.appends = st.appends ++ [{ argv := argv, stage := stage }]
  base : s.base = st.base
  policy : s.policy = st.policy
  handle : s.handle = .opened
  hasQueue : s.hasQueue = true
  putters : s.queue.putters = []
  periodic : s.policy = .everysec ∨ s.fsyncLoop = .off
  raised : ∀ e, s.fsyncLoop = .syncing (.ended (some e)) → ∃ text, e = .osError text
  way : Way st argv s stage

/-- The log in the form in which its steps are computed. -/
theorem OnWay.eq (h : OnWay st argv stage s) : s = withLast s st.appends argv stage := by
  have happends := h.appends
  cases s
  cases happends
  rfl

/-- A call on a quiet log sets out. -/
theorem onWay_start (h : Quiet st) (hoff : st.policy = .everysec ∨ st.fsyncLoop = .off)
    (argv : Command) : OnWay st argv .entering (withLast st st.appends argv .entering) where
  appends := rfl
  base := rfl
  policy := rfl
  handle := h.handle
  hasQueue := h.hasQueue
  putters := h.putters
  periodic := hoff
  raised := by
    intro e he
    rcases hoff with hp | hoff
    · exact nomatch (h.fsyncLoop hp).symm.trans he
    · exact nomatch hoff.symm.trans he
  way := .entering h.writer h.items rfl fun hf => by
    have hnone : (withLast st st.appends argv .entering).failure = none := h.failure
    rw [hnone] at hf
    exact nomatch hf

/-- The append takes a step. -/
theorem OnWay.stepAppend (h : OnWay st argv stage s) {e : AppendStep}
    (hs : s.step (.append st.appends.length e) = some (s', es)) :
    ∃ stage', OnWay st argv stage' s' := by
  have hget : s.appends[st.appends.length]? = some { argv := argv, stage := stage } := by
    rw [h.appends]
    exact List.getElem?_concat_length
  have hnone : s.stepAppend st.appends.length { argv := argv, stage := stage } e ≠ none := by
    intro hnone
    simp [AofTasks.step, hget, hnone] at hs
  rw [h.eq] at hs
  cases e with
  | put =>
    cases h.way with
    | entering writer items file sound =>
      rw [step_put items] at hs
      cases hs
      exact ⟨.queued, ⟨rfl, h.base, h.policy, h.handle, h.hasQueue, h.putters, h.periodic,
        h.raised, .queued writer rfl file sound⟩⟩
    | stored _ hstage _ _ _ _ => rcases hstage with rfl | rfl <;> exact absurd rfl hnone
    | failed _ _ hstage _ _ _ _ => rcases hstage with rfl | rfl <;> exact absurd rfl hnone
    | _ => exact absurd rfl hnone
  | timeout =>
    cases h.way with
    | entering writer items file sound =>
      rw [step_timeout] at hs
      cases hs
      exact ⟨_, ⟨rfl, h.base, h.policy, h.handle, h.hasQueue, h.putters, h.periodic,
        h.raised, .full writer items file sound⟩⟩
    | stored _ hstage _ _ _ _ => rcases hstage with rfl | rfl <;> exact absurd rfl hnone
    | failed _ _ hstage _ _ _ _ => rcases hstage with rfl | rfl <;> exact absurd rfl hnone
    | _ => exact absurd rfl hnone
  | thread fault =>
    cases h.way with
    | stored _ hstage _ _ _ _ => rcases hstage with rfl | rfl <;> exact absurd rfl hnone
    | failed _ _ hstage _ _ _ _ => rcases hstage with rfl | rfl <;> exact absurd rfl hnone
    | _ => exact absurd rfl hnone
  | resume =>
    cases h.way with
    | stored _ hstage writer items file sound =>
      rcases hstage with rfl | rfl
      · rw [step_return] at hs
        cases hs
        exact ⟨_, ⟨rfl, h.base, h.policy, h.handle, h.hasQueue, h.putters, h.periodic,
          h.raised, .stored _ (Or.inr rfl) writer items file sound⟩⟩
      · exact absurd rfl hnone
    | failed text _ hstage writer items file failure =>
      rcases hstage with rfl | rfl
      · rw [step_return] at hs
        cases hs
        exact ⟨_, ⟨rfl, h.base, h.policy, h.handle, h.hasQueue, h.putters, h.periodic,
          h.raised, .failed text _ (Or.inr rfl) writer items file failure⟩⟩
      · exact absurd rfl hnone
    | _ => exact absurd rfl hnone

/-- An fsync of an open file ends well or with an `OSError`, and only the mark of what is synced
changes. -/
theorem fsyncSync_opened (hh : s.handle = .opened) (fault : Option Str) :
    ∃ n d raised, s.fsyncSync fault = (raised, { s with synced := n, dirty := d }) ∧
      (raised = none ∨ ∃ text, raised = some (.osError text)) := by
  rcases fsyncSync_cases s fault with ⟨heq, -⟩ | heq | ⟨e, heq, hclosed⟩
  · exact ⟨s.synced, s.dirty, none, heq, Or.inl rfl⟩
  · exact ⟨_, _, none, heq, Or.inl rfl⟩
  · cases e with
    | osError text => exact ⟨s.synced, s.dirty, _, heq, Or.inr ⟨text, rfl⟩⟩
    | valueError => exact nomatch hh.symm.trans (hclosed rfl).1

/-- The writer takes a step. -/
theorem OnWay.stepWriter (h : OnWay st argv stage s) {e : WriterStep}
    (hs : s.step (.writer e) = some (s', es)) : ∃ stage', OnWay st argv stage' s' := by
  have hnone : s.stepWriter e ≠ none := by
    intro hnone
    simp [AofTasks.step, hnone] at hs
  cases e with
  | get =>
    have hempty : s.queue.items = [] → s.stepWriter .get = none := by
      intro hitems
      unfold AofTasks.stepWriter WaitQueue.getNowait
      cases s.writer <;> simp [hitems]
    cases h.way with
    | queued writer items file sound =>
      rw [h.eq, step_get writer items h.putters] at hs
      cases hs
      exact ⟨_, ⟨rfl, h.base, h.policy, h.handle, h.hasQueue, h.putters, h.periodic, h.raised,
        .taken rfl rfl file sound⟩⟩
    | entering _ items _ _ => exact absurd (hempty items) hnone
    | taken _ items _ _ => exact absurd (hempty items) hnone
    | written _ items _ _ => exact absurd (hempty items) hnone
    | syncing _ _ _ _ items _ _ => exact absurd (hempty items) hnone
    | failing _ _ items => exact absurd (hempty items) hnone
    | stored _ _ _ items _ _ => exact absurd (hempty items) hnone
    | failed _ _ _ _ items _ _ => exact absurd (hempty items) hnone
    | full _ items _ _ => exact absurd (hempty items) hnone
  | thread fault =>
    cases h.way with
    | taken writer items file sound =>
      cases fault with
      | none =>
        rw [h.eq, step_write writer h.handle] at hs
        cases hs
        refine ⟨_, ⟨rfl, h.base, h.policy, h.handle, h.hasQueue, h.putters, h.periodic, h.raised,
          .written rfl items ?_ sound⟩⟩
        exact congrArg (· ++ encodeCommand argv) file
      | some text =>
        rw [h.eq, step_writeFails writer h.handle] at hs
        cases hs
        exact ⟨_, ⟨rfl, h.base, h.policy, h.handle, h.hasQueue, h.putters, h.periodic, h.raised,
          .failing text (Or.inl ⟨rfl, file⟩) items⟩⟩
    | syncing call hcall writer policy items file sound =>
      rcases hcall with rfl | rfl
      · obtain ⟨n, d, raised, hsync, hraised⟩ := fsyncSync_opened h.handle fault
        simp only [AofTasks.step, AofTasks.stepWriter, writer, hsync, Option.map_some] at hs
        cases hs
        rcases hraised with rfl | ⟨text, rfl⟩
        · exact ⟨_, ⟨h.appends, h.base, h.policy, h.handle, h.hasQueue, h.putters, h.periodic,
            h.raised, .syncing _ (Or.inr rfl) rfl policy items file sound⟩⟩
        · exact ⟨_, ⟨h.appends, h.base, h.policy, h.handle, h.hasQueue, h.putters, h.periodic,
            h.raised, .failing text (Or.inr ⟨rfl, policy, file⟩) items⟩⟩
      · simp [AofTasks.stepWriter, writer] at hnone
    | failing _ writer _ =>
      rcases writer with ⟨writer, -⟩ | ⟨writer, -⟩ <;> simp [AofTasks.stepWriter, writer] at hnone
    | failed _ _ _ writer _ _ _ =>
      rcases writer with writer | writer <;> simp [AofTasks.stepWriter, writer] at hnone
    | entering writer _ _ _ => simp [AofTasks.stepWriter, writer] at hnone
    | queued writer _ _ _ => simp [AofTasks.stepWriter, writer] at hnone
    | written writer _ _ _ => simp [AofTasks.stepWriter, writer] at hnone
    | stored _ _ writer _ _ _ => simp [AofTasks.stepWriter, writer] at hnone
    | full writer _ _ _ => simp [AofTasks.stepWriter, writer] at hnone
  | resume =>
    cases h.way with
    | written writer items file sound =>
      by_cases hpolicy : s.policy = .always
      · rw [h.eq, step_always writer hpolicy] at hs
        cases hs
        exact ⟨_, ⟨rfl, h.base, h.policy, h.handle, h.hasQueue, h.putters, h.periodic, h.raised,
          .syncing _ (Or.inl rfl) rfl hpolicy items file sound⟩⟩
      · rw [h.eq, step_complete rfl (Or.inl ⟨writer, hpolicy⟩)] at hs
        cases hs
        exact ⟨_, ⟨rfl, h.base, h.policy, h.handle, h.hasQueue, h.putters, h.periodic, h.raised,
          .stored _ (Or.inl rfl) rfl items file sound⟩⟩
    | syncing call hcall writer policy items file sound =>
      rcases hcall with rfl | rfl
      · simp [AofTasks.stepWriter, writer] at hnone
      · rw [h.eq, step_complete rfl (Or.inr writer)] at hs
        cases hs
        exact ⟨_, ⟨rfl, h.base, h.policy, h.handle, h.hasQueue, h.putters, h.periodic, h.raised,
          .stored _ (Or.inl rfl) rfl items file sound⟩⟩
    | failing text writer items =>
      rw [h.eq, step_fail rfl items (writer.imp And.left And.left)] at hs
      cases hs
      refine ⟨_, ⟨rfl, h.base, h.policy, h.handle, h.hasQueue, h.putters, h.periodic, h.raised,
        .failed text _ (Or.inl rfl) (Or.inr rfl) items ?_ rfl⟩⟩
      exact writer.imp And.right And.right
    | failed _ _ _ writer _ _ _ =>
      rcases writer with writer | writer <;> simp [AofTasks.stepWriter, writer] at hnone
    | entering writer _ _ _ => simp [AofTasks.stepWriter, writer] at hnone
    | queued writer _ _ _ => simp [AofTasks.stepWriter, writer] at hnone
    | taken writer _ _ _ => simp [AofTasks.stepWriter, writer] at hnone
    | stored _ _ writer _ _ _ => simp [AofTasks.stepWriter, writer] at hnone
    | full writer _ _ _ => simp [AofTasks.stepWriter, writer] at hnone

/-- What the periodic fsync does is seen in the failure alone. -/
theorem Way.kept (h : Way st argv s stage) (hwriter : s'.writer = s.writer)
    (hqueue : s'.queue = s.queue) (hwritten : s'.written = s.written)
    (hpolicy : s'.policy = s.policy)
    (hfailure : s'.failure = s.failure ∨ s.policy = .everysec ∧ s'.failure.isSome = true) :
    Way st argv s' stage := by
  have hsound : Unfailed s → Unfailed s' := by
    intro hs hf
    rw [hpolicy]
    rcases hfailure with heq | ⟨hperiodic, -⟩
    · exact hs (heq ▸ hf)
    · exact hperiodic
  have hfailed : s.failure.isSome = true → s'.failure.isSome = true := by
    rcases hfailure with heq | ⟨-, hsome⟩
    · rw [heq]
      exact id
    · exact fun _ => hsome
  have hitems : s'.queue.items = s.queue.items := congrArg WaitQueue.items hqueue
  cases h with
  | entering writer items file sound =>
    exact .entering (hwriter.trans writer) (hitems.trans items) (hwritten.trans file)
      (hsound sound)
  | queued writer items file sound =>
    exact .queued (hwriter.trans writer) (hitems.trans items) (hwritten.trans file)
      (hsound sound)
  | taken writer items file sound =>
    exact .taken (hwriter.trans writer) (hitems.trans items) (hwritten.trans file) (hsound sound)
  | written writer items file sound =>
    exact .written (hwriter.trans writer) (hitems.trans items) (hwritten.trans file)
      (hsound sound)
  | syncing call hcall writer policy items file sound =>
    exact .syncing call hcall (hwriter.trans writer) (hpolicy.trans policy)
      (hitems.trans items) (hwritten.trans file) (hsound sound)
  | failing text writer items =>
    refine .failing text ?_ (hitems.trans items)
    rw [hwriter, hwritten, hpolicy]
    exact writer
  | stored _ hstage writer items file sound =>
    exact .stored _ hstage (hwriter.trans writer) (hitems.trans items) (hwritten.trans file)
      (hsound sound)
  | failed text _ hstage writer items file failure =>
    refine .failed text _ hstage ?_ (hitems.trans items) ?_ (hfailed failure)
    · rw [hwriter]
      exact writer
    · rw [hwritten, hpolicy]
      exact file
  | full writer items file sound =>
    exact .full (hwriter.trans writer) (hitems.trans items) (hwritten.trans file) (hsound sound)

/-- The periodic fsync takes a step. -/
theorem OnWay.stepFsync (h : OnWay st argv stage s) {e : FsyncStep}
    (hs : s.step (.fsyncLoop e) = some (s', es)) : ∃ stage', OnWay st argv stage' s' := by
  cases e with
  | wake =>
    cases hloop : s.fsyncLoop with
    | sleeping =>
      simp only [AofTasks.step, AofTasks.stepFsync, hloop, Option.map_some] at hs
      cases hs
      have hperiodic : s.policy = .everysec := h.periodic.resolve_right (by simp [hloop])
      exact ⟨stage, ⟨h.appends, h.base, h.policy, h.handle, h.hasQueue, h.putters,
        Or.inl hperiodic, nofun, h.way.kept rfl rfl rfl rfl (Or.inl rfl)⟩⟩
    | off => simp [AofTasks.step, AofTasks.stepFsync, hloop] at hs
    | syncing call => simp [AofTasks.step, AofTasks.stepFsync, hloop] at hs
    | ended raised => simp [AofTasks.step, AofTasks.stepFsync, hloop] at hs
  | thread fault =>
    cases hloop : s.fsyncLoop with
    | off => simp [AofTasks.step, AofTasks.stepFsync, hloop] at hs
    | sleeping => simp [AofTasks.step, AofTasks.stepFsync, hloop] at hs
    | ended raised => simp [AofTasks.step, AofTasks.stepFsync, hloop] at hs
    | syncing call =>
      cases call with
      | ended raised => simp [AofTasks.step, AofTasks.stepFsync, hloop] at hs
      | running =>
        obtain ⟨n, d, raised, hsync, hraised⟩ := fsyncSync_opened h.handle fault
        simp only [AofTasks.step, AofTasks.stepFsync, hloop, hsync, Option.map_some] at hs
        cases hs
        have hperiodic : s.policy = .everysec := h.periodic.resolve_right (by simp [hloop])
        refine ⟨stage, ⟨h.appends, h.base, h.policy, h.handle, h.hasQueue, h.putters,
          Or.inl hperiodic, ?_, h.way.kept rfl rfl rfl rfl (Or.inl rfl)⟩⟩
        intro e he
        rcases hraised with rfl | ⟨text, rfl⟩
        · cases he
        · cases he
          exact ⟨text, rfl⟩
  | resume =>
    cases hloop : s.fsyncLoop with
    | off => simp [AofTasks.step, AofTasks.stepFsync, hloop] at hs
    | sleeping => simp [AofTasks.step, AofTasks.stepFsync, hloop] at hs
    | ended raised => simp [AofTasks.step, AofTasks.stepFsync, hloop] at hs
    | syncing call =>
      have hperiodic : s.policy = .everysec := h.periodic.resolve_right (by simp [hloop])
      cases call with
      | running => simp [AofTasks.step, AofTasks.stepFsync, hloop] at hs
      | ended raised =>
        cases raised with
        | none =>
          simp only [AofTasks.step, AofTasks.stepFsync, hloop, Option.map_some] at hs
          cases hs
          refine ⟨stage, ⟨h.appends, h.base, h.policy, h.handle, h.hasQueue, h.putters,
            Or.inl hperiodic, ?_, h.way.kept rfl rfl rfl rfl (Or.inl rfl)⟩⟩
          intro e he
          simp only at he
          split_ifs at he
        | some e =>
          obtain ⟨text, rfl⟩ := h.raised e hloop
          by_cases hitems : s.queue.items = []
          · rw [h.eq, step_degrade hloop hitems] at hs
            cases hs
            exact ⟨stage, ⟨rfl, h.base, h.policy, h.handle, h.hasQueue, h.putters,
              Or.inl hperiodic, nofun, h.way.kept rfl rfl rfl rfl (Or.inr ⟨hperiodic, rfl⟩)⟩⟩
          · cases h.way with
            | queued writer items file sound =>
              rw [h.eq, step_drop hloop h.hasQueue items h.putters] at hs
              cases hs
              exact ⟨_, ⟨rfl, h.base, h.policy, h.handle, h.hasQueue, h.putters,
                Or.inl hperiodic, nofun, .failed text _ (Or.inl rfl) (Or.inl writer) rfl
                  (Or.inl file) rfl⟩⟩
            | entering _ items _ _ => exact absurd items hitems
            | taken _ items _ _ => exact absurd items hitems
            | written _ items _ _ => exact absurd items hitems
            | syncing _ _ _ _ items _ _ => exact absurd items hitems
            | failing _ _ items => exact absurd items hitems
            | stored _ _ _ items _ _ => exact absurd items hitems
            | failed _ _ _ _ items _ _ => exact absurd items hitems
            | full _ items _ _ => exact absurd items hitems

/-- **One step of the tasks** takes the record on its way. -/
theorem OnWay.step (h : OnWay st argv stage s)
    (hold : ∀ a ∈ st.appends, ∃ raised, a.stage = .done raised) {action : AofAction}
    (hok : leftAlone action = true) (hs : s.step action = some (s', es)) :
    ∃ stage', OnWay st argv stage' s' := by
  cases action with
  | start argv => cases hok
  | replace payload outcome => cases hok
  | close e => cases hok
  | writer e => exact h.stepWriter hs
  | fsyncLoop e => exact h.stepFsync hs
  | append id e =>
    by_cases hid : id = st.appends.length
    · subst hid
      exact h.stepAppend hs
    · -- the calls from before have ended
      cases hget : s.appends[id]? with
      | none => simp [AofTasks.step, hget] at hs
      | some a =>
        have hmem : a ∈ st.appends := by
          rw [h.appends] at hget
          rcases of_getElem?_concat hget with hbefore | rfl
          · exact List.mem_of_getElem? hbefore
          · have hlt := (List.getElem?_eq_some_iff.mp hget).1
            rw [List.length_append, List.length_singleton] at hlt
            rw [List.getElem?_append_left (by omega)] at hget
            exact List.mem_of_getElem? hget
        obtain ⟨raised, hdone⟩ := hold a hmem
        cases e <;> simp [AofTasks.step, hget, AofTasks.stepAppend, hdone, AppendStage.admitted]
          at hs

/-- How the call has ended decides the fate of the record. -/
theorem OnWay.fate {cfg : Config} {raised : Option Raised} (h : OnWay st argv (.done raised) s)
    (hquiet : Quiet st) (hcfg : cfg.aofEnabled = true) (hpolicy : cfg.aofFsync = st.policy) :
    ∃ fault log, (seenLog st).append cfg argv fault = (outcome raised, log) ∧
      (seenLog s).file = log.file ∧ (seenLog s).opened = log.opened ∧
      (seenLog s).failure.isSome = log.failure.isSome := by
  have hopened : (seenLog st).opened = true := by
    simp [seenLog, hquiet.handle]
  have hstill : (seenLog s).opened = true := by
    simp [seenLog, h.handle]
  have hhealthy : (seenLog st).failure = none := hquiet.failure
  have hkept : s.written = st.written → (seenLog s).file = (seenLog st).file := by
    intro hfile
    simp only [seenLog, h.base, hfile]
  have hwritten : s.written = st.written ++ encodeCommand argv →
      (seenLog s).file = ((seenLog st).write (encodeCommand argv)).file := by
    intro hfile
    simp only [seenLog, AofLog.write, h.base, hfile, Option.getD_some, List.append_assoc]
  have hfsync : cfg.aofFsync = s.policy := hpolicy.trans h.policy.symm
  cases h.way with
  | stored _ hstage writer items file sound =>
    cases hstage.resolve_left nofun
    cases hfailure : s.failure with
    | none =>
      refine ⟨.none, (seenLog st).write (encodeCommand argv), ?_, hwritten file, ?_, ?_⟩
      · simp [AofLog.append, hcfg, hopened, hhealthy, outcome]
      · exact hstill.trans hopened.symm
      · exact congrArg Option.isSome (hfailure.trans hhealthy.symm)
    | some text =>
      have heverysec : cfg.aofFsync = .everysec := hfsync.trans (sound (by rw [hfailure]; rfl))
      refine ⟨.degraded text,
        { (seenLog st).write (encodeCommand argv) with failure := some text }, ?_,
        hwritten file, ?_, ?_⟩
      · simp [AofLog.append, hcfg, hopened, hhealthy, outcome, heverysec]
      · exact hstill.trans hopened.symm
      · exact congrArg Option.isSome hfailure
  | failed text _ hstage writer items file failure =>
    cases hstage.resolve_left nofun
    rcases file with file | ⟨halways, file⟩
    · refine ⟨.writeFails text, { seenLog st with failure := some text }, ?_, hkept file, ?_,
        failure⟩
      · simp [AofLog.append, hcfg, hopened, hhealthy, outcome]
      · exact hstill.trans hopened.symm
    · refine ⟨.fsyncFails text,
        { (seenLog st).write (encodeCommand argv) with failure := some text }, ?_,
        hwritten file, ?_, failure⟩
      · simp [AofLog.append, hcfg, hopened, hhealthy, outcome, hfsync.trans halways]
      · exact hstill.trans hopened.symm
  | full writer items file sound =>
    cases hfailure : s.failure with
    | none =>
      refine ⟨.queueFull, seenLog st, ?_, hkept file, hstill.trans hopened.symm, ?_⟩
      · simp [AofLog.append, hcfg, hopened, hhealthy, outcome]
      · exact congrArg Option.isSome (hfailure.trans hhealthy.symm)
    | some text =>
      have heverysec : cfg.aofFsync = .everysec := hfsync.trans (sound (by rw [hfailure]; rfl))
      refine ⟨.dropped "AOF queue is full".toList,
        { seenLog st with failure := some "AOF queue is full".toList }, ?_, hkept file,
        hstill.trans hopened.symm, ?_⟩
      · simp [AofLog.append, hcfg, hopened, hhealthy, outcome, heverysec]
      · show s.failure.isSome = true
        rw [hfailure]
        rfl

/-- **Every run of one append is the one-step append of the server's model**, for some fate of the
record, when the call has ended: the outcome of the call and the file are those of the step, and
the log has failed after the one exactly if it has after the other. When both the writer and the
periodic fsync fail, the text kept is that of the later one. The log is open and the rewrites,
which may close it, are excluded.
SOURCE: persistence/aof.py:100-186 -/
theorem append_fated {cfg : Config} (h : Quiet st)
    (hoff : st.policy = .everysec ∨ st.fsyncLoop = .off)
    (hold : ∀ a ∈ st.appends, ∃ raised, a.stage = .done raised)
    (hcfg : cfg.aofEnabled = true) (hpolicy : cfg.aofFsync = st.policy)
    (hrun : Runs AofTasks.step (fun _ action => leftAlone action = true)
      (st.startAppend argv) acked s) {raised : Option Raised}
    (hdone : s.appends[st.appends.length]?.map Append.stage = some (.done raised)) :
    ∃ fault log, (seenLog st).append cfg argv fault = (outcome raised, log) ∧
      (seenLog s).file = log.file ∧ (seenLog s).opened = log.opened ∧
      (seenLog s).failure.isSome = log.failure.isSome := by
  have hstart : st.startAppend argv = withLast st st.appends argv .entering := by
    have hs := step_start h argv
    rw [AofTasks.step] at hs
    exact (Prod.mk.inj (Option.some.inj hs)).1
  rw [hstart] at hrun
  obtain ⟨stage, hway⟩ : ∃ stage, OnWay st argv stage s :=
    hrun.invariant (I := fun _ s => ∃ stage, OnWay st argv stage s)
      ⟨_, onWay_start h hoff argv⟩ fun ⟨_, hway⟩ hok hs => hway.step hold hok hs
  have hstage : stage = .done raised := by
    rw [hway.appends, List.getElem?_concat_length] at hdone
    exact Option.some.inj hdone
  subst hstage
  exact hway.fate h hcfg hpolicy

end ByoRedis.Analysis
