import ByoRedis.Model.System
import ByoRedis.Analysis.Commit

/-!
# What an action of the system can do

`Stepped` lists the ways an action can go, and `command_cases` those of a client's command.
The invariants of whole runs are read off the two and never unfold `step`; actions of one kind
share a frame (`aside_of_step`, `looks_of_step`, `background_of_step`).
-/

set_option autoImplicit false

namespace ByoRedis.Analysis

open ByoRedis.Model ByoRedis.Lib ByoRedis.Interface

/-! ## Commands -/

/-- What a client's command can do up to its first await: it is answered and only looked at
the data, or it is a write that took effect and holds the lock with its records to come. -/
inductive CommandStep (sys : System) (conn : ℕ) (argv : Command) : System → List Event → Prop where
  | answered (srv : Server) (reply : Option Bytes)
      (hframe : ReadFrame sys.now argv sys.server srv) :
      CommandStep sys conn argv (sys.setServer srv) (reply.toList.map (Event.replied conn))
  | accepted (d : Entries) (evicted : List Bytes) (s : Store) (reply : Bytes)
      (hfree : sys.holder = .free) (hw : isWrite argv = true)
      (heff : effect sys.now argv (sys.server.store.live sys.now) = some d)
      (hlim : (handled sys.now argv sys.server.store).enforceMemoryLimit sys.now =
        (some evicted, s)) :
      CommandStep sys conn argv
        { sys with server := { sys.server with store := s }
                   holder := .writing conn (argv :: evicted.map Server.evictionRecord) false
                     reply }
        [.executed sys.now (argv :: evicted.map Server.evictionRecord)]

/-- A store that holds the live entries of another has only been looked at. -/
theorem looks_of_entries {now : ℤ} {s s' : Store} (hl : SameLimits s s')
    (he : s'.entries = s.live now) : Looks now s s' := by
  refine ⟨hl, ?_, fun hf => by rw [he, live_of_fresh hf]⟩
  rw [live_of_fresh (by rw [he]; exact fresh_live s now), he]

/-- The synchronous part of a client's command on a master: answered, or accepted. -/
theorem prepare_client {srv : Server} (env : Env) (conn : ℕ) (argv : Command)
    (hrole : srv.config.isReplica = false) :
    (∃ reply srv', srv.prepare env .client conn argv = (.done reply, srv') ∧
      ReadFrame env.now argv srv srv') ∨
    (∃ d evicted s reply, isWrite argv = true ∧
      effect env.now argv (srv.store.live env.now) = some d ∧
      (handled env.now argv srv.store).enforceMemoryLimit env.now = (some evicted, s) ∧
      srv.prepare env .client conn argv =
        (.records (argv :: evicted.map Server.evictionRecord) true reply,
          { srv with store := s })) := by
  by_cases hgate : srv.noauth .client conn argv = true ∨ srv.misconf .client argv = true
  · obtain ⟨m, hm⟩ := prepare_gated env hgate
    exact Or.inl ⟨_, _, hm, (ReadFrame.refl _ _ srv).fail m⟩
  cases hw : isWrite argv with
  | false =>
    obtain ⟨reply, srv', hp, hfr⟩ := prepare_read srv env .client conn hw
    exact Or.inl ⟨reply, srv', hp, hfr⟩
  | true =>
    rw [not_or, Bool.not_eq_true, Bool.not_eq_true] at hgate
    have hout := prepare_write env hw
      (show Admitted srv .client conn argv from ⟨hgate.1, hgate.2, by rw [hrole]; rfl⟩)
    have hlimits := hout.limits hw
    generalize hr : srv.prepare env .client conn argv = r at hout hlimits
    cases hout with
    | refused m heff herr hent =>
      exact Or.inl ⟨_, _, rfl, rfl, rfl, looks_of_entries hlimits hent, Or.inl rfl, fun _ => rfl,
        rfl, fun _ => rfl⟩
    | oom d s heff hl =>
      exact Or.inl ⟨_, _, rfl, rfl, rfl, looks_of_entries hlimits rfl, Or.inl rfl, fun _ => rfl,
        rfl, fun _ => rfl⟩
    | accepted d evicted v s heff hl =>
      refine Or.inr ⟨d, evicted, s, encodeValue v, rfl, heff, hl, ?_⟩
      simp [Server.hooks, hw, hrole, Flags.client]

/-- **What a client's command can do.**
SOURCE: server.py:409-498 -/
theorem command_cases {sys sys' : System} {conn : ℕ} {argv : Command} {env : Env}
    {evs : List Event} (hrole : sys.server.config.isReplica = false)
    (h : sys.command conn argv env = some (sys', evs)) :
    upperName argv ≠ ascii "PSYNC" ∧ CommandStep sys conn argv sys' evs := by
  unfold System.command at h
  split_ifs at h with hpsync
  have hname : upperName argv ≠ ascii "PSYNC" := fun hp => hpsync ⟨hp, hrole⟩
  refine ⟨hname, ?_⟩
  have hcases := prepare_client { env with now := sys.now } conn argv hrole
  split at h
  · cases h
  · cases h
  · cases h
  · rename_i hlock1 hlock2 hlock3
    rcases hcases with ⟨reply, srv', hp, hfr⟩ | ⟨d, evicted, s, reply, hw, heff, hl, hp⟩
    · rw [hp] at h
      cases h
      exact .answered srv' reply hfr
    · rw [hp] at h
      cases h
      refine .accepted d evicted s reply ?_ hw heff hl
      cases hh : sys.holder with
      | free => rfl
      | writing c r a b => exact absurd hh (hlock1 c r a b hw)
      | rewriting e => exact absurd hh (hlock2 e hw)
      | replacing c => exact absurd hh (hlock3 c hw)

/-- What every command leaves alone, on a master or on a replica, and what is observed of it. -/
structure Commanded (sys : System) (conn : ℕ) (sys' : System) (es : List Event) : Prop where
  now : sys'.now = sys.now
  bgsave : sys'.bgsave = sys.bgsave
  resyncs : sys'.resyncs = sys.resyncs
  events : (∃ replies : List Bytes, es = replies.map (Event.replied conn)) ∨
    ∃ records, es = [.executed sys.now records]

/-- SOURCE: server.py:409-498 -/
theorem commanded_of_command {sys sys' : System} {conn : ℕ} {argv : Command} {env : Env}
    {es : List Event} (h : sys.command conn argv env = some (sys', es)) :
    Commanded sys conn sys' es := by
  unfold System.command at h
  split_ifs at h
  split at h
  · cases h
  · cases h
  · cases h
  · split at h
    · cases h
      exact ⟨rfl, rfl, rfl, Or.inl ⟨_, rfl⟩⟩
    · cases h
      exact ⟨rfl, rfl, rfl, Or.inr ⟨_, rfl⟩⟩

/-! ## Actions -/

/-- What an action does, with one case for each way it can go. -/
inductive Stepped (sys : System) : Action → System → List Event → Prop where
  | elapse (ms : ℕ) : Stepped sys (.elapse ms) { sys with now := sys.now + ms } []
  | connect (conn : ℕ) :
      Stepped sys (.connect conn) (sys.setServer (sys.server.openConnection conn)) []
  | disconnect (conn : ℕ) :
      Stepped sys (.disconnect conn)
        { sys with
          server := sys.server.closeConnection conn
          resyncs := sys.resyncs.erase conn } []
  | command (conn : ℕ) (argv : Command) (env : Env) (sys' : System) (es : List Event)
      (h : sys.command conn argv env = some (sys', es)) :
      Stepped sys (.command conn argv env) sys' es
  | appendFailed (conn : ℕ) (argv : Command) (rest : List Command) (reply : Bytes)
      (fault : WriteFault) (text : Str) (aof : AofLog)
      (hhold : sys.holder = .writing conn (argv :: rest) false reply) (hheard : sys.deaf = false)
      (happend : sys.server.aof.append sys.server.config argv fault = (.error text, aof)) :
      Stepped sys (.append fault)
        { sys with
          server := { sys.server with
            aof := aof, totalCommandsFailed := sys.server.totalCommandsFailed + 1 }
          holder := .free } [.replied conn (Server.misconfReply text)]
  | appended (conn : ℕ) (argv : Command) (rest : List Command) (reply : Bytes)
      (fault : WriteFault) (aof : AofLog)
      (hhold : sys.holder = .writing conn (argv :: rest) false reply) (hheard : sys.deaf = false)
      (happend : sys.server.aof.append sys.server.config argv fault = (.ok (), aof)) :
      Stepped sys (.append fault)
        { sys with
          server := { sys.server with aof := aof }
          holder := .writing conn (argv :: rest) true reply } [.appended argv]
  | propagatedLast (conn : ℕ) (argv : Command) (reply : Bytes) (fails : ℕ → Bool)
      (hhold : sys.holder = .writing conn [argv] true reply) :
      Stepped sys (.propagate fails)
        { sys.setServer (sys.server.propagateRecord fails argv) with holder := .free }
        [.propagated argv, .replied conn reply]
  | propagated (conn : ℕ) (argv next : Command) (rest : List Command) (reply : Bytes)
      (fails : ℕ → Bool) (hhold : sys.holder = .writing conn (argv :: next :: rest) true reply) :
      Stepped sys (.propagate fails)
        { sys.setServer (sys.server.propagateRecord fails argv) with
          holder := .writing conn (next :: rest) false reply } [.propagated argv]
  | expireCycle (sample : List Bytes) :
      Stepped sys (.expireCycle sample)
        (sys.setServer { sys.server with
          store := (sys.server.store.activeExpireCycle sys.now sample).2 }) []
  | scheduleBgsave :
      Stepped sys .scheduleBgsave
        (sys.setServer { sys.server with bgsaveInProgress := true }) []
  | bgsaveSnapshot (hfree : sys.holder = .free) (hidle : sys.bgsave = none)
      (hasked : sys.server.bgsaveInProgress = true) :
      Stepped sys .bgsaveSnapshot
        { sys.purged with bgsave := some (sys.server.store.live sys.now) } []
  | bgsaveWritten (time : ℤ) (d : Entries) (payload : Bytes) (hsave : sys.bgsave = some d)
      (hdump : dumpRdbEntries d = some payload) :
      Stepped sys (.bgsaveWrite time)
        { sys with
          server := { sys.server with
            bgsaveInProgress := false, rdbFile := some payload, lastSaveTime := time }
          bgsave := none } []
  | bgsaveUnencodable (time : ℤ) (d : Entries) (hsave : sys.bgsave = some d)
      (hdump : dumpRdbEntries d = none) :
      Stepped sys (.bgsaveWrite time)
        { sys with
          server := { sys.server with bgsaveInProgress := false }
          bgsave := none } []
  | bgsaveFailed (d : Entries) (hsave : sys.bgsave = some d) :
      Stepped sys .bgsaveFail
        { sys with
          server := { sys.server with bgsaveInProgress := false }
          bgsave := none } []
  | rewriteSnapshot (hfree : sys.holder = .free)
      (hasked : sys.server.aofRewriteInProgress = true) :
      Stepped sys .rewriteSnapshot
        { sys.purged with holder := .rewriting (sys.server.store.live sys.now) } []
  | rewriteBuilt (d : Entries) (commands : List Command) (hhold : sys.holder = .rewriting d)
      (hbuild : rewriteCommands sys.now d = some commands) :
      Stepped sys .rewriteBuild { sys with holder := .replacing commands } []
  | rewriteReplaced (commands : List Command) (hhold : sys.holder = .replacing commands)
      (hopen : sys.handleClosed = false) :
      Stepped sys .rewriteReplace
        (sys.endRewrite (sys.server.aof.replaceFile (commands.flatMap encodeCommand)))
        [.rewritten commands]
  | rewriteOverflowed (d : Entries) (hhold : sys.holder = .rewriting d)
      (hbuild : rewriteCommands sys.now d = none) :
      Stepped sys .rewriteBuild (sys.endRewrite sys.server.aof) []
  | rewriteFailed
      (hhold : (∃ d, sys.holder = .rewriting d) ∨ ∃ commands, sys.holder = .replacing commands) :
      Stepped sys .rewriteFail (sys.endRewrite sys.server.aof) []
  | rewriteReplacedLost (commands : List Command) (hhold : sys.holder = .replacing commands)
      (hopen : sys.handleClosed = false) (hopened : sys.server.aof.opened = true) :
      Stepped sys (.rewriteLose true)
        { sys.endRewrite (sys.server.aof.replaceFile (commands.flatMap encodeCommand)) with
          handleClosed := true } [.rewritten commands]
  | rewriteLost (commands : List Command) (hhold : sys.holder = .replacing commands)
      (hopen : sys.handleClosed = false) (hopened : sys.server.aof.opened = true) :
      Stepped sys (.rewriteLose false)
        { sys.endRewrite sys.server.aof with handleClosed := true } []
  | psync (conn : ℕ) (hrole : sys.server.config.isReplica = false) (hfree : sys.holder = .free)
      (hnew : sys.server.master.links.get? conn = none) :
      Stepped sys (.psync conn)
        { sys with
          server := { sys.purged.server with master := sys.server.master.registerSyncing conn }
          resyncs := sys.resyncs.insert conn
            (.encoding (sys.server.store.live sys.now) sys.server.master.offset) }
        [.snapshot conn sys.now (sys.server.store.live sys.now) sys.server.master.offset]
  | resyncSent (conn : ℕ) (d : Entries) (offset : ℕ) (rdb : Bytes)
      (hresync : sys.resyncs.get? conn = some (.encoding d offset))
      (hdump : dumpRdbEntries d = some rdb) :
      Stepped sys (.resyncSend conn)
        { sys with
          server := { sys.server with
            master := sys.server.master.writeLink conn
              (MasterReplication.fullresyncPayload sys.server.master.replid.text offset rdb) }
          resyncs := sys.resyncs.insert conn (.flushing []) } []
  | resyncTaken (conn : ℕ) (hresync : sys.resyncs.get? conn = some (.flushing [])) :
      Stepped sys (.resyncTake conn)
        { sys with
          server := { sys.server with master := (sys.server.master.takeBatch conn).2 }
          resyncs := if (sys.server.master.takeBatch conn).1.isEmpty then sys.resyncs.erase conn
            else sys.resyncs.insert conn (.flushing (sys.server.master.takeBatch conn).1) } []
  | resyncWritten (conn : ℕ) (batch : List Bytes) (hbatch : batch.isEmpty = false)
      (hresync : sys.resyncs.get? conn = some (.flushing batch)) :
      Stepped sys (.resyncWrite conn)
        { sys with
          server := { sys.server with master := sys.server.master.writeLink conn batch.flatten }
          resyncs := sys.resyncs.insert conn (.flushing []) } []
  | resyncUnencodable (conn : ℕ) (d : Entries) (offset : ℕ)
      (hresync : sys.resyncs.get? conn = some (.encoding d offset))
      (hdump : dumpRdbEntries d = none) :
      Stepped sys (.resyncSend conn) (sys.abortResync conn) []
  | resyncFailed (conn : ℕ) (hresync : (sys.resyncs.get? conn).isSome = true) :
      Stepped sys (.resyncFail conn) (sys.abortResync conn) []
  | drained (conn : ℕ) :
      Stepped sys (.drain conn)
        (sys.setServer { sys.server with master := sys.server.master.drainOne conn }) []
  | drainFailed (conn : ℕ) (link : ReplicaLink)
      (hlink : sys.server.master.links.get? conn = some link) :
      Stepped sys (.drainFail conn)
        (sys.setServer { sys.server with
          master := sys.server.master.setLink conn { link with alive := false }
          unregisters := sys.server.unregisters ++ [conn] }) []
  | unregistered (conn : ℕ) (hmem : conn ∈ sys.server.unregisters) :
      Stepped sys (.unregister conn)
        (sys.setServer { sys.server with
          master := sys.server.master.unregister conn
          unregisters := sys.server.unregisters.erase conn }) []

/-- **What an action can do.** -/
theorem stepped_of_step {sys sys' : System} {a : Action} {es : List Event}
    (h : sys.step a = some (sys', es)) : Stepped sys a sys' es := by
  cases a with
  | elapse ms => cases h; exact .elapse ms
  | connect conn => cases h; exact .connect conn
  | disconnect conn => cases h; exact .disconnect conn
  | command conn argv env => exact .command conn argv env sys' es h
  | append fault =>
    simp only [System.step, System.append] at h
    split at h
    · rename_i conn argv rest reply hhold
      split_ifs at h with hdeaf
      split at h
      · rename_i text aof happend
        cases h
        exact .appendFailed conn argv rest reply fault text aof hhold
          (Bool.not_eq_true _ ▸ hdeaf) happend
      · rename_i aof happend
        cases h
        exact .appended conn argv rest reply fault aof hhold (Bool.not_eq_true _ ▸ hdeaf) happend
    · cases h
  | propagate fails =>
    simp only [System.step, System.propagate] at h
    split at h
    · rename_i conn argv rest reply hhold
      cases rest with
      | nil => cases h; exact .propagatedLast conn argv reply fails hhold
      | cons next rest => cases h; exact .propagated conn argv next rest reply fails hhold
    · cases h
  | expireCycle sample => cases h; exact .expireCycle sample
  | scheduleBgsave => cases h; exact .scheduleBgsave
  | bgsaveSnapshot =>
    simp only [System.step, System.bgsaveSnapshot] at h
    split at h
    · rename_i hfree hidle
      split_ifs at h with hasked
      cases h
      exact .bgsaveSnapshot hfree hidle hasked
    · cases h
  | bgsaveWrite time =>
    simp only [System.step, System.bgsaveWrite] at h
    split at h
    · cases h
    · rename_i d hsave
      split at h
      · rename_i hdump
        cases h
        exact .bgsaveUnencodable time d hsave hdump
      · rename_i payload hdump
        cases h
        exact .bgsaveWritten time d payload hsave hdump
  | bgsaveFail =>
    simp only [System.step, System.bgsaveFail] at h
    split at h
    · cases h
    · rename_i d hsave
      cases h
      exact .bgsaveFailed d hsave
  | rewriteSnapshot =>
    simp only [System.step, System.rewriteSnapshot] at h
    split at h
    · rename_i hfree
      split_ifs at h with hasked
      cases h
      exact .rewriteSnapshot hfree hasked
    · cases h
  | rewriteBuild =>
    simp only [System.step, System.rewriteBuild] at h
    split at h
    · rename_i d hhold
      split at h
      · rename_i hbuild
        cases h
        exact .rewriteOverflowed d hhold hbuild
      · rename_i commands hbuild
        cases h
        exact .rewriteBuilt d commands hhold hbuild
    · cases h
  | rewriteReplace =>
    simp only [System.step, System.rewriteReplace] at h
    split at h
    · rename_i commands hhold
      split_ifs at h with hclosed
      cases h
      exact .rewriteReplaced commands hhold (Bool.not_eq_true _ ▸ hclosed)
    · cases h
  | rewriteFail =>
    simp only [System.step, System.rewriteFail] at h
    split at h
    · rename_i d hhold
      cases h
      exact .rewriteFailed (Or.inl ⟨d, hhold⟩)
    · rename_i commands hhold
      cases h
      exact .rewriteFailed (Or.inr ⟨commands, hhold⟩)
    · cases h
  | rewriteLose replaced =>
    simp only [System.step, System.rewriteLose] at h
    split at h
    · rename_i commands hhold
      split_ifs at h with hclosed hreplaced
      · cases h
        rw [Bool.not_eq_true, Bool.or_eq_false_iff, Bool.not_eq_false'] at hclosed
        rw [hreplaced]
        exact .rewriteReplacedLost commands hhold hclosed.1 hclosed.2
      · cases h
        rw [Bool.not_eq_true, Bool.or_eq_false_iff, Bool.not_eq_false'] at hclosed
        rw [Bool.not_eq_true] at hreplaced
        rw [hreplaced]
        exact .rewriteLost commands hhold hclosed.1 hclosed.2
    · cases h
  | psync conn =>
    simp only [System.step, System.psync] at h
    split at h
    · rename_i hfree hnew
      split_ifs at h with hrole
      cases h
      exact .psync conn (Bool.not_eq_true _ ▸ hrole) hfree hnew
    · cases h
  | resyncSend conn =>
    simp only [System.step, System.resyncSend] at h
    split at h
    · rename_i d offset hresync
      split at h
      · rename_i hdump
        cases h
        exact .resyncUnencodable conn d offset hresync hdump
      · rename_i rdb hdump
        cases h
        exact .resyncSent conn d offset rdb hresync hdump
    · cases h
  | resyncTake conn =>
    simp only [System.step, System.resyncTake] at h
    split at h
    · rename_i hresync
      cases h
      exact .resyncTaken conn hresync
    · cases h
  | resyncWrite conn =>
    simp only [System.step, System.resyncWrite] at h
    split at h
    · rename_i batch hresync
      split_ifs at h with hbatch
      cases h
      exact .resyncWritten conn batch (Bool.not_eq_true _ ▸ hbatch) hresync
    · cases h
  | resyncFail conn =>
    simp only [System.step] at h
    split_ifs at h with hresync
    cases h
    exact .resyncFailed conn hresync
  | drain conn => cases h; exact .drained conn
  | drainFail conn =>
    simp only [System.step, System.drainFail] at h
    split at h
    · cases h
    · rename_i link hlink
      cases h
      exact .drainFailed conn link hlink
  | unregister conn =>
    simp only [System.step] at h
    split_ifs at h with hmem
    cases h
    exact .unregistered conn hmem

/-! ## Observations -/

/-- The records of the writes that took effect, in order. -/
def executedOf (evs : List Event) : List Command :=
  evs.flatMap fun
    | .executed _ records => records
    | _ => []

/-- The records appended to the AOF, in order. -/
def appendedOf (evs : List Event) : List Command :=
  evs.flatMap fun
    | .appended argv => [argv]
    | _ => []

/-- The records propagated, in order. -/
def propagatedOf (evs : List Event) : List Command :=
  evs.flatMap fun
    | .propagated argv => [argv]
    | _ => []

/-- The commands executed in two parts of a run. -/
@[simp] theorem executedOf_append (evs evs' : List Event) :
    executedOf (evs ++ evs') = executedOf evs ++ executedOf evs' := List.flatMap_append

/-- The records appended in two parts of a run. -/
@[simp] theorem appendedOf_append (evs evs' : List Event) :
    appendedOf (evs ++ evs') = appendedOf evs ++ appendedOf evs' := List.flatMap_append

/-- The records propagated in two parts of a run. -/
@[simp] theorem propagatedOf_append (evs evs' : List Event) :
    propagatedOf (evs ++ evs') = propagatedOf evs ++ propagatedOf evs' := List.flatMap_append

/-- Nothing was executed, appended or propagated. -/
structure Silent (evs : List Event) : Prop where
  executed : ∀ t records, Event.executed t records ∉ evs
  appended : appendedOf evs = []
  propagated : propagatedOf evs = []

/-- A run without a command has executed none. -/
theorem executedOf_eq_nil {evs : List Event} (h : ∀ t records, Event.executed t records ∉ evs) :
    executedOf evs = [] := by
  refine List.flatMap_eq_nil_iff.mpr fun ev hev => ?_
  cases ev with
  | executed t records => exact absurd hev (h t records)
  | appended argv => rfl
  | propagated argv => rfl
  | snapshot conn t d off => rfl
  | rewritten cs => rfl
  | replied conn reply => rfl

/-- No events are silent. -/
theorem silent_nil : Silent [] := ⟨by simp, rfl, rfl⟩

/-- Replies are silent. -/
theorem silent_replied (conn : ℕ) (replies : List Bytes) :
    Silent (replies.map (Event.replied conn)) := by
  refine ⟨by simp, ?_, ?_⟩
  · simp [appendedOf, List.flatMap_map]
  · simp [propagatedOf, List.flatMap_map]

/-- Two silent parts are silent. -/
theorem Silent.append {evs es : List Event} (h : Silent evs) (h' : Silent es) :
    Silent (evs ++ es) := by
  refine ⟨fun t records hmem => ?_, ?_, ?_⟩
  · exact (List.mem_append.mp hmem).elim (h.executed t records) (h'.executed t records)
  · rw [appendedOf_append, h.appended, h'.appended, List.append_nil]
  · rw [propagatedOf_append, h.propagated, h'.propagated, List.append_nil]

/-! ## The records the lock holder has to do -/

/-- The records the lock holder has not appended. -/
def unappended : Holder → List Command
  | .writing _ records appended _ => if appended then records.tail else records
  | _ => []

/-- The records the lock holder has not propagated. -/
def unpropagated : Holder → List Command
  | .writing _ records _ _ => records
  | _ => []

/-- Outside a write nothing is waiting. -/
theorem unappended_of_unpropagated {holder : Holder} (h : unpropagated holder = []) :
    unappended holder = [] := by
  cases holder with
  | writing conn records appended reply =>
    have hnil : records = [] := h
    subst hnil
    cases appended <;> rfl
  | free => rfl
  | rewriting d => rfl
  | replacing cs => rfl

/-! ## Actions apart from the write lock -/

/-- The actions of tasks that neither hold the write lock nor write a file. -/
def IsAside : Action → Prop
  | .elapse _ | .connect _ | .disconnect _ | .expireCycle _ | .scheduleBgsave | .psync _
  | .resyncSend _ | .resyncTake _ | .resyncWrite _ | .resyncFail _ | .drain _ | .drainFail _
  | .unregister _ => True
  | _ => False

/-- What such an action leaves alone: the files, the lock and the data but for a look. -/
structure Aside (sys sys' : System) : Prop where
  config : sys'.server.config = sys.server.config
  aof : sys'.server.aof = sys.server.aof
  rdb : sys'.server.rdbFile = sys.server.rdbFile
  now : sys.now ≤ sys'.now
  store : Looks sys.now sys.server.store sys'.server.store
  holder : sys'.holder = sys.holder
  bgsave : sys'.bgsave = sys.bgsave

/-- **The actions apart from the lock leave the data and the files alone.** -/
theorem aside_of_step {sys sys' : System} {a : Action} {evs : List Event} (ha : IsAside a)
    (h : sys.step a = some (sys', evs)) : Aside sys sys' ∧ Silent evs := by
  have huntouched : sys'.server.config = sys.server.config →
      sys'.server.aof = sys.server.aof → sys'.server.rdbFile = sys.server.rdbFile →
      sys'.server.store = sys.server.store → sys'.now = sys.now → sys'.holder = sys.holder →
      sys'.bgsave = sys.bgsave → Aside sys sys' := by
    intro hcfg haof hrdb hstore hnow hholder hbgsave
    exact ⟨hcfg, haof, hrdb, hnow.ge, hstore ▸ Looks.refl _ _, hholder, hbgsave⟩
  cases stepped_of_step h with
  | elapse ms =>
    exact ⟨⟨rfl, rfl, rfl, Int.le_add_of_nonneg_right (Int.natCast_nonneg ms), Looks.refl _ _, rfl,
      rfl⟩, silent_nil⟩
  | expireCycle sample =>
    exact ⟨⟨rfl, rfl, rfl, le_rfl, looks_activeExpireCycle _ _ _, rfl, rfl⟩, silent_nil⟩
  | psync conn hrole hfree hnew =>
    exact ⟨⟨rfl, rfl, rfl, le_rfl, looks_purge _ _, rfl, rfl⟩, ⟨by simp, rfl, rfl⟩⟩
  | connect conn => exact ⟨huntouched rfl rfl rfl rfl rfl rfl rfl, silent_nil⟩
  | disconnect conn => exact ⟨huntouched rfl rfl rfl rfl rfl rfl rfl, silent_nil⟩
  | scheduleBgsave => exact ⟨huntouched rfl rfl rfl rfl rfl rfl rfl, silent_nil⟩
  | resyncSent conn d offset rdb hresync hdump =>
    exact ⟨huntouched rfl rfl rfl rfl rfl rfl rfl, silent_nil⟩
  | resyncUnencodable conn d offset hresync hdump =>
    exact ⟨huntouched rfl rfl rfl rfl rfl rfl rfl, silent_nil⟩
  | resyncTaken conn hresync => exact ⟨huntouched rfl rfl rfl rfl rfl rfl rfl, silent_nil⟩
  | resyncWritten conn batch hbatch hresync =>
    exact ⟨huntouched rfl rfl rfl rfl rfl rfl rfl, silent_nil⟩
  | resyncFailed conn hresync => exact ⟨huntouched rfl rfl rfl rfl rfl rfl rfl, silent_nil⟩
  | drained conn => exact ⟨huntouched rfl rfl rfl rfl rfl rfl rfl, silent_nil⟩
  | drainFailed conn link hlink => exact ⟨huntouched rfl rfl rfl rfl rfl rfl rfl, silent_nil⟩
  | unregistered conn hmem => exact ⟨huntouched rfl rfl rfl rfl rfl rfl rfl, silent_nil⟩
  | _ => exact ha.elim

/-- An action that is no command looks at the store at most.
SOURCE: server.py:503-643 -/
theorem looks_of_step {sys sys' : System} {a : Action} {es : List Event}
    (ha : ∀ conn argv env, a ≠ .command conn argv env)
    (h : sys.step a = some (sys', es)) :
    sys.now ≤ sys'.now ∧ Looks sys.now sys.server.store sys'.server.store := by
  cases stepped_of_step h with
  | command conn argv env sys' es h => exact absurd rfl (ha conn argv env)
  | elapse ms => exact ⟨Int.le_add_of_nonneg_right (Int.natCast_nonneg ms), Looks.refl _ _⟩
  | expireCycle sample => exact ⟨le_rfl, looks_activeExpireCycle _ _ _⟩
  | bgsaveSnapshot hfree hidle hasked => exact ⟨le_rfl, looks_purge _ _⟩
  | rewriteSnapshot hfree hasked => exact ⟨le_rfl, looks_purge _ _⟩
  | psync conn hrole hfree hnew => exact ⟨le_rfl, looks_purge _ _⟩
  | _ => exact ⟨le_rfl, Looks.refl _ _⟩

/-- The steps of the tasks that BGSAVE and BGREWRITEAOF start. -/
def IsBackground : Action → Prop
  | .bgsaveSnapshot | .bgsaveWrite _ | .bgsaveFail | .rewriteSnapshot | .rewriteBuild
  | .rewriteReplace | .rewriteFail | .rewriteLose _ => True
  | _ => False

/-- The background tasks have no part in replication and append nothing.
SOURCE: server.py:591-643 -/
theorem background_of_step {sys sys' : System} {a : Action} {es : List Event}
    (ha : IsBackground a) (h : sys.step a = some (sys', es)) :
    sys'.server.master = sys.server.master ∧ Silent es := by
  cases stepped_of_step h with
  | bgsaveSnapshot hfree hidle hasked => exact ⟨rfl, silent_nil⟩
  | bgsaveWritten time d payload hsave hdump => exact ⟨rfl, silent_nil⟩
  | bgsaveUnencodable time d hsave hdump => exact ⟨rfl, silent_nil⟩
  | bgsaveFailed d hsave => exact ⟨rfl, silent_nil⟩
  | rewriteSnapshot hfree hasked => exact ⟨rfl, silent_nil⟩
  | rewriteBuilt d commands hhold hbuild => exact ⟨rfl, silent_nil⟩
  | rewriteOverflowed d hhold hbuild => exact ⟨rfl, silent_nil⟩
  | rewriteReplaced commands hhold hopen => exact ⟨rfl, by simp, rfl, rfl⟩
  | rewriteReplacedLost commands hhold hopen hopened => exact ⟨rfl, by simp, rfl, rfl⟩
  | rewriteFailed hhold => exact ⟨rfl, silent_nil⟩
  | rewriteLost commands hhold hopen hopened => exact ⟨rfl, silent_nil⟩
  | _ => exact ha.elim

end ByoRedis.Analysis
