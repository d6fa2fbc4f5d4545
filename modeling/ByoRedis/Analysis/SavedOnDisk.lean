import ByoRedis.Analysis.SaveRace
import ByoRedis.Analysis.SavedMoments
import ByoRedis.Model.Disk

/-!
# The RDB file on the disk

The file of `System` is the file on the disk, as long as no SAVE comes between the snapshot of a
BGSAVE and its end: the saver at work has the temporary file for itself (`Writing.step`), and the
rename puts at once what the server's step puts (`OnDisk.step`). Between the rename of a BGSAVE
and the moment when its task goes on the disk is ahead by the snapshot that the task still holds.
So a crash between any two file operations leaves a moment of the run (`crash_at_moment`).
-/

set_option autoImplicit false

namespace ByoRedis.Analysis

open ByoRedis.Model ByoRedis.Lib

/-! ## What a command writes -/

variable {sys sys' : System} {conn : ℕ} {argv : Command} {env : Env} {es : List Event}

/-- A SAVE that is let in is its handler.
SOURCE: server.py:436-485, commands/registry.py:37-58 -/
theorem prepare_save {srv : Server} (hname : upperName argv = ascii "SAVE") :
    (srv.prepare env .client conn argv).2.rdbFile =
      if srv.noauth .client conn argv then srv.rdbFile else (srv.cmdSave env argv).2.rdbFile := by
  have hr : isWrite argv = false := by
    unfold isWrite
    rw [hname]
    decide
  unfold Server.prepare
  by_cases hauth : srv.noauth .client conn argv = true
  · rw [if_pos hauth, if_pos hauth]
    rfl
  have hmisconf : srv.misconf .client argv = false := by
    simp only [Server.misconf, hr, Bool.false_and]
  rw [if_neg hauth, if_neg hauth]
  simp only [hmisconf, hr, Bool.false_eq_true, if_false]
  cases argv with
  | nil => exact absurd hname (by decide)
  | cons name args =>
    have hlookup : CommandName.lookup name = some .save := by
      unfold CommandName.lookup
      rw [show upper name = ascii "SAVE" from hname]
      decide
    have hdispatch : srv.dispatch env .client conn (name :: args) =
        srv.cmdSave env (name :: args) := by
      simp only [Server.dispatch, hlookup, hr, Bool.and_false, Bool.false_and, Bool.false_eq_true,
        if_false]
      rfl
    rw [hdispatch]
    rcases srv.cmdSave env (name :: args) with ⟨result, srv'⟩
    cases result with
    | error message => rfl
    | internal => rfl
    | noReply => simp only [Server.settle, hr, Bool.false_eq_true, if_false]
    | value v => simp only [Server.settle, hr, Bool.false_eq_true, if_false]

/-- **What a client's command leaves in the RDB file**: the payload of a SAVE, unless its file
operations failed.
SOURCE: commands/server_cmds.py:86-94, server.py:580-582 -/
theorem rdbFile_of_command (hrole : sys.server.config.isReplica = false)
    (h : sys.command conn argv env = some (sys', es)) :
    sys'.server.rdbFile = (sys.savePayload conn argv).elim sys.server.rdbFile fun payload =>
      if env.saveError.isNone then some payload else sys.server.rdbFile := by
  by_cases hname : upperName argv = ascii "SAVE"
  · have hfile : sys'.server.rdbFile =
        (sys.server.prepare { env with now := sys.now } .client conn argv).2.rdbFile := by
      have hr : isWrite argv = false := by
        unfold isWrite
        rw [hname]
        decide
      obtain ⟨reply, srv', hp, -⟩ :=
        prepare_read sys.server { env with now := sys.now } .client conn hr
      unfold System.command at h
      rw [if_neg fun hp => absurd (hname.symm.trans hp.1) (by decide)] at h
      simp only [hr, hp] at h
      cases h
      rw [hp]
      rfl
    rw [hfile, prepare_save hname]
    unfold System.savePayload
    by_cases hauth : sys.server.noauth .client conn argv = true
    · rw [if_pos hauth, if_neg (by simp [hauth])]
      rfl
    · rw [if_neg hauth]
      unfold Server.cmdSave
      by_cases hlen : argv.length = 1
      · rw [if_neg (not_not.mpr hlen), if_pos ⟨hname, hlen, Bool.not_eq_true _ ▸ hauth⟩]
        simp only [Store.snapshot]
        cases dumpRdbEntries (sys.server.store.live sys.now) with
        | none => rfl
        | some payload => cases env.saveError <;> rfl
      · rw [if_pos hlen, if_neg fun hall => hlen hall.2.1]
        rfl
  · have hpayload : sys.savePayload conn argv = none := if_neg fun hall => hname hall.1
    rw [hpayload]
    obtain ⟨-, hstep⟩ := command_cases hrole h
    cases hstep with
    | answered srv reply hframe =>
      obtain hkept | ⟨hsave, -⟩ := hframe.rdb
      · exact hkept
      · exact absurd hsave hname
    | accepted d evicted s reply hfree hw heff hlim => rfl

/-- The other actions, the end of a BGSAVE apart, leave the RDB file alone. -/
theorem rdbFile_of_action {a : Action} (hrole : sys.server.config.isReplica = false)
    (h : sys.step a = some (sys', es)) (hwrite : ∀ time, a ≠ .bgsaveWrite time)
    (hsave : ∀ conn argv env, a = .command conn argv env → sys.savePayload conn argv = none) :
    sys'.server.rdbFile = sys.server.rdbFile := by
  cases stepped_of_step h with
  | command conn argv env sys' es hc =>
    rw [rdbFile_of_command hrole hc, hsave conn argv env rfl]
    rfl
  | bgsaveWritten time d rdb hd hdump => exact absurd rfl (hwrite time)
  | _ => rfl

/-- Nothing but its own end takes the snapshot of a BGSAVE away. -/
theorem bgsave_of_action {a : Action} {d : Entries} (h : sys.step a = some (sys', es))
    (hwrite : ∀ time, a ≠ .bgsaveWrite time) (hfail : a ≠ .bgsaveFail)
    (hd : sys.bgsave = some d) : sys'.bgsave = some d := by
  cases stepped_of_step h with
  | command conn argv env sys' es hc => exact (commanded_of_command hc).bgsave.trans hd
  | bgsaveSnapshot hfree hidle hasked => exact nomatch hidle.symm.trans hd
  | bgsaveWritten time d' rdb hd' hdump => exact absurd rfl (hwrite time)
  | bgsaveUnencodable time d' hd' hdump => exact absurd rfl (hwrite time)
  | bgsaveFailed d' hd' => exact absurd rfl hfail
  | _ => exact hd

/-! ## Steps of the machine -/

variable {disk disk' start : DiskSystem} {evs : List Event}

/-- The ways a step can go. -/
inductive DiskStepped (disk : DiskSystem) : DiskAction → DiskSystem → List Event → Prop where
  | server (action : Action) (sys : System) (es : List Event) (hidle : disk.save = none)
      (hnot : disk.ofSaver action = false) (hs : disk.system.step action = some (sys, es)) :
      DiskStepped disk (.server action) { disk with system := sys } es
  | saveStarted (conn : ℕ) (argv : Command) (payload : Bytes) (hidle : disk.save = none)
      (hpayload : disk.system.savePayload conn argv = some payload) :
      DiskStepped disk (.saveStart conn argv)
        { disk with
          save := some { conn := conn, argv := argv
                         saver := { number := 0, payload := payload } } } []
  | saveWent (step : SaveStep) (env : Env) (saving : Saving) (saver : Saver)
      (f : Files RdbName UInt8) (hsave : disk.save = some saving)
      (hop : saving.saver.step disk.files step = some (.running saver, f)) :
      DiskStepped disk (.save step env)
        { disk with files := f, save := some { saving with saver := saver } } []
  | saveEnded (step : SaveStep) (env : Env) (saving : Saving) (result : SaveResult)
      (f : Files RdbName UInt8) (sys : System) (es : List Event)
      (hsave : disk.save = some saving)
      (hop : saving.saver.step disk.files step = some (result, f))
      (hended : ∀ saver, result ≠ .running saver)
      (hs : disk.system.step (.command saving.conn saving.argv (DiskSystem.reported env result)) =
        some (sys, es)) :
      DiskStepped disk (.save step env)
        { disk with system := sys, files := f, save := none } es
  | bgsaveStarted (d : Entries) (payload : Bytes) (hidle : disk.save = none)
      (hthread : disk.thread = none) (hd : disk.system.bgsave = some d)
      (hdump : dumpRdbEntries d = some payload) :
      DiskStepped disk .bgsaveStart
        { disk with thread := some (.running { number := 0, payload := payload }) } []
  | bgsaveWent (step : SaveStep) (saver : Saver) (result : SaveResult) (f : Files RdbName UInt8)
      (hthread : disk.thread = some (.running saver))
      (hop : saver.step disk.files step = some (result, f)) :
      DiskStepped disk (.bgsave step) { disk with files := f, thread := some result } []
  | bgsaveDone (time : ℤ) (sys : System) (es : List Event) (hidle : disk.save = none)
      (hthread : disk.thread = some .done)
      (hs : disk.system.step (.bgsaveWrite time) = some (sys, es)) :
      DiskStepped disk (.bgsaveEnd time) { disk with system := sys, thread := none } es
  | bgsaveFailed (time : ℤ) (sys : System) (es : List Event) (hidle : disk.save = none)
      (hthread : disk.thread = some .failed)
      (hs : disk.system.step .bgsaveFail = some (sys, es)) :
      DiskStepped disk (.bgsaveEnd time) { disk with system := sys, thread := none } es
  | bgsaveUnencodable (time : ℤ) (d : Entries) (sys : System) (es : List Event)
      (hidle : disk.save = none) (hthread : disk.thread = none)
      (hd : disk.system.bgsave = some d) (hdump : dumpRdbEntries d = none)
      (hs : disk.system.step (.bgsaveWrite time) = some (sys, es)) :
      DiskStepped disk (.bgsaveEnd time) { disk with system := sys } es

/-- **What a step can do.**
SOURCE: server.py:580-613, persistence/rdb.py:116-125 -/
theorem diskStepped_of_step {a : DiskAction} (h : disk.step a = some (disk', es)) :
    DiskStepped disk a disk' es := by
  have hact : ∀ {d : DiskSystem} {action : Action}, d.act action = some (disk', es) →
      ∃ sys, d.system.step action = some (sys, es) ∧ { d with system := sys } = disk' := by
    intro d action hd
    obtain ⟨⟨sys, es'⟩, hs, heq⟩ := Option.map_eq_some_iff.mp hd
    obtain ⟨hdisk, rfl⟩ := Prod.mk.inj heq
    exact ⟨sys, hs, hdisk⟩
  cases a with
  | server action =>
    simp only [DiskSystem.step] at h
    split_ifs at h with hidle
    obtain ⟨sys, hs, rfl⟩ := hact h
    exact .server action sys es (Option.isNone_iff_eq_none.mp hidle.1) hidle.2 hs
  | saveStart conn argv =>
    simp only [DiskSystem.step] at h
    split_ifs at h with hidle
    obtain ⟨payload, hpayload, heq⟩ := Option.map_eq_some_iff.mp h
    cases heq
    exact .saveStarted conn argv payload (Option.isNone_iff_eq_none.mp hidle) hpayload
  | save step env =>
    simp only [DiskSystem.step, DiskSystem.stepSave] at h
    obtain ⟨saving, hsave, h⟩ := Option.bind_eq_some_iff.mp h
    obtain ⟨⟨result, f⟩, hop, h⟩ := Option.bind_eq_some_iff.mp h
    cases result with
    | running saver =>
      cases h
      exact .saveWent step env saving saver f hsave hop
    | done =>
      obtain ⟨sys, hs, rfl⟩ := hact h
      exact .saveEnded step env saving .done f sys es hsave hop nofun hs
    | failed =>
      obtain ⟨sys, hs, rfl⟩ := hact h
      exact .saveEnded step env saving .failed f sys es hsave hop nofun hs
  | bgsaveStart =>
    simp only [DiskSystem.step] at h
    split_ifs at h with hidle
    obtain ⟨payload, hpayload, heq⟩ := Option.map_eq_some_iff.mp h
    obtain ⟨d, hd, hdump⟩ := Option.bind_eq_some_iff.mp hpayload
    cases heq
    exact .bgsaveStarted d payload (Option.isNone_iff_eq_none.mp hidle.1)
      (Option.isNone_iff_eq_none.mp hidle.2) hd hdump
  | bgsave step =>
    simp only [DiskSystem.step] at h
    split at h
    · rename_i saver hthread
      obtain ⟨⟨result, f⟩, hop, heq⟩ := Option.map_eq_some_iff.mp h
      cases heq
      exact .bgsaveWent step saver result f hthread hop
    · cases h
  | bgsaveEnd time =>
    simp only [DiskSystem.step] at h
    split_ifs at h with hidle
    have hsave : disk.save = none := Option.isNone_iff_eq_none.mp hidle
    unfold DiskSystem.stepBgsaveEnd at h
    split at h
    · rename_i hthread
      obtain ⟨sys, hs, rfl⟩ := hact h
      exact .bgsaveDone time sys es hsave hthread hs
    · rename_i hthread
      obtain ⟨sys, hs, rfl⟩ := hact h
      exact .bgsaveFailed time sys es hsave hthread hs
    · cases h
    · rename_i hthread
      obtain ⟨d, hd, h⟩ := Option.bind_eq_some_iff.mp h
      split_ifs at h with hdump
      obtain ⟨sys, hs, rfl⟩ := hact h
      exact .bgsaveUnencodable time d sys es hsave hthread hd
        (Option.isNone_iff_eq_none.mp hdump) hs

/-- Without its files the machine takes the steps of the server, or none. -/
theorem system_of_step {a : DiskAction} (h : disk.step a = some (disk', es)) :
    (disk'.system = disk.system ∧ es = []) ∨
      ∃ action, disk.system.step action = some (disk'.system, es) := by
  cases diskStepped_of_step h with
  | server action sys es hidle hnot hs => exact Or.inr ⟨_, hs⟩
  | saveStarted conn argv payload hidle hpayload => exact Or.inl ⟨rfl, rfl⟩
  | saveWent step env saving saver f hsave hop => exact Or.inl ⟨rfl, rfl⟩
  | saveEnded step env saving result f sys es hsave hop hended hs => exact Or.inr ⟨_, hs⟩
  | bgsaveStarted d payload hidle hthread hd hdump => exact Or.inl ⟨rfl, rfl⟩
  | bgsaveWent step saver result f hthread hop => exact Or.inl ⟨rfl, rfl⟩
  | bgsaveDone time sys es hidle hthread hs => exact Or.inr ⟨_, hs⟩
  | bgsaveFailed time sys es hidle hthread hs => exact Or.inr ⟨_, hs⟩
  | bgsaveUnencodable time d sys es hidle hthread hd hdump hs => exact Or.inr ⟨_, hs⟩

/-- A run of the machine is a run of the server with the same events. -/
theorem reaches_of_disk {ok : DiskSystem → DiskAction → Prop}
    (hrun : Runs DiskSystem.step ok start evs disk) : Reaches start.system evs disk.system := by
  refine hrun.invariant (I := fun evs disk => Reaches start.system evs disk.system) .start ?_
  rintro evs es disk disk' a hreach - hs
  obtain ⟨hsame, rfl⟩ | ⟨action, haction⟩ := system_of_step hs
  · rw [hsame, List.append_nil]
    exact hreach
  · exact hreach.step trivial haction

/-! ## The files follow the server -/

/-- A SAVE starts only when no BGSAVE has its snapshot. -/
def SavesApart (disk : DiskSystem) : DiskAction → Prop
  | .saveStart _ _ => disk.system.bgsave = none
  | _ => True

/-- The files of a master whose savers keep apart: each has the temporary file for itself, and the
RDB file is the server's, or the snapshot of the BGSAVE whose thread has ended. -/
structure OnDisk (disk : DiskSystem) : Prop where
  distinct : disk.files.Distinct
  save : ∀ saving, disk.save = some saving → disk.system.bgsave = none ∧
    disk.system.savePayload saving.conn saving.argv = some saving.saver.payload ∧
    ∃ d, Writing [d] disk.files saving.saver
  thread : ∀ result, disk.thread = some result → ∃ d, disk.system.bgsave = some d ∧
    ∀ saver, result = .running saver → Writing [d] disk.files saver
  file : disk.thread ≠ some .done → disk.files.read .path = disk.system.server.rdbFile
  replaced : disk.thread = some .done → ∃ d payload, disk.system.bgsave = some d ∧
    dumpRdbEntries d = some payload ∧ disk.files.read .path = some payload

/-- A saver of one snapshot writes that snapshot. -/
theorem Writing.single {d : Entries} {f : Files RdbName UInt8} {s : Saver}
    (h : Writing [d] f s) : dumpRdbEntries d = some s.payload := by
  obtain ⟨d', hd', hdump⟩ := h.payload
  have hnumber : s.number = 0 := Nat.succ.inj h.latest
  rw [hnumber] at hd'
  cases hd'
  exact hdump

/-- A saver that is about to open the temporary file. -/
theorem writing_opening {d : Entries} {payload : Bytes} (hdump : dumpRdbEntries d = some payload)
    (f : Files RdbName UInt8) : Writing [d] f { number := 0, payload := payload } :=
  ⟨rfl, ⟨d, rfl, hdump⟩, trivial⟩

/-- While a SAVE is at work no thread is. -/
theorem OnDisk.threadless (h : OnDisk disk) (hb : disk.system.bgsave = none) :
    disk.thread = none := by
  cases hthread : disk.thread with
  | none => rfl
  | some result =>
    obtain ⟨d, hd, -⟩ := h.thread result hthread
    exact nomatch hb.symm.trans hd

/-- While a thread is at work no SAVE is. -/
theorem OnDisk.saveless (h : OnDisk disk) {result : SaveResult}
    (hthread : disk.thread = some result) : disk.save = none := by
  cases hsave : disk.save with
  | none => rfl
  | some saving => exact nomatch (h.threadless (h.save saving hsave).1).symm.trans hthread

/-- **One step keeps the files with the server.**
SOURCE: server.py:580-613, persistence/rdb.py:116-125 -/
theorem OnDisk.step (h : OnDisk disk) (hrole : disk.system.server.config.isReplica = false)
    {a : DiskAction} (hok : SavesApart disk a) (hs : disk.step a = some (disk', es)) :
    OnDisk disk' := by
  cases diskStepped_of_step hs with
  | server action sys es hidle hnot hs =>
    have hwrite : ∀ time, action ≠ .bgsaveWrite time := by
      rintro time rfl
      exact nomatch hnot
    have hfail : ∀ result, disk.thread = some result → action ≠ .bgsaveFail := by
      rintro result hthread rfl
      rw [DiskSystem.ofSaver, hthread] at hnot
      exact nomatch hnot
    have hcommand : ∀ conn argv env, action = .command conn argv env →
        disk.system.savePayload conn argv = none := by
      rintro conn argv env rfl
      exact Option.isSome_eq_false_iff.mp hnot |> Option.isNone_iff_eq_none.mp
    refine ⟨h.distinct, by simp [hidle], ?_, ?_, ?_⟩
    · intro result hthread
      obtain ⟨d, hd, hwriting⟩ := h.thread result hthread
      exact ⟨d, bgsave_of_action hs hwrite (hfail result hthread) hd, hwriting⟩
    · intro hthread
      exact (h.file hthread).trans (rdbFile_of_action hrole hs hwrite hcommand).symm
    · intro hthread
      obtain ⟨d, payload, hd, hdump, hread⟩ := h.replaced hthread
      exact ⟨d, payload, bgsave_of_action hs hwrite (hfail _ hthread) hd, hdump, hread⟩
  | saveStarted conn argv payload hidle hpayload =>
    have hthread := h.threadless hok
    refine ⟨h.distinct, ?_, h.thread, h.file, h.replaced⟩
    rintro saving hsave
    cases hsave
    refine ⟨hok, hpayload, disk.system.server.store.live disk.system.now, ?_⟩
    apply writing_opening
    unfold System.savePayload at hpayload
    split_ifs at hpayload
    exact hpayload
  | saveWent step env saving saver f hsave hop =>
    obtain ⟨hb, hpayload, d, hw⟩ := h.save saving hsave
    obtain ⟨hdistinct, hw', -, hread⟩ := hw.step h.distinct hop
    have hthread := h.threadless hb
    refine ⟨hdistinct, ?_, by simp [hthread], ?_,
      by simp [hthread]⟩
    · rintro saving' hsave'
      cases hsave'
      refine ⟨hb, ?_, d, hw'⟩
      have hsame : saver.payload = saving.saver.payload :=
        Option.some.inj (hw'.single.symm.trans hw.single)
      rw [hpayload, hsame]
    · exact fun hr => hread.trans (h.file hr)
  | saveEnded step env saving result f sys es hsave hop hended hs =>
    obtain ⟨hb, hpayload, d, hw⟩ := h.save saving hsave
    obtain ⟨hdistinct, hadvanced⟩ := hw.step h.distinct hop
    have hthread := h.threadless hb
    have hfile := rdbFile_of_command hrole hs
    rw [hpayload] at hfile
    refine ⟨hdistinct, nofun, by simp [hthread], fun _ => ?_,
      by simp [hthread]⟩
    cases result with
    | running saver => exact absurd rfl (hended saver)
    | done => exact hadvanced.trans hfile.symm
    | failed =>
      have hbefore := h.file (by rw [hthread]; exact nofun)
      exact (hadvanced.trans hbefore).trans hfile.symm
  | bgsaveStarted d payload hidle hthread hd hdump =>
    refine ⟨h.distinct, h.save, ?_, fun _ => h.file (by rw [hthread]; exact nofun), nofun⟩
    rintro result hresult
    cases hresult
    refine ⟨d, hd, ?_⟩
    rintro saver hsaver
    cases hsaver
    exact writing_opening hdump _
  | bgsaveWent step saver result f hthread hop =>
    obtain ⟨d, hd, hwriting⟩ := h.thread _ hthread
    have hw := hwriting saver rfl
    obtain ⟨hdistinct, hadvanced⟩ := hw.step h.distinct hop
    have hbefore := h.file (by rw [hthread]; exact nofun)
    refine ⟨hdistinct, by simp [h.saveless hthread], ?_, ?_,
      ?_⟩
    · rintro result' hresult'
      cases hresult'
      refine ⟨d, hd, ?_⟩
      rintro saver' rfl
      exact hadvanced.1
    · intro hnot
      cases result with
      | running saver' => exact hadvanced.2.2.trans hbefore
      | done => exact absurd rfl hnot
      | failed => exact hadvanced.trans hbefore
    · intro hdone
      cases hdone
      exact ⟨d, saver.payload, hd, hw.single, hadvanced⟩
  | bgsaveDone time sys es hidle hthread hs =>
    obtain ⟨d, payload, hd, hdump, hread⟩ := h.replaced hthread
    refine ⟨h.distinct, by simp [hidle], nofun, fun _ => ?_,
      nofun⟩
    cases stepped_of_step hs with
    | bgsaveWritten _ d' rdb hd' hdump' =>
      cases hd.symm.trans hd'
      exact hread.trans (hdump.symm.trans hdump')
    | bgsaveUnencodable _ d' hd' hdump' =>
      cases hd.symm.trans hd'
      exact nomatch hdump.symm.trans hdump'
  | bgsaveFailed time sys es hidle hthread hs =>
    have hbefore := h.file (by rw [hthread]; exact nofun)
    refine ⟨h.distinct, by simp [hidle], nofun, fun _ => ?_,
      nofun⟩
    cases stepped_of_step hs with
    | bgsaveFailed d hd => exact hbefore
  | bgsaveUnencodable time d sys es hidle hthread hd hdump hs =>
    have hbefore := h.file (by rw [hthread]; exact nofun)
    refine ⟨h.distinct, by simp [hidle],
      by simp [hthread], fun _ => ?_,
      by simp [hthread]⟩
    cases stepped_of_step hs with
    | bgsaveWritten _ d' rdb hd' hdump' =>
      cases hd.symm.trans hd'
      exact nomatch hdump.symm.trans hdump'
    | bgsaveUnencodable _ d' hd' hdump' => exact hbefore

/-- A server that has just been started on its files: no task and no saver is at work. -/
structure UnoccupiedDisk (disk : DiskSystem) : Prop where
  system : Unoccupied disk.system
  save : disk.save = none
  thread : disk.thread = none
  distinct : disk.files.Distinct
  file : disk.files.read .path = disk.system.server.rdbFile

/-- **The files follow the server**, in every run in which the savers keep apart. -/
theorem onDisk_of_run (hstart : UnoccupiedDisk start)
    (hrun : Runs DiskSystem.step SavesApart start evs disk) : OnDisk disk := by
  have hinv := hrun.invariant
    (I := fun _ disk => disk.system.server.config.isReplica = false ∧ OnDisk disk)
    ⟨hstart.system.role, hstart.distinct, by simp [hstart.save],
      by simp [hstart.thread], fun _ => hstart.file,
      by simp [hstart.thread]⟩ (by
    rintro evs es disk disk' a ⟨hrole, hon⟩ hok hs
    refine ⟨?_, hon.step hrole hok hs⟩
    obtain ⟨hsame, -⟩ | ⟨action, haction⟩ := system_of_step hs
    · rw [hsame]
      exact hrole
    · rw [(turn_of_step hrole haction).config]
      exact hrole)
  exact hinv.2

/-- **A crash between any two file operations leaves a moment.** A server that had no RDB file
runs, and whatever its tasks were about, a SAVE or a BGSAVE at any of its file operations, it is
stopped or crashes; only no SAVE started between the snapshot of a BGSAVE and its end. A server
without an AOF started in its place on an RDB file that is not too large comes up, with the
keyspace of one moment of the run less what has expired by then, or empty if nothing was saved.
SOURCE: server.py:226-248, 580-613, persistence/rdb.py:116-210 -/
theorem crash_at_moment (hstart : UnoccupiedDisk start)
    (hnone : start.system.server.rdbFile = none) (hnow : 0 ≤ start.system.now)
    (hrun : Runs DiskSystem.step SavesApart start evs disk) {cfg : Config}
    (haof : cfg.aofEnabled = false)
    (hsize : ∀ rdb, disk.files.read .path = some rdb → rdb.length ≤ cfg.persistenceMaxLoadBytes)
    (replid : Replid) (aofFile : Option Bytes) (clock : ℕ → ℤ) :
    ∃ srv, Server.start cfg replid aofFile (disk.files.read .path) clock = .ok srv ∧
      (disk.files.read .path = none ∧ srv.store.entries = Dict.empty ∨
        ∃ d, WasKeyspace start.system evs disk.system d ∧
          srv.store.entries = liveAt (clock 0) d) := by
  have hon := onDisk_of_run hstart hrun
  obtain ⟨hhand, hfile⟩ := wasKeyspace_of_run hstart.system (reaches_of_disk hrun)
  refine start_at_moment hstart.system.role hnow haof hsize ?_ replid aofFile clock
  by_cases hthread : disk.thread = some .done
  · obtain ⟨d, payload, hd, hdump, hread⟩ := hon.replaced hthread
    exact Or.inr ⟨d, payload, hhand d (Or.inl hd), hdump, hread⟩
  · rw [hon.file hthread]
    exact hfile.imp_left fun hsame => hsame.trans hnone

instance (disk : DiskSystem) (a : DiskAction) : Decidable (SavesApart disk a) :=
  match a with
  | .saveStart _ _ => decidable_of_iff (disk.system.bgsave.isNone = true)
      Option.isNone_iff_eq_none
  | .server _ => isTrue trivial
  | .save _ _ => isTrue trivial
  | .bgsaveStart => isTrue trivial
  | .bgsave _ => isTrue trivial
  | .bgsaveEnd _ => isTrue trivial

/-- A key is set and saved, and a second key is set. A BGSAVE has its snapshot of both and has
written one byte of it to the temporary file when the server crashes. -/
def halfSaved : List DiskAction :=
  [.server (.command 1 [ascii "SET", ascii "k", ascii "v"] {}), .server (.append .none),
    .server (.propagate fun _ => false), .saveStart 1 [ascii "SAVE"], .save .openTmp {},
    .save (.write 39) {}, .save .sync {}, .save .replace {},
    .server (.command 1 [ascii "SET", ascii "a", ascii "1"] {}), .server (.append .none),
    .server (.propagate fun _ => false), .server .scheduleBgsave, .server .bgsaveSnapshot,
    .bgsaveStart, .bgsave .openTmp, .bgsave (.write 1)]

/-- The second key is not in the file. -/
theorem crash_at_moment_halfSaved :
    ∃ evs disk srv, Runs DiskSystem.step SavesApart { system := { server := started {} default } }
        evs disk ∧
      (disk.system.server.store.live disk.system.now).keys = [ascii "k", ascii "a"] ∧
      disk.files.read .tmp = some (ascii "B") ∧
      Server.start { aofEnabled := false } default none (disk.files.read .path) (fun _ => 7) =
        .ok srv ∧ srv.store.entries.keys = [ascii "k"] := by
  have hend : (runAll DiskSystem.step SavesApart halfSaved
      { system := { server := started {} default } }).map (fun q =>
        ((q.2.system.server.store.live q.2.system.now).keys, q.2.files.read .tmp,
          decide (∀ rdb ∈ q.2.files.read .path,
            rdb.length ≤ ({ aofEnabled := false } : Config).persistenceMaxLoadBytes),
          (Server.start { aofEnabled := false } default none (q.2.files.read .path)
            (fun _ => 7)).toOption.map fun srv => srv.store.entries.keys)) =
      some ([ascii "k", ascii "a"], some (ascii "B"), true, some [ascii "k"]) := by
    decide +kernel
  obtain ⟨⟨evs, disk⟩, hran, hview⟩ := Option.map_eq_some_iff.mp hend
  simp only [Prod.mk.injEq] at hview
  obtain ⟨hlive, htmp, hsize, hkeys⟩ := hview
  have hrun := runs_of_runAll hran .start
  have hstart : UnoccupiedDisk { system := { server := started {} default } } :=
    ⟨⟨rfl, rfl, rfl, rfl⟩, rfl, rfl, ⟨nofun, nofun⟩, rfl⟩
  have haof : ({ aofEnabled := false } : Config).aofEnabled = false := rfl
  obtain ⟨srv, hsrv, -⟩ := crash_at_moment hstart rfl le_rfl hrun haof
    (fun rdb hrdb => of_decide_eq_true hsize rdb hrdb) default none fun _ => 7
  refine ⟨evs, disk, srv, hrun, hlive, htmp, hsrv, ?_⟩
  rw [hsrv] at hkeys
  exact Option.some.inj hkeys

end ByoRedis.Analysis
