import ByoRedis.Analysis.Convergence
import ByoRedis.Analysis.LiveAof

/-!
# Restarts

Two files hold the data of a server: the AOF, and an RDB that ages beside it. `start` picks
the RDB when the AOF is empty. A server whose keyspace is empty may well have an empty AOF,
after a rewrite, and an RDB from the time when it held keys: these are back after the next
start. `Recoverable` excludes this, and an AOF too large for the parser's buffer;
`restart_iff` says that nothing else can go wrong, over any sequence of sessions.
-/

set_option autoImplicit false

namespace ByoRedis.Analysis

open ByoRedis.Model ByoRedis.Lib ByoRedis.Interface

/-- The files are within the limits of `_load_persistence`.
SOURCE: server.py:235-246 -/
structure WithinLimits (srv : Server) : Prop where
  aof : (srv.aof.file.getD []).length ≤ srv.config.persistenceMaxLoadBytes
  rdb : (srv.rdbFile.getD []).length ≤ srv.config.persistenceMaxLoadBytes

/-- The files give the keyspace back: the AOF has records and fits the buffer of the parser
that reads it, or it is empty and there is no RDB with keys.
SOURCE: server.py:226-248 -/
def Recoverable (srv : Server) : Prop :=
  if Server.hasContent srv.aof.file then (srv.aof.file.getD []).length ≤ 32000000
  else srv.rdbFile = none ∨ srv.rdbFile = dumpRdbEntries Dict.empty

/-- The servers that start in one data directory, one session after the other: the first on
an empty directory, every other one on the files of a server that ran under any schedule and
stopped with the write lock free.
SOURCE: server.py:125-224 -/
inductive Sessions (cfg : Config) : Server → Prop where
  | first {srv : Server} (replid : Replid) (clock : ℕ → ℤ)
      (h : Server.start cfg replid none none clock = .ok srv) : Sessions cfg srv
  | next {srv srv' : Server} {sys : System} {t : ℤ} {evs : List Event}
      (before : Sessions cfg srv)
      (run : Runs System.step Allowed { server := srv, now := t } evs sys)
      (free : sys.holder = .free) (limits : WithinLimits sys.server)
      (recoverable : Recoverable sys.server) (replid : Replid) (clock : ℕ → ℤ)
      (h : Server.start cfg replid sys.server.aof.file sys.server.rdbFile clock = .ok srv') :
      Sessions cfg srv'

variable {cfg : Config} {sys : System}

/-! ## What a start loads -/

/-- A dump is not empty. -/
theorem dumpRdbEntries_ne_nil {d : Entries} {rdb : Bytes} (h : dumpRdbEntries d = some rdb) :
    rdb ≠ [] := by
  unfold dumpRdbEntries at h
  obtain ⟨body, -, rfl⟩ := Option.map_eq_some_iff.mp h
  simp [rdbFooter, ascii]

/-- Different entries have different dumps, for a dump is read back. -/
theorem dumpRdbEntries_inj {d d' : Entries} (ht : Timeless d) (ht' : Timeless d')
    (hsome : dumpRdbEntries d ≠ none) (h : dumpRdbEntries d = dumpRdbEntries d') : d = d' := by
  obtain ⟨rdb, hdump⟩ := Option.ne_none_iff_exists'.mp hsome
  have h1 := loadRdbBytes_of_timeless ht hdump le_rfl 0
  have h2 := loadRdbBytes_of_timeless ht' (h.symm.trans hdump) le_rfl 0
  exact Except.ok.inj (h1.symm.trans h2)

/-- A replay of writes leaves the RDB alone. -/
theorem rdbFile_replayAof (clock : ℕ → ℤ) {cs : List Command}
    (hcs : ∀ c ∈ cs, isWrite c = true) (srv : Server) :
    (Server.replayAof clock cs srv).rdbFile = srv.rdbFile := by
  induction cs generalizing clock srv with
  | nil => rfl
  | cons argv cs ih =>
    obtain ⟨s, failed, hone⟩ := replayOne_write srv (clock 0) (hcs argv (by simp))
    show (Server.replayAof _ cs (srv.replayOne (clock 0) argv)).rdbFile = _
    rw [ih _ (fun c hc => hcs c (List.mem_cons_of_mem _ hc)), hone]

/-- What a start leaves besides the AOF, which `aof_start` says. -/
structure Loaded (entries : Entries) (rdbFile : Option Bytes) (srv : Server) : Prop where
  entries : srv.store.entries = entries
  unlimited : srv.store.maxmemoryBytes = 0
  rdb : srv.rdbFile = rdbFile

/-- A start opens the log behind the load. -/
theorem start_of_loadPersistence {replid : Replid} {aofFile rdbFile : Option Bytes}
    {clock : ℕ → ℤ} {srv : Server}
    (h : (Server.init cfg replid aofFile rdbFile).loadPersistence clock = .ok srv) :
    Server.start cfg replid aofFile rdbFile clock =
      .ok { srv with aof := srv.aof.openLog cfg } := by
  unfold Server.start
  rw [h]
  rfl

/-- A file with a record is not empty. -/
theorem hasContent_records {cs : List Command} (hne : cs ≠ []) :
    Server.hasContent (some (cs.flatMap encodeCommand)) = true := by
  cases cs with
  | nil => exact absurd rfl hne
  | cons c cs => simp [Server.hasContent, encodeCommand_ne_nil]

/-- A start on a file of records that fits executes them.
SOURCE: server.py:226-240 -/
theorem start_replays (hm : AofMaster cfg) {cs : List Command} (hcs : ∀ c ∈ cs, Kept cfg c)
    (hne : cs ≠ []) (hload : Loadable cfg.persistenceMaxLoadBytes (cs.flatMap encodeCommand))
    (replid : Replid) (rdbFile : Option Bytes) (clock : ℕ → ℤ) :
    Server.start cfg replid (some (cs.flatMap encodeCommand)) rdbFile clock =
      .ok { Server.replayAof clock cs
          (Server.init cfg replid (some (cs.flatMap encodeCommand)) rdbFile) with
        aof := (Server.replayAof clock cs
          (Server.init cfg replid (some (cs.flatMap encodeCommand)) rdbFile)).aof.openLog cfg }
      := by
  have hread := readCommands_records (fun c hc => (hcs c hc).readable) hload
  refine start_of_loadPersistence ?_
  unfold Server.loadPersistence
  simp only [Server.init, hm.enabled, hasContent_records hne, hread, Bool.and_self, if_true]

/-- The state it comes to.
SOURCE: server.py:226-240 -/
theorem start_records (hm : AofMaster cfg) {cs : List Command} (hcs : ∀ c ∈ cs, Kept cfg c)
    (hne : cs ≠ []) (hload : Loadable cfg.persistenceMaxLoadBytes (cs.flatMap encodeCommand))
    (replid : Replid) (rdbFile : Option Bytes) (clock : ℕ → ℤ) :
    ∃ srv, Server.start cfg replid (some (cs.flatMap encodeCommand)) rdbFile clock = .ok srv ∧
      Loaded (replay cs Dict.empty) rdbFile srv := by
  refine ⟨_, start_replays hm hcs hne hload replid rdbFile clock,
    entries_replayAof hm hcs replid _ rdbFile clock, ?_,
    rdbFile_replayAof clock (fun c hc => (hcs c hc).loggable.write) _⟩
  show (Server.replayAof clock cs (Server.init cfg replid (some (cs.flatMap encodeCommand))
    rdbFile)).store.maxmemoryBytes = 0
  rw [replayAof_eq_applyLog]
  obtain ⟨-, -, hsame⟩ := entries_applyLog (rfl : Flags.loading.isReplicaClient = true) clock cs
    (fun c hc => (hcs c hc).loggable)
    (Server.init cfg replid (some (cs.flatMap encodeCommand)) rdbFile) hm.unlimited timeless_empty
  exact hsame.1.trans hm.unlimited

/-- A start on an AOF beyond the parser's buffer.
SOURCE: persistence/aof.py:264-267 -/
theorem start_overflow (hen : cfg.aofEnabled = true) {data : Bytes}
    (hlarge : 32000000 < data.length) (hlim : data.length ≤ cfg.persistenceMaxLoadBytes)
    (replid : Replid) (rdbFile : Option Bytes) (clock : ℕ → ℤ) :
    Server.start cfg replid (some data) rdbFile clock =
      .error (.aof (.protocol (.bufferExceeded 32000000))) := by
  have hne : data.isEmpty = false := by
    cases data with
    | nil => exact absurd hlarge (by decide)
    | cons b bs => rfl
  have hread := readCommands_overflow cfg.protoMaxBulkLen hlarge hlim
  simp [Server.start, Server.loadPersistence, Server.init, hen, Server.hasContent, hne, hread,
    Except.map]

/-- A start on an empty AOF takes the RDB.
SOURCE: server.py:241-248 -/
theorem start_emptyAof (hm : AofMaster cfg) {d : Entries} (ht : Timeless d)
    {rdbFile : Option Bytes} (hrdb : rdbFile = none ∨ rdbFile = dumpRdbEntries d)
    (hlim : (rdbFile.getD []).length ≤ cfg.persistenceMaxLoadBytes) (replid : Replid)
    (clock : ℕ → ℤ) :
    ∃ srv, Server.start cfg replid (some []) rdbFile clock = .ok srv ∧
      Loaded (if rdbFile = none then Dict.empty else d) rdbFile srv := by
  have hempty : Server.hasContent (some []) = false := rfl
  cases rdbFile with
  | none =>
    have hl : (Server.init cfg replid (some []) none).loadPersistence clock =
        .ok (Server.init cfg replid (some []) none) := by
      unfold Server.loadPersistence
      simp only [Server.init, hempty, Bool.and_false, Bool.false_eq_true, if_false]
      rfl
    exact ⟨_, start_of_loadPersistence hl, rfl, hm.unlimited, rfl⟩
  | some rdb =>
    have hdump : dumpRdbEntries d = some rdb := (hrdb.resolve_left (by simp)).symm
    have hcontent : Server.hasContent (some rdb) = true := by
      simp [Server.hasContent, dumpRdbEntries_ne_nil hdump]
    have hload := loadRdbBytes_of_timeless ht hdump hlim (clock 0)
    have hl : (Server.init cfg replid (some []) (some rdb)).loadPersistence clock =
        .ok { Server.init cfg replid (some []) (some rdb) with
          store := cfg.emptyStore.loadEntries d } := by
      unfold Server.loadPersistence
      simp only [Server.init, hempty, hcontent, hload, Bool.and_false, Bool.false_eq_true,
        if_false, if_true, Option.getD_some]
    exact ⟨_, start_of_loadPersistence hl, rfl, hm.unlimited, rfl⟩

/-! ## One restart -/

/-- Where the lock is free the file alone rebuilds the keyspace. -/
theorem Sound.records (h : Sound cfg sys) (hfree : sys.holder = .free) :
    ∃ cs, sys.server.aof.file = some (cs.flatMap encodeCommand) ∧ (∀ c ∈ cs, Kept cfg c) ∧
      replay cs Dict.empty = sys.server.store.entries := by
  obtain ⟨cs, hfile, hcs, hreplay⟩ := h.file
  rw [hfree] at hreplay
  exact ⟨cs, hfile, hcs, by simpa [unappended] using hreplay⟩

/-- What the next start finds: records, or nothing but a snapshot of earlier entries. -/
theorem Sound.restart_cases (hm : AofMaster cfg) (h : Sound cfg sys) (hfree : sys.holder = .free)
    (hlim : WithinLimits sys.server) (replid : Replid) (clock : ℕ → ℤ) :
    (Recoverable sys.server ∧
      ∃ srv, Server.start cfg replid sys.server.aof.file sys.server.rdbFile clock = .ok srv ∧
        Loaded sys.server.store.entries sys.server.rdbFile srv) ∨
    (¬ Recoverable sys.server ∧
      ∀ srv, Server.start cfg replid sys.server.aof.file sys.server.rdbFile clock = .ok srv →
        srv.store.entries ≠ sys.server.store.entries) := by
  obtain ⟨cs, hfile, hcs, hreplay⟩ := h.records hfree
  obtain ⟨hlaof, hlrdb⟩ := hlim
  rw [h.config] at hlaof hlrdb
  rw [hfile, Option.getD_some] at hlaof
  unfold Recoverable
  rw [hfile]
  by_cases hnil : cs = []
  · subst hnil
    have hempty : sys.server.store.entries = Dict.empty := hreplay.symm
    have hcontent : Server.hasContent (some (List.flatMap encodeCommand [])) = false := rfl
    rw [hcontent, if_neg (by decide), hempty]
    obtain ⟨d, ht, hrdb⟩ : ∃ d, Timeless d ∧
        (sys.server.rdbFile = none ∨ sys.server.rdbFile = dumpRdbEntries d) := by
      rcases h.rdb with hnone | ⟨d, ht, hdump⟩
      · exact ⟨Dict.empty, timeless_empty, Or.inl hnone⟩
      · exact ⟨d, ht, Or.inr hdump⟩
    obtain ⟨srv, hstart, hloaded⟩ := start_emptyAof hm ht hrdb hlrdb replid clock
    by_cases hkeys : sys.server.rdbFile = none ∨ d = Dict.empty
    · have hent : (if sys.server.rdbFile = none then Dict.empty else d) = Dict.empty := by
        rcases hkeys with hnone | rfl
        · rw [if_pos hnone]
        · exact ite_self _
      rw [hent] at hloaded
      refine Or.inl ⟨?_, srv, hstart, hloaded⟩
      rcases hkeys with hnone | rfl
      · exact Or.inl hnone
      · exact hrdb
    · obtain ⟨hsome, hd⟩ := not_or.mp hkeys
      have hdump := hrdb.resolve_left hsome
      rw [if_neg hsome] at hloaded
      refine Or.inr ⟨?_, ?_⟩
      · rintro (hnone | hdump')
        · exact hsome hnone
        · exact hd (dumpRdbEntries_inj ht timeless_empty (hdump ▸ hsome) (hdump.symm.trans hdump'))
      · intro srv' hstart'
        cases hstart.symm.trans hstart'
        rw [hloaded.entries]
        exact hd
  · rw [hasContent_records hnil, if_pos rfl, Option.getD_some]
    by_cases hfits : (cs.flatMap encodeCommand).length ≤ 32000000
    · obtain ⟨srv, hstart, hloaded⟩ := start_records hm hcs hnil ⟨hlaof, hfits⟩ replid
        sys.server.rdbFile clock
      rw [hreplay] at hloaded
      exact Or.inl ⟨hfits, srv, hstart, hloaded⟩
    · refine Or.inr ⟨hfits, fun srv hstart => ?_⟩
      rw [start_overflow hm.enabled (Nat.not_le.mp hfits) hlaof] at hstart
      cases hstart

/-- A server that has its entries back is as it was before the stop. -/
theorem Sound.restarted (hm : AofMaster cfg) (h : Sound cfg sys) (hfree : sys.holder = .free)
    {replid : Replid} {clock : ℕ → ℤ} {srv : Server}
    (hstart : Server.start cfg replid sys.server.aof.file sys.server.rdbFile clock = .ok srv)
    (hloaded : Loaded sys.server.store.entries sys.server.rdbFile srv) (t : ℤ) :
    Sound cfg { server := srv, now := t } := by
  obtain ⟨haof, hcfg⟩ := aof_start hm.enabled hstart
  obtain ⟨cs, hfile, hcs, hreplay⟩ := h.records hfree
  obtain ⟨hent, hunlimited, hrdb⟩ := hloaded
  rw [hfile] at haof
  refine ⟨hcfg, hunlimited, ?_, ?_, ?_, ?_, ⟨cs, ?_, hcs, ?_⟩, (fun c hc => nomatch hc),
    (fun d hd => nomatch hd), (fun cs' hcs' => nomatch hcs'), ?_, (fun d hd => nomatch hd)⟩
  · exact congrArg AofLog.opened haof
  · exact congrArg AofLog.failure haof
  · show Timeless srv.store.entries
    rw [hent]
    exact h.timeless
  · show Solid cfg.protoMaxBulkLen srv.store.entries
    rw [hent]
    exact h.solid
  · exact congrArg AofLog.file haof
  · show replay (cs ++ []) Dict.empty = srv.store.entries
    rw [List.append_nil, hreplay, hent]
  · show srv.rdbFile = none ∨ _
    rw [hrdb]
    exact h.rdb

/-! ## Sequences of sessions -/

/-- The invariant holds throughout a session that starts with it. -/
theorem Sound.runs (hm : AofMaster cfg) {s₀ : System} (h : Sound cfg s₀)
    (hfree : s₀.holder = .free) {evs : List Event}
    (hrun : Runs System.step Allowed s₀ evs sys) : Sound cfg sys := by
  have hledger : Ledger cfg [] s₀ := ⟨h, by rw [hfree]; rfl, by rw [hfree]; rfl⟩
  exact (hrun.invariant hledger fun hl hok hs => hl.step hm hok hs).sound

/-- A session begins with nothing done. -/
theorem Sessions.begin {srv : Server} (_ : Sessions cfg srv) (t : ℤ) :
    Runs System.step Allowed { server := srv, now := t } [] { server := srv, now := t } := .start

/-- **Every session starts with the invariant.** -/
theorem Sessions.sound (hm : AofMaster cfg) {srv : Server} (h : Sessions cfg srv) (t : ℤ) :
    Sound cfg { server := srv, now := t } := by
  induction h generalizing t with
  | first replid clock hstart =>
    rw [start_empty] at hstart
    cases hstart
    exact (ledger_started hm replid t).sound
  | next before run free limits recoverable replid clock hstart ih =>
    have hsound := (ih _).runs hm rfl run
    obtain ⟨-, srv, hstart', hloaded⟩ :=
      (hsound.restart_cases hm free limits replid clock).resolve_right
        fun hno => hno.1 recoverable
    cases hstart'.symm.trans hstart
    exact hsound.restarted hm free hstart hloaded t

/-- **A restart restores the last state** exactly when the files are recoverable, after any
sequence of sessions and any schedule of the last one.
SOURCE: server.py:226-248, 580-643, persistence/aof.py:188-216, 320-345 -/
theorem restart_iff (hm : AofMaster cfg) {srv : Server} (hsessions : Sessions cfg srv) {t : ℤ}
    {evs : List Event} (hrun : Runs System.step Allowed { server := srv, now := t } evs sys)
    (hfree : sys.holder = .free) (hlim : WithinLimits sys.server) (replid : Replid)
    (clock : ℕ → ℤ) :
    (∃ srv', Server.start cfg replid sys.server.aof.file sys.server.rdbFile clock = .ok srv' ∧
      srv'.store.entries = sys.server.store.entries) ↔ Recoverable sys.server := by
  have hsound := (hsessions.sound hm t).runs hm rfl hrun
  rcases hsound.restart_cases hm hfree hlim replid clock with
    ⟨hrec, srv', hstart, hloaded⟩ | ⟨hrec, hno⟩
  · exact ⟨fun _ => hrec, fun _ => ⟨srv', hstart, hloaded.entries⟩⟩
  · exact ⟨fun ⟨srv', hstart, hent⟩ => absurd hent (hno srv' hstart), fun h => absurd h hrec⟩

instance (srv : Server) : Decidable (Recoverable srv) :=
  inferInstanceAs (Decidable (if Server.hasContent srv.aof.file then _ else _))

/-- A push to `k`. -/
def pushed (element : String) : Command := [ascii "LPUSH", ascii "k", ascii element]

/-- An element is pushed and the keyspace saved, and the server starts again. Another element is
pushed, the AOF is rewritten, and the next start gives both back. -/
theorem restart_iff_pushed :
    ∃ srv evs sys, Sessions {} srv ∧ srv.rdbFile.isSome = true ∧
      Runs System.step Allowed { server := srv } evs sys ∧
      (sys.server.store.entries.get? (ascii "k")).map KeyEntry.value =
        some (.deque [ascii "w", ascii "v"]) ∧
      sys.server.aof.file = some (encodeCommand [ascii "LPUSH", ascii "k", ascii "v", ascii "w"]) ∧
      ∃ srv', Server.start {} default sys.server.aof.file sys.server.rdbFile (fun _ => 0) =
          .ok srv' ∧ srv'.store.entries = sys.server.store.entries := by
  have hfirst : Sessions {} (started {} default) :=
    .first default (fun _ => 0) (start_empty {} default _)
  have h₁ := runs_write 1 (pushed "v")
    (@Runs.start _ _ _ _ _ { server := started {} default }) (by decide) (by decide) rfl rfl rfl
  have h₂ := h₁.step (a := Action.command 1 [ascii "SAVE"] {})
    ⟨by decide, fun hw => nomatch hw⟩ rfl
  have hkept : ∀ c ∈ [pushed "v"], Kept {} c := by
    intro c hc
    cases List.mem_singleton.mp hc
    exact ⟨⟨by decide, by decide⟩, by decide⟩
  have hstart := start_replays aofMaster_default hkept (List.cons_ne_nil _ _)
    ⟨by decide, by decide⟩ default
  have hsecond := hfirst.next h₂ rfl ⟨by decide, by decide⟩ (by decide) default (fun _ => 0)
    (hstart _ _)
  have h₃ := runs_write 1 (pushed "w") (hsecond.begin 0) (by decide) (by decide) rfl rfl rfl
  have h₄ := h₃.step (a := Action.command 1 [ascii "BGREWRITEAOF"] {})
    ⟨by decide, fun hw => nomatch hw⟩ rfl
  have h₅ := h₄.step (a := Action.rewriteSnapshot) trivial rfl
  have h₆ := h₅.step (a := Action.rewriteBuild) (by
    intro d hd cs hcs c hc
    cases hd
    cases hcs
    revert c
    decide) rfl
  have h₇ := h₆.step (a := Action.rewriteReplace) trivial rfl
  exact ⟨_, _, _, hsecond, rfl, h₇, rfl, rfl, (restart_iff aofMaster_default hsecond h₇ rfl
    ⟨by decide, by decide⟩ default (fun _ => 0)).mpr (by decide)⟩

/-- A key is set and saved, then deleted, and the AOF is rewritten. The key is back after
the restart. -/
theorem restart_iff_staleRdb :
    ∃ evs sys, Runs System.step Allowed { server := started {} default } evs sys ∧
      sys.holder = .free ∧ WithinLimits sys.server ∧ sys.server.store.entries.keys = [] ∧
      (Server.start {} default sys.server.aof.file sys.server.rdbFile (fun _ => 0)).toOption.map
        (fun srv => srv.store.entries.keys) = some [ascii "a"] := by
  have h₁ := runs_write 1 [ascii "SET", ascii "a", ascii "1"]
    (@Runs.start _ _ _ _ _ { server := started {} default }) (by decide) (by decide) rfl rfl rfl
  have h₂ := h₁.step (a := Action.command 1 [ascii "SAVE"] {})
    ⟨by decide, fun hw => nomatch hw⟩ rfl
  have h₃ := runs_write 1 [ascii "DEL", ascii "a"] h₂ (by decide)
    (by decide) rfl rfl rfl
  have h₄ := h₃.step (a := Action.command 1 [ascii "BGREWRITEAOF"] {})
    ⟨by decide, fun hw => nomatch hw⟩ rfl
  have h₅ := h₄.step (a := Action.rewriteSnapshot) trivial rfl
  have h₆ := h₅.step (a := Action.rewriteBuild) (by
    intro d hd cs hcs c hc
    cases hd
    cases hcs
    cases hc) rfl
  have h₇ := h₆.step (a := Action.rewriteReplace) trivial rfl
  exact ⟨_, _, h₇, rfl, ⟨by decide, by decide⟩, rfl, by decide +kernel⟩

end ByoRedis.Analysis
