import ByoRedis.Analysis.RespParsing
import ByoRedis.Analysis.Commit

/-!
# Records in the append-only file

What `read_commands` makes of a file that starts with whole records, and what `start` and
`append` do to the file.
-/

set_option autoImplicit false

namespace ByoRedis.Analysis

open ByoRedis.Model ByoRedis.Lib ByoRedis.Lib.Framing

/-! ## Reading -/

/-- A command that the reader of the AOF takes back: an argument list within the limits of
its parser.
SOURCE: persistence/aof.py:264, protocol/parser.py:20-31 -/
structure Readable (maxBulkLen : ℕ) (argv : Command) : Prop where
  nonempty : argv ≠ []
  count : argv.length ≤ 1024
  bulk : ∀ a ∈ argv, a.length ≤ maxBulkLen

instance (maxBulkLen : ℕ) (argv : Command) : Decidable (Readable maxBulkLen argv) :=
  decidable_of_iff (argv ≠ [] ∧ argv.length ≤ 1024 ∧ ∀ a ∈ argv, a.length ≤ maxBulkLen)
    ⟨fun h => ⟨h.1, h.2.1, h.2.2⟩, fun h => ⟨h.nonempty, h.count, h.bulk⟩⟩

/-- A file that is loaded: it is within the load limit and the parser's buffer.
SOURCE: persistence/aof.py:259-265, protocol/parser.py:23 -/
structure Loadable (maxFileBytes : ℕ) (data : Bytes) : Prop where
  file : data.length ≤ maxFileBytes
  buffer : data.length ≤ 32000000

/-- A shorter file can be loaded too. -/
theorem Loadable.mono {maxFileBytes : ℕ} {data data' : Bytes} (h : Loadable maxFileBytes data)
    (hle : data'.length ≤ data.length) : Loadable maxFileBytes data' :=
  ⟨hle.trans h.file, hle.trans h.buffer⟩

/-- An argument is no longer than the encoding of its command. -/
theorem length_le_encodeCommand {argv : Command} {a : Bytes} (h : a ∈ argv) :
    a.length ≤ (encodeCommand argv).length := by
  have hle : (encodeBulkString a).length ≤ (argv.flatMap encodeBulkString).length := by
    rw [List.length_flatMap]
    exact List.single_le_sum (by simp) _ (List.mem_map_of_mem h)
  have hbulk : a.length ≤ (encodeBulkString a).length := by
    simp only [encodeBulkString, List.length_append]
    omega
  rw [encodeCommand, List.length_append]
  omega

/-- The lengths in a file that is loaded are numbers `int()` converts. -/
theorem Readable.fits {maxBulkLen : ℕ} {argv : Command} (h : Readable maxBulkLen argv)
    (hlen : (encodeCommand argv).length ≤ 32000000) : Fits (aofLimits maxBulkLen) argv where
  count := h.count
  bulk := h.bulk
  countText := convertible_of_lt_ten (h.count.trans_lt (by decide))
  bulkText := fun _ ha =>
    convertible_of_lt_ten (((length_le_encodeCommand ha).trans hlen).trans_lt (by decide))
  depth := Nat.zero_lt_succ _

/-- The records of a file that can be loaded fit the parser. -/
theorem fits_of_loadable {maxBulkLen maxFileBytes : ℕ} {cs : List Command} {t : Bytes}
    (hcs : ∀ c ∈ cs, Readable maxBulkLen c)
    (hload : Loadable maxFileBytes (cs.flatMap encodeCommand ++ t)) :
    ∀ c ∈ cs, Fits (aofLimits maxBulkLen) c := by
  intro c hc
  refine (hcs c hc).fits ?_
  have hle : (encodeCommand c).length ≤ (cs.flatMap encodeCommand).length := by
    rw [List.length_flatMap]
    exact List.single_le_sum (by simp) _ (List.mem_map_of_mem hc)
  have := hload.buffer
  rw [List.length_append] at this
  omega

/-- A logged command is read back as it was.
SOURCE: persistence/aof.py:280-298 -/
theorem logged_commandValue {argv : Command} (h : argv ≠ []) :
    (commandValue argv).logged = some argv := by
  have hplain : ∀ f : RespValue → Option Bytes, (∀ b, f (.bulk b) = some b) →
      (argv.map RespValue.bulk).mapM f = some argv := by
    intro f hf
    induction argv with
    | nil => rfl
    | cons a argv ih =>
      cases argv with
      | nil => simp [hf]
      | cons b argv =>
        have := ih (by simp)
        rw [List.map_cons, List.mapM_cons, hf, this]
        rfl
  have hne : ¬ (argv.map RespValue.bulk).isEmpty = true := by simpa using h
  rw [commandValue, RespValue.logged, if_neg hne]
  simp only
  rw [hplain _ (fun _ => rfl)]

/-- The messages of records are the records. -/
theorem filterMap_logged {cs : List Command} (h : ∀ c ∈ cs, c ≠ []) :
    (cs.map commandValue).filterMap RespValue.logged = cs := by
  induction cs with
  | nil => rfl
  | cons c cs ih =>
    rw [List.map_cons, List.filterMap_cons, logged_commandValue (h c (by simp)),
      ih (fun c' hc' => h c' (List.mem_cons_of_mem _ hc'))]

/-- **Reading a file of records with anything after them:** the records, then what the
parser makes of the rest.
SOURCE: persistence/aof.py:250-299 -/
theorem readCommands_append {maxBulkLen maxFileBytes : ℕ} {cs : List Command} {t : Bytes}
    (hcs : ∀ c ∈ cs, Readable maxBulkLen c)
    (hload : Loadable maxFileBytes (cs.flatMap encodeCommand ++ t)) :
    readCommands maxBulkLen maxFileBytes (some (cs.flatMap encodeCommand ++ t)) =
      match run (RespParser.top (aofLimits maxBulkLen)) t with
      | .error e => .error (.protocol e)
      | .ok (messages, _) => .ok (cs ++ messages.filterMap RespValue.logged) := by
  have hrun := run_flatMap_append (top_lawful (aofLimits maxBulkLen))
    (frames_commands (aofLimits maxBulkLen)) cs (fits_of_loadable hcs hload) t
  simp only [readCommands]
  split_ifs with hempty hlarge
  · rw [List.isEmpty_iff, List.append_eq_nil_iff] at hempty
    have hnil : cs = [] := by
      cases cs with
      | nil => rfl
      | cons c cs => exact absurd hempty.1 (by simp [encodeCommand_ne_nil])
    rw [hempty.2, hnil, run_of_more (top_nil _)]
    rfl
  · exact absurd hload.file (by omega)
  · have hbuf : ¬ (aofLimits maxBulkLen).maxBufferBytes <
        ([] : Bytes).length + (cs.flatMap encodeCommand ++ t).length := by
      have := hload.buffer
      simp only [aofLimits, List.length_nil]
      omega
    simp only [RespParser.feed, if_neg hbuf, List.nil_append, hrun]
    rcases run (RespParser.top (aofLimits maxBulkLen)) t with e | ⟨messages, rest⟩
    · have hpush : @pushMany UInt8 _ _ (cs.map commandValue)
          (.error e : Except ProtocolError (List RespValue × Bytes)) = .error e := rfl
      rw [hpush]
    · simp only [pushMany, List.filterMap_append,
        filterMap_logged fun c hc => (hcs c hc).nonempty]

/-- A file of records is read back.
SOURCE: persistence/aof.py:250-299 -/
theorem readCommands_records {maxBulkLen maxFileBytes : ℕ} {cs : List Command}
    (hcs : ∀ c ∈ cs, Readable maxBulkLen c)
    (hload : Loadable maxFileBytes (cs.flatMap encodeCommand)) :
    readCommands maxBulkLen maxFileBytes (some (cs.flatMap encodeCommand)) = .ok cs := by
  have h := readCommands_append (t := []) hcs (by rwa [List.append_nil])
  rw [List.append_nil] at h
  rw [h, run_of_more (top_nil _)]
  simp

/-- A file larger than the parser's buffer is refused, whatever the limit on files says.
SOURCE: persistence/aof.py:259-267, protocol/parser.py:20-31 -/
theorem readCommands_overflow (maxBulkLen : ℕ) {maxFileBytes : ℕ} {data : Bytes}
    (hlarge : 32000000 < data.length) (hlim : data.length ≤ maxFileBytes) :
    readCommands maxBulkLen maxFileBytes (some data) =
      .error (.protocol (.bufferExceeded 32000000)) := by
  have hne : data.isEmpty = false := by
    cases data with
    | nil => exact absurd hlarge (by decide)
    | cons b bs => rfl
  have hbuf : (aofLimits maxBulkLen).maxBufferBytes < ([] : Bytes).length + data.length := by
    simpa [aofLimits] using hlarge
  simp only [readCommands, hne, Bool.false_eq_true, if_false, if_neg (Nat.not_lt.mpr hlim),
    RespParser.feed, if_pos hbuf]
  rfl

/-! ## Loading and appending -/

/-- A write that is replayed touches the store and a counter, and is logged nowhere.
SOURCE: server.py:475-535 -/
theorem replayOne_write (srv : Server) (now : ℤ) {argv : Command} (hw : isWrite argv = true) :
    ∃ s failed, srv.replayOne now argv =
      { srv with store := s, totalCommandsFailed := failed } := by
  unfold Server.replayOne
  have hout := prepare_write { now := now } hw
    (admitted_of_replicaClient srv 0 argv (rfl : Flags.loading.isReplicaClient = true))
  generalize hr : srv.prepare { now := now } .loading 0 argv = r at hout
  cases hout with
  | refused m heff herr hent =>
    rw [execute_of_done hr]
    exact ⟨_, _, rfl⟩
  | oom d s heff hl =>
    rw [execute_of_done hr]
    exact ⟨_, _, rfl⟩
  | accepted d evicted v s heff hl =>
    have hhooks : srv.hooks .loading argv evicted v = .done (some (encodeValue v)) := by
      simp [Server.hooks, Flags.loading]
    rw [hhooks] at hr
    rw [execute_of_done hr]
    exact ⟨_, _, rfl⟩

/-- Nothing is appended while the AOF is replayed.
SOURCE: server.py:499-529 -/
theorem aof_replayOne (srv : Server) (now : ℤ) (argv : Command) :
    (srv.replayOne now argv).aof = srv.aof ∧ (srv.replayOne now argv).config = srv.config := by
  cases hw : isWrite argv with
  | false =>
    unfold Server.replayOne
    obtain ⟨reply, srv', hp, hfr⟩ := prepare_read srv { now := now } .loading 0 hw
    rw [execute_of_done hp]
    exact ⟨hfr.aof, hfr.config⟩
  | true =>
    obtain ⟨s, failed, hr⟩ := replayOne_write srv now hw
    rw [hr]
    exact ⟨rfl, rfl⟩

/-- A replay leaves the log and the configuration alone. -/
theorem aof_replayAof (clock : ℕ → ℤ) (cs : List Command) (srv : Server) :
    (Server.replayAof clock cs srv).aof = srv.aof ∧
    (Server.replayAof clock cs srv).config = srv.config := by
  induction cs generalizing clock srv with
  | nil => exact ⟨rfl, rfl⟩
  | cons argv cs ih =>
    obtain ⟨h1, h2⟩ := ih (fun i => clock (i + 1)) (srv.replayOne (clock 0) argv)
    obtain ⟨h3, h4⟩ := aof_replayOne srv (clock 0) argv
    exact ⟨h1.trans h3, h2.trans h4⟩

/-- **Loading leaves the AOF file as it is.**
SOURCE: server.py:226-248 -/
theorem aof_loadPersistence {srv srv' : Server} {clock : ℕ → ℤ}
    (h : srv.loadPersistence clock = .ok srv') :
    srv'.aof = srv.aof ∧ srv'.config = srv.config := by
  unfold Server.loadPersistence at h
  simp only at h
  split_ifs at h
  · split at h
    · cases h
    · cases h
      exact aof_replayAof clock _ srv
  · split at h
    · cases h
    · cases h
      exact ⟨rfl, rfl⟩
  · cases h
    exact ⟨rfl, rfl⟩

/-- The AOF of a server that has started: the file as it was, open for append.
SOURCE: server.py:125-135 -/
theorem aof_start {cfg : Config} {replid : Replid} {aofFile rdbFile : Option Bytes}
    {clock : ℕ → ℤ} {srv : Server} (hen : cfg.aofEnabled = true)
    (h : Server.start cfg replid aofFile rdbFile clock = .ok srv) :
    srv.aof = { file := some (aofFile.getD []), opened := true } ∧ srv.config = cfg := by
  unfold Server.start at h
  cases hl : (Server.init cfg replid aofFile rdbFile).loadPersistence clock with
  | error e => rw [hl] at h; cases h
  | ok loaded =>
    rw [hl] at h
    cases h
    obtain ⟨haof, hcfg⟩ := aof_loadPersistence hl
    refine ⟨?_, hcfg⟩
    show AofLog.openLog cfg loaded.aof = _
    rw [haof]
    simp [AofLog.openLog, hen, Server.init]

/-- The records `cs` appended one after the other, none of which fails. -/
def appendAll (cfg : Config) (a : AofLog) (cs : List Command) : AofLog :=
  cs.foldl (fun a argv => (a.append cfg argv .none).2) a

/-- SOURCE: persistence/aof.py:167-186 -/
theorem appendAll_eq {cfg : Config} (hen : cfg.aofEnabled = true) (data : Bytes)
    (cs : List Command) :
    appendAll cfg { file := some data, opened := true } cs =
      { file := some (data ++ cs.flatMap encodeCommand), opened := true } := by
  induction cs generalizing data with
  | nil => simp [appendAll]
  | cons c cs ih =>
    have happ : (AofLog.append cfg { file := some data, opened := true } c .none).2 =
        { file := some (data ++ encodeCommand c), opened := true } := by
      simp [AofLog.append, hen, AofLog.write]
    have hcons : appendAll cfg { file := some data, opened := true } (c :: cs) =
        appendAll cfg { file := some (data ++ encodeCommand c), opened := true } cs := by
      rw [← happ]
      rfl
    rw [hcons, ih, List.flatMap_cons, List.append_assoc]

end ByoRedis.Analysis
