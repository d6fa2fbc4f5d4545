import ByoRedis.Analysis.AofFile
import ByoRedis.Analysis.Segmentation
import ByoRedis.Model.Connection
import ByoRedis.Model.Replica

/-!
# Three parsers and their limits

A command that a client sent is logged and propagated by `encode_command`, and read again by
two parsers that the configuration of the client's parser does not reach: `read_commands`
and `ReplicaClient` set the bulk length and leave the defaults for the rest, 1024 elements
and a buffer of 32,000,000 bytes. A command beyond these is lost on the way
(`reread_iff`), and so is a log that is larger than the buffer, although the limit on files
admits it (`read_back_iff`).
-/

set_option autoImplicit false

namespace ByoRedis.Analysis

open ByoRedis.Model ByoRedis.Lib.Framing

/-! ## Commands on their own -/

/-- A command that a parser with limits `lim` reads when it is all there is. -/
structure WithinParser (lim : Limits) (argv : Command) : Prop where
  count : argv.length ≤ lim.maxArrayLen
  bulk : ∀ a ∈ argv, a.length ≤ lim.maxBulkLen
  size : (encodeCommand argv).length ≤ lim.maxBufferBytes

/-- Limits under which every length in a buffer is a number that `int()` converts. -/
structure Usual (lim : Limits) : Prop where
  buffer : lim.maxBufferBytes < 10 ^ 10
  depth : 0 < lim.maxArrayDepth

/-- The limits of the parser that reads the log. -/
theorem usual_aofLimits (maxBulkLen : ℕ) : Usual (aofLimits maxBulkLen) :=
  ⟨(by decide : (32000000 : ℕ) < 10 ^ 10), Nat.zero_lt_succ _⟩

/-- An argument takes at least one byte. -/
theorem length_le_flatMap_encodeBulkString (argv : Command) :
    argv.length ≤ (argv.flatMap encodeBulkString).length := by
  induction argv with
  | nil => exact le_rfl
  | cons a argv ih =>
    have hpos : 0 < (encodeBulkString a).length := by simp [encodeBulkString, ascii]
    rw [List.flatMap_cons, List.length_append, List.length_cons]
    omega

/-- So a command has at most as many arguments as its encoding has bytes. -/
theorem count_le_encodeCommand (argv : Command) :
    argv.length ≤ (encodeCommand argv).length := by
  have h := length_le_flatMap_encodeBulkString argv
  rw [encodeCommand, List.length_append]
  omega

variable {lim : Limits} {argv : Command}

/-- The number of arguments has few enough digits for `int`. -/
theorem convertible_count (hlim : Usual lim)
    (hsize : (encodeCommand argv).length ≤ lim.maxBufferBytes) : Convertible argv.length :=
  convertible_of_lt_ten (((count_le_encodeCommand argv).trans hsize).trans_lt hlim.buffer)

/-- So has the length of each. -/
theorem convertible_bulk (hlim : Usual lim)
    (hsize : (encodeCommand argv).length ≤ lim.maxBufferBytes) :
    ∀ a ∈ argv, Convertible a.length := fun _ ha =>
  convertible_of_lt_ten (((length_le_encodeCommand ha).trans hsize).trans_lt hlim.buffer)

/-- Within the limits the encoding is read as a frame. -/
theorem WithinParser.fits (h : WithinParser lim argv) (hlim : Usual lim) : Fits lim argv :=
  ⟨h.count, h.bulk, convertible_count hlim h.size, convertible_bulk hlim h.size, hlim.depth⟩

/-- A command within the limits is the one message of its encoding.
SOURCE: protocol/parser.py:33-49 -/
theorem feed_encodeCommand (h : WithinParser lim argv) (hlim : Usual lim) :
    RespParser.feed { limits := lim } (encodeCommand argv) =
      .ok ([commandValue argv], { limits := lim }) := by
  have hdone := top_encodeCommand lim argv (h.fits hlim) []
  rw [List.append_nil] at hdone
  rw [feed_of_le (by simpa using h.size)]
  simp only [List.nil_append]
  rw [run_of_done (top_lawful lim) hdone, List.drop_length, run_of_more (top_nil lim)]
  rfl

/-- A run of bulk strings with one that is too long is refused.
SOURCE: protocol/parser.py:94-104, 129-137 -/
theorem parseItems_bulkTooLong (lim : Limits) (levels : ℕ) (argv : Command)
    (hconv : ∀ a ∈ argv, Convertible a.length) (h : ∃ a ∈ argv, lim.maxBulkLen < a.length) :
    ∃ e, parseItems (tryParse lim levels) argv.length (argv.flatMap encodeBulkString) =
      .fail e := by
  induction argv with
  | nil =>
    obtain ⟨a, ha, -⟩ := h
    cases ha
  | cons a argv ih =>
    rw [List.flatMap_cons, List.length_cons, parseItems]
    by_cases hlong : lim.maxBulkLen < a.length
    · refine ⟨.bulkTooLong a.length, ?_⟩
      have hshape : encodeBulkString a ++ argv.flatMap encodeBulkString =
          ascii "$" ++ natBytes a.length ++ crlf ++
            (a ++ (crlf ++ argv.flatMap encodeBulkString)) := by
        simp [encodeBulkString]
      rw [hshape, tryParse_bulkHeader lim levels _ (hconv a (by simp)), if_pos hlong]
    · obtain ⟨b, hb, hbig⟩ := h
      have hmem : b ∈ argv := by
        rcases List.mem_cons.mp hb with rfl | hmem
        · exact absurd hbig hlong
        · exact hmem
      obtain ⟨e, he⟩ := ih (fun c hc => hconv c (List.mem_cons_of_mem _ hc)) ⟨b, hmem, hbig⟩
      refine ⟨e, ?_⟩
      rw [tryParse_encodeBulkString lim levels a _ (Nat.not_lt.mp hlong) (hconv a (by simp))]
      simp only
      rw [List.drop_left, he]

/-- An encoded command that fits the buffer and is beyond another limit is refused.
SOURCE: protocol/parser.py:98-104, 122-128 -/
theorem top_of_not_within (hlim : Usual lim)
    (hsize : (encodeCommand argv).length ≤ lim.maxBufferBytes) (h : ¬ WithinParser lim argv) :
    ∃ e, RespParser.top lim (encodeCommand argv) = .fail e := by
  obtain ⟨levels, hlevels⟩ : ∃ l, lim.maxArrayDepth = l + 1 :=
    ⟨lim.maxArrayDepth - 1, by have := hlim.depth; omega⟩
  have htop : RespParser.top lim (encodeCommand argv) = tryParse lim (levels + 1)
      (arrayHeader argv.length ++ argv.flatMap encodeBulkString) := by
    rw [RespParser.top, hlevels, encodeCommand]
  rw [tryParse_arrayHeader lim levels _ (convertible_count hlim hsize)] at htop
  by_cases hcount : lim.maxArrayLen < argv.length
  · rw [if_pos hcount] at htop
    exact ⟨_, htop⟩
  · have hlong : ∃ a ∈ argv, lim.maxBulkLen < a.length := by
      by_contra hnone
      push Not at hnone
      exact h ⟨Nat.not_lt.mp hcount, hnone, hsize⟩
    obtain ⟨e, he⟩ := parseItems_bulkTooLong lim levels argv (convertible_bulk hlim hsize) hlong
    rw [if_neg hcount, he] at htop
    exact ⟨e, htop⟩

/-- A command beyond the limits is an error, whichever limit it is.
SOURCE: protocol/parser.py:33-49, 98-104, 122-128 -/
theorem feed_of_not_within (hlim : Usual lim) (h : ¬ WithinParser lim argv) :
    ∃ e, RespParser.feed { limits := lim } (encodeCommand argv) = .error e := by
  by_cases hsize : (encodeCommand argv).length ≤ lim.maxBufferBytes
  · obtain ⟨e, he⟩ := top_of_not_within hlim hsize h
    refine ⟨e, ?_⟩
    rw [feed_of_le (by simpa using hsize)]
    simp only [List.nil_append]
    rw [run_of_fail he]
  · refine ⟨.bufferExceeded lim.maxBufferBytes, ?_⟩
    unfold RespParser.feed
    rw [if_pos (by simpa using hsize)]

/-! ## The same command in three parsers -/

/-- A write that `handle_client` takes from the bytes of a client, whatever came before it
on the connection.
SOURCE: server.py:273-326, 393-407 -/
structure ClientWrite (cfg : Config) (argv : Command) : Prop where
  parsed : ∃ (buf data : Bytes) (messages : List RespValue) (p : RespParser) (msg : RespValue),
    RespParser.feed { limits := cfg.clientLimits, buf := buf } data = .ok (messages, p) ∧
      msg ∈ messages ∧ normalizeArgv msg = .ok argv
  write : isWrite argv = true

/-- The parser of `read_commands` accepts the encoding of a command, and the conversion that
follows it gives the command back.
SOURCE: persistence/aof.py:264-298 -/
def ReadFromLog (cfg : Config) (argv : Command) : Prop :=
  ∃ messages p, RespParser.feed { limits := aofLimits cfg.protoMaxBulkLen } (encodeCommand argv) =
    .ok (messages, p) ∧ p.buf = [] ∧ messages.filterMap RespValue.logged = [argv]

/-- The session of a replica of the same configuration, with a fresh parser.
SOURCE: server.py:153-163, replication/replica.py:83-87 -/
def replicaSession (cfg : Config) : Session where
  parser := { limits := { maxBulkLen := cfg.protoMaxBulkLen } }
  chunks := []

/-- A replica that is fed the encoding of a command applies the command and nothing else.
SOURCE: replication/replica.py:197-227 -/
def ReadByReplica (cfg : Config) (argv : Command) : Prop :=
  (replicaSession cfg).feedAndApply (encodeCommand argv) =
    .ok () { replicaSession cfg with applied := [argv] }

/-- A replica takes the arguments from the bulk strings. -/
theorem argvOf_bulks (argv : Command) : Session.argvOf (argv.map .bulk) = some argv := by
  induction argv with
  | nil => rfl
  | cons a argv ih =>
    unfold Session.argvOf at ih ⊢
    rw [List.map_cons, List.mapM_cons, ih]
    rfl

/-- A replica applies the command that it reads. -/
theorem applyMessages_commandValue (h : argv ≠ []) (s : Session) :
    Session.applyMessages [commandValue argv] s =
      .ok () { s with applied := s.applied ++ [argv] } := by
  have hne : ¬ (argv.map RespValue.bulk).isEmpty = true := by simpa using h
  rw [commandValue, Session.applyMessages, if_neg hne, argvOf_bulks]
  rfl

/-- **What the log and the replicas read of a client's write.** The command comes back from
both parsers exactly when it has at most 1024 arguments, none longer than the bulk limit,
and its encoding fits the default buffer.
SOURCE: server.py:273-278, persistence/aof.py:263-299, replication/replica.py:83-96 -/
theorem reread_iff {cfg : Config} {argv : Command} (h : ClientWrite cfg argv) :
    (ReadFromLog cfg argv ∧ ReadByReplica cfg argv) ↔
      argv.length ≤ 1024 ∧ (∀ a ∈ argv, a.length ≤ cfg.protoMaxBulkLen) ∧
        (encodeCommand argv).length ≤ 32000000 := by
  have hlim := usual_aofLimits cfg.protoMaxBulkLen
  have hne : argv ≠ [] := by
    rintro rfl
    exact absurd h.write (by decide)
  constructor
  · rintro ⟨⟨messages, p, hfeed, -, -⟩, -⟩
    have hwithin : WithinParser (aofLimits cfg.protoMaxBulkLen) argv := by
      by_contra hnot
      obtain ⟨e, he⟩ := feed_of_not_within hlim hnot
      rw [he] at hfeed
      cases hfeed
    exact ⟨hwithin.count, hwithin.bulk, hwithin.size⟩
  · rintro ⟨hcount, hbulk, hsize⟩
    have hfeed := feed_encodeCommand
      (⟨hcount, hbulk, hsize⟩ : WithinParser (aofLimits cfg.protoMaxBulkLen) argv) hlim
    refine ⟨⟨_, _, hfeed, rfl, ?_⟩, ?_⟩
    · rw [List.filterMap_cons, logged_commandValue hne]
      rfl
    · have hsession : (replicaSession cfg).parser.feed (encodeCommand argv) =
          .ok ([commandValue argv], (replicaSession cfg).parser) := hfeed
      unfold ReadByReplica Session.feedAndApply
      rw [hsession]
      exact applyMessages_commandValue hne _

/-- The server executes the command that a client sent. -/
theorem normalizeArgv_commandValue (argv : Command) :
    normalizeArgv (commandValue argv) = .ok argv := by
  induction argv with
  | nil => rfl
  | cons a argv ih =>
    simp only [normalizeArgv, commandValue] at ih ⊢
    rw [List.map_cons, List.mapM_cons, ih]
    rfl

/-- A client that sends a command in the form of `encode_command`. -/
theorem clientWrite_of_within {cfg : Config} (hlim : Usual cfg.clientLimits)
    (h : WithinParser cfg.clientLimits argv) (hw : isWrite argv = true) : ClientWrite cfg argv :=
  ⟨⟨[], encodeCommand argv, _, _, commandValue argv, feed_encodeCommand h hlim, by simp,
    normalizeArgv_commandValue argv⟩, hw⟩

/-- A push with an empty element. -/
def emptyPush : Command := [ascii "LPUSH", ascii "l", ascii "x", []]

/-- A hash whose value is a line end. -/
def lineEndHash : Command := [ascii "HSET", ascii "h", ascii "f", crlf]

/-- Each of the two is a client's write, and read by the parser of the log and by a replica. -/
theorem reread_set :
    (ClientWrite {} emptyPush ∧ ReadFromLog {} emptyPush ∧ ReadByReplica {} emptyPush) ∧
      ClientWrite {} lineEndHash ∧ ReadFromLog {} lineEndHash ∧
        ReadByReplica {} lineEndHash := by
  have hread : ∀ argv, argv.length ≤ 1024 → (∀ a ∈ argv, a.length ≤ 16777216) →
      (encodeCommand argv).length ≤ 32000000 → isWrite argv = true →
      ClientWrite {} argv ∧ ReadFromLog {} argv ∧ ReadByReplica {} argv := by
    intro argv hcount hbulk hsize hwrite
    have hwithin : WithinParser (Config.clientLimits {}) argv :=
      ⟨hcount.trans (by decide), hbulk, hsize⟩
    have hclient : ClientWrite {} argv :=
      clientWrite_of_within ⟨by decide, by decide⟩ hwithin hwrite
    exact ⟨hclient, (reread_iff hclient).mpr ⟨hcount, hbulk, hsize⟩⟩
  exact ⟨hread _ (by decide) (by decide) (by decide) (by decide),
    hread _ (by decide) (by decide) (by decide) (by decide)⟩

/-- A server that admits arrays of 2000 elements. -/
def wideConfig : Config := { protoMaxArrayLen := 2000 }

/-- A DEL of 1024 keys, which are 1025 arguments. -/
def wideDel : Command := ascii "DEL" :: List.replicate 1024 (ascii "k")

/-- A client's DEL of 1024 keys is accepted and executed, and read by neither parser. -/
theorem reread_iff_wideDel :
    wideConfig.accepted = true ∧ ClientWrite wideConfig wideDel ∧
      ¬ ReadFromLog wideConfig wideDel ∧ ¬ ReadByReplica wideConfig wideDel := by
  have hargs : ∀ a ∈ wideDel, a.length ≤ 3 := by
    intro a ha
    rcases List.mem_cons.mp ha with rfl | ha
    · decide
    · rw [List.eq_of_mem_replicate ha]
      decide
  have hcount : wideDel.length = 1025 := by
    rw [wideDel, List.length_cons, List.length_replicate]
  have hsize : (encodeCommand wideDel).length ≤ 32000000 := by
    rw [encodeCommand, List.length_append, hcount, wideDel, List.flatMap_cons, List.length_append,
      List.length_flatMap, List.map_replicate, List.sum_replicate]
    decide
  have hclient : ClientWrite wideConfig wideDel :=
    clientWrite_of_within ⟨by decide, by decide⟩
      ⟨hcount.le.trans (by decide), fun a ha => (hargs a ha).trans (by decide), hsize⟩ rfl
  obtain ⟨e, he⟩ : ∃ e, RespParser.feed { limits := aofLimits wideConfig.protoMaxBulkLen }
      (encodeCommand wideDel) = .error e := by
    refine feed_of_not_within (usual_aofLimits _) fun h => ?_
    have hle := h.count
    rw [hcount] at hle
    exact absurd hle (by decide)
  refine ⟨by decide, hclient, ?_, ?_⟩
  · rintro ⟨messages, p, hfeed, -, -⟩
    rw [he] at hfeed
    cases hfeed
  · intro hread
    have hsession : (replicaSession wideConfig).parser.feed (encodeCommand wideDel) =
        .error e := he
    unfold ReadByReplica Session.feedAndApply at hread
    rw [hsession] at hread
    cases hread

/-! ## Whole logs -/

/-- **Which files of records can be read:** those whose records are all within the limits,
and then the records come back.
SOURCE: persistence/aof.py:250-299 -/
theorem readCommands_iff {maxBulkLen maxFileBytes : ℕ} {cs ds : List Command}
    (hne : ∀ c ∈ cs, c ≠ []) (hload : Loadable maxFileBytes (cs.flatMap encodeCommand)) :
    readCommands maxBulkLen maxFileBytes (some (cs.flatMap encodeCommand)) = .ok ds ↔
      (∀ c ∈ cs, Readable maxBulkLen c) ∧ ds = cs := by
  by_cases hall : ∀ c ∈ cs, Readable maxBulkLen c
  · rw [readCommands_records hall hload]
    constructor
    · intro h
      cases h
      exact ⟨hall, rfl⟩
    · rintro ⟨-, rfl⟩
      rfl
  · constructor
    · intro h
      -- the first record beyond the limits stops the reader
      obtain ⟨done, c, rest, rfl, hdone, hc⟩ :
          ∃ done c rest, cs = done ++ c :: rest ∧ (∀ c ∈ done, Readable maxBulkLen c) ∧
            ¬ Readable maxBulkLen c := by
        push Not at hall
        obtain ⟨c₀, hc₀, hnot⟩ := hall
        have hsome : (cs.find? fun c => decide (¬ Readable maxBulkLen c)).isSome = true :=
          List.find?_isSome.mpr ⟨c₀, hc₀, decide_eq_true hnot⟩
        obtain ⟨c, hfind⟩ := Option.isSome_iff_exists.mp hsome
        obtain ⟨hc, done, rest, heq, hdone⟩ := List.find?_eq_some_iff_append.mp hfind
        refine ⟨done, c, rest, heq, fun b hb => ?_, of_decide_eq_true hc⟩
        simpa using hdone b hb
      have hsize : (encodeCommand c).length ≤ 32000000 := by
        have := hload.buffer
        simp only [List.flatMap_append, List.flatMap_cons, List.length_append] at this
        omega
      obtain ⟨e, he⟩ := top_of_not_within (usual_aofLimits maxBulkLen) hsize fun hw =>
        hc ⟨hne c (by simp), hw.count, hw.bulk⟩
      have hfail := (top_lawful (aofLimits maxBulkLen)).fail_append (rest.flatMap encodeCommand) he
      rw [List.flatMap_append, List.flatMap_cons] at h hload
      rw [readCommands_append hdone hload, run_of_fail hfail] at h
      cases h
    · rintro ⟨hread, -⟩
      exact absurd hread hall

/-- **What is read of a log that `append` has written.** The commands come back exactly when
their total size is within the default buffer of the parser, which the limit on files does
not say.
SOURCE: persistence/aof.py:167-186, 250-299, server.py:226-240 -/
theorem read_back_iff {cfg : Config} (hen : cfg.aofEnabled = true) {cs : List Command}
    (hcs : ∀ c ∈ cs, isWrite c = true ∧ c.length ≤ 1024 ∧
      ∀ a ∈ c, a.length ≤ cfg.protoMaxBulkLen)
    (hlimit : (cs.flatMap encodeCommand).length ≤ cfg.persistenceMaxLoadBytes) :
    readCommands cfg.protoMaxBulkLen cfg.persistenceMaxLoadBytes
        (appendAll cfg (AofLog.openLog cfg {}) cs).file = .ok cs ↔
      (cs.flatMap encodeCommand).length ≤ 32000000 := by
  have hfile : (appendAll cfg (AofLog.openLog cfg {}) cs).file =
      some (cs.flatMap encodeCommand) := by
    have hopen : AofLog.openLog cfg {} = { file := some [], opened := true } := by
      simp [AofLog.openLog, hen]
    rw [hopen, appendAll_eq hen, List.nil_append]
  have hread : ∀ c ∈ cs, Readable cfg.protoMaxBulkLen c := by
    intro c hc
    obtain ⟨hw, hcount, hbulk⟩ := hcs c hc
    refine ⟨?_, hcount, hbulk⟩
    rintro rfl
    exact absurd hw (by decide)
  rw [hfile]
  constructor
  · intro hok
    by_contra hlarge
    rw [readCommands_overflow _ (Nat.not_le.mp hlarge) hlimit] at hok
    cases hok
  · intro hbuffer
    exact readCommands_records hread ⟨hlimit, hbuffer⟩

/-- A key with a deadline, the push, the hash and the key removed again. -/
def severalWrites : List Command :=
  [[ascii "SET", ascii "k", ascii "v", ascii "EX", ascii "10"], emptyPush, lineEndHash,
    [ascii "DEL", ascii "k"]]

/-- What a server with the default configuration has appended is read back, in order. -/
theorem read_back_set :
    readCommands ({} : Config).protoMaxBulkLen ({} : Config).persistenceMaxLoadBytes
        (appendAll {} (AofLog.openLog {} {}) severalWrites).file = .ok severalWrites :=
  (@read_back_iff {} rfl severalWrites (by decide +kernel) (by decide +kernel)).mpr
    (by decide +kernel)

/-- A SET of 16,000,000 bytes. -/
def largeSet : Command := [ascii "SET", ascii "k", List.replicate 16000000 0]

/-- Its encoding is 33 bytes longer than its value. -/
theorem length_largeSet : (encodeCommand largeSet).length = 16000033 := by
  have hdigits : (natBytes 16000000).length = 8 := by decide
  simp only [encodeCommand, largeSet, List.flatMap_cons, List.flatMap_nil, List.length_append,
    encodeBulkString, List.length_replicate, hdigits]
  decide

/-- Two SETs of 16,000,000 bytes under the default configuration: the log is a small part of
what the limit on files admits, and cannot be read. -/
theorem read_back_iff_large :
    ({} : Config).accepted = true ∧
    (∀ c ∈ [largeSet, largeSet], isWrite c = true ∧ c.length ≤ 1024 ∧
      ∀ a ∈ c, a.length ≤ ({} : Config).protoMaxBulkLen) ∧
    ([largeSet, largeSet].flatMap encodeCommand).length ≤
      ({} : Config).persistenceMaxLoadBytes ∧
    readCommands ({} : Config).protoMaxBulkLen ({} : Config).persistenceMaxLoadBytes
        (appendAll {} (AofLog.openLog {} {}) [largeSet, largeSet]).file =
      .error (.protocol (.bufferExceeded 32000000)) := by
  have hsize : ([largeSet, largeSet].flatMap encodeCommand).length = 32000066 := by
    rw [List.flatMap_cons, List.flatMap_cons, List.flatMap_nil, List.length_append,
      List.length_append, length_largeSet]
    rfl
  have hopen : AofLog.openLog {} {} = { file := some [], opened := true } := rfl
  refine ⟨by decide, ?_, hsize.le.trans (by decide), ?_⟩
  · intro c hc
    have hc' : c = largeSet := by simpa using hc
    subst hc'
    refine ⟨rfl, by decide, fun a ha => ?_⟩
    simp only [largeSet, List.mem_cons, List.not_mem_nil, or_false] at ha
    rcases ha with rfl | rfl | rfl
    · decide
    · decide
    · rw [List.length_replicate]
      decide
  · rw [hopen, appendAll_eq rfl, List.nil_append]
    exact readCommands_overflow _ (by rw [hsize]; decide) (hsize.le.trans (by decide))

end ByoRedis.Analysis
