import ByoRedis.Analysis.ReplicaReaders
import ByoRedis.Analysis.RdbRoundTrip

/-!
# What a replica makes of the stream of a full resync

After PSYNC a replica reads one stream with two readers: the parser takes the line
`+FULLRESYNC`, a loop of its own takes the snapshot, which has no trailing CRLF, and the
parser takes the commands. Where one reader hands over to the other depends on where the
chunks end. The parser already looks at the bulk header behind the line, and gives up when
two bytes beyond the snapshot are there; the commands that lie whole behind the snapshot in
the same chunk are parsed and thrown away. `replica_stream_iff` says that apart from this,
and from an overflow of the parser's buffer, the cuts do not matter.
-/

set_option autoImplicit false

namespace ByoRedis.Analysis

open ByoRedis.Model ByoRedis.Lib ByoRedis.Lib.Framing ByoRedis.Lib.Chunks

/-! ## From PSYNC on -/

/-- The limits of the parser of a session.
SOURCE: replication/replica.py:86 -/
def replicaLimits (cfg : ReplicaConfig) : Limits := { maxBulkLen := cfg.maxBulkLen }

/-- What a session does from PSYNC on.
SOURCE: replication/replica.py:143-154, 197-210 -/
def follow (cfg : ReplicaConfig) (now : ℤ) (s : Session) : Progress Unit :=
  (s.psync cfg now).andThen fun _ s =>
    (s.feedAndApply []).andThen fun _ s => s.readLoop s.chunks

/-- The end of the line `+FULLRESYNC` in the stream. -/
def lineEnd (replid : Replid) (off : ℕ) : ℕ :=
  (simpleLine (MasterReplication.fullresyncLine replid.text off)).length

/-- The end of the snapshot in the stream. -/
def snapshotEnd (replid : Replid) (off : ℕ) (rdb : Bytes) : ℕ :=
  (MasterReplication.fullresyncPayload replid.text off rdb).length

/-- The chunks read behind the snapshot, which ends at position `start`, go into a buffer of
`max` bytes: each one fits behind the start of the command that it continues. -/
def Roomy (max start : ℕ) (cmds : List Command) (chunks : List Bytes) : Prop :=
  ∀ pre c post, chunks = pre ++ c :: post → start ≤ pre.flatten.length →
    (torn encodeCommand cmds (pre.flatten.length - start)).length + c.length ≤ max

/-- Only the chunks that are left when the snapshot is complete count. -/
theorem roomy_iff {max start : ℕ} {cmds : List Command} {chunks : List Bytes}
    (h : start ≤ chunks.flatten.length) :
    Roomy max start cmds chunks ↔
      RoomFrom max cmds ((fill start [] chunks).1.length - start) (fill start [] chunks).2 := by
  obtain ⟨pre₀, mid₀, hsplit, hfill⟩ := fill_split [] chunks [] (by simpa using h)
  rw [List.append_nil, List.nil_append, List.append_nil] at hfill
  have hlong := @le_length_fill _ start [] chunks (by simpa using h)
  rw [hfill] at hlong ⊢
  simp only at hlong ⊢
  constructor
  · intro hroomy pre c post hmid
    have hc := hroomy (pre₀ ++ pre) c post (by rw [hsplit, hmid, List.append_assoc])
      (by rw [List.flatten_append, List.length_append]; omega)
    rw [List.flatten_append, List.length_append, Nat.sub_add_comm hlong] at hc
    exact hc
  · intro hroom pre c post hchunks hstart
    obtain ⟨pre₁, mid₁, rfl, hfill₁⟩ := fill_split [] pre (c :: post) (by simpa using hstart)
    rw [← hchunks, hfill, List.nil_append] at hfill₁
    obtain ⟨hflat, hmid⟩ := Prod.mk.inj hfill₁
    have hc := hroom mid₁ c post hmid
    rw [List.flatten_append, List.length_append, ← hflat, Nat.sub_add_comm hlong]
    exact hc

section Follow

variable {cfg : ReplicaConfig} {now : ℤ} {replid : Replid} {off : ℕ} {rdb : Bytes}
  {entries : Entries} {cmds : List Command} {s : Session}

/-- What the stream of a full resync and the session that reads it are held to. -/
structure Resynced (cfg : ReplicaConfig) (now : ℤ) (replid : Replid) (off : ℕ) (rdb : Bytes)
    (entries : Entries) (cmds : List Command) (chunks : List Bytes) : Prop where
  stream : chunks.flatten = MasterReplication.fullresyncPayload replid.text off rdb ++
    cmds.flatMap encodeCommand
  read : ∀ c ∈ chunks, c ≠ [] ∧ c.length ≤ 65536
  offset : Convertible off
  snapshot : loadRdbBytes cfg.snapshotMaxBytes now rdb = .ok entries
  bulk : rdb.length ≤ cfg.maxBulkLen
  size : rdb.length ≤ cfg.snapshotMaxBytes
  length : Convertible rdb.length
  commands : ∀ c ∈ cmds, c ≠ [] ∧ WithinParser (replicaLimits cfg) c

/-- Every command of the stream is within the limits. -/
theorem Resynced.fits {chunks : List Bytes}
    (h : Resynced cfg now replid off rdb entries cmds chunks) :
    ∀ c ∈ cmds, Fits (replicaLimits cfg) c :=
  fun c hc => (h.commands c hc).2.fits (usual_aofLimits cfg.maxBulkLen)

/-- The line is short. -/
theorem lineEnd_le (replid : Replid) {off : ℕ} (hoff : Convertible off) :
    lineEnd replid off ≤ 4355 := by
  have hdigits : (natBytes off).length ≤ 4300 := hoff
  simp only [lineEnd, simpleLine, MasterReplication.fullresyncLine, List.length_append,
    replid.length]
  have h1 : (ascii "+").length = 1 := rfl
  have h2 : (ascii "FULLRESYNC ").length = 11 := rfl
  have h3 : (ascii " ").length = 1 := rfl
  have h4 : crlf.length = 2 := rfl
  omega

/-- What `read_one` reads with the line: the bytes `x` behind it. -/
theorem exists_behind_line {chunks : List Bytes} {ext : Bytes}
    (h : chunks.flatten =
      simpleLine (MasterReplication.fullresyncLine replid.text off) ++ ext) :
    ∃ x, (fill (lineEnd replid off) [] chunks).1 =
        simpleLine (MasterReplication.fullresyncLine replid.text off) ++ x ∧
      x ++ (fill (lineEnd replid off) [] chunks).2.flatten = ext := by
  have hflat := fill_flatten (lineEnd replid off) [] chunks
  rw [List.nil_append, h] at hflat
  refine append_split hflat (le_length_fill ?_)
  rw [h, List.length_append]
  exact (Nat.le_add_right _ _).trans (Nat.le_add_left _ _)

/-- The stream behind its line. -/
theorem Resynced.line {chunks : List Bytes}
    (h : Resynced cfg now replid off rdb entries cmds chunks) :
    chunks.flatten = simpleLine (MasterReplication.fullresyncLine replid.text off) ++
      (bulkHeader rdb.length ++ (rdb ++ cmds.flatMap encodeCommand)) := by
  have hstream := h.stream
  rw [fullresyncPayload_eq, List.append_assoc, List.append_assoc] at hstream
  exact hstream

/-- The snapshot ends behind its header and its bytes. -/
theorem snapshotEnd_eq (replid : Replid) (off : ℕ) (rdb : Bytes) :
    snapshotEnd replid off rdb =
      lineEnd replid off + ((bulkHeader rdb.length).length + rdb.length) := by
  rw [snapshotEnd, fullresyncPayload_eq, List.length_append, List.length_append]
  rfl

/-- A stream of commands begins with `*`. -/
theorem head?_commands {cmds : List Command} (h : 0 < (cmds.flatMap encodeCommand).length) :
    (cmds.flatMap encodeCommand).head? = some 42 := by
  cases cmds with
  | nil => simp at h
  | cons c cmds => rfl

/-- The reply to PSYNC, from the chunks that bring its line.
SOURCE: replication/replica.py:108-117, 143-147 -/
theorem readOne_line {ext : Bytes}
    (hstream : s.chunks.flatten =
      simpleLine (MasterReplication.fullresyncLine replid.text off) ++ ext)
    (hread : ∀ c ∈ s.chunks, c ≠ [] ∧ c.length ≤ 65536) (hoff : Convertible off)
    (hparser : s.parser = { limits := replicaLimits cfg }) {x : Bytes}
    (hx : (fill (lineEnd replid off) [] s.chunks).1 =
      simpleLine (MasterReplication.fullresyncLine replid.text off) ++ x) :
    (∀ rest, run (RespParser.top (replicaLimits cfg)) x = .ok ([], rest) →
      s.readOne = .ok (.str (decodeReplace (MasterReplication.fullresyncLine replid.text off)))
        { s with
          parser := { limits := replicaLimits cfg, buf := rest }
          chunks := (fill (lineEnd replid off) [] s.chunks).2 }) ∧
    (∀ e, run (RespParser.top (replicaLimits cfg)) x = .error e →
      ∃ s', s.readOne = .failed (.protocol e) s') := by
  have hcr : cr ∉ MasterReplication.fullresyncLine replid.text off :=
    notMem_fullresyncLine replid off (by decide)
  have hpos : 0 < (simpleLine (MasterReplication.fullresyncLine replid.text off)).length := by
    simp [simpleLine, ascii]
  have hroom : lineEnd replid off + 65536 ≤ (replicaLimits cfg).maxBufferBytes := by
    have hline := lineEnd_le replid hoff
    have hmax : (replicaLimits cfg).maxBufferBytes = 32000000 := rfl
    omega
  have hspec := readOneLoop_spec s { limits := replicaLimits cfg } s.chunks
    (framed_simpleLine (replicaLimits cfg) hcr) hread hroom hstream hpos hx
  rw [Session.readOne, hparser]
  exact hspec

/-- The chunk with the end of the line reaches too far into what follows the snapshot.
SOURCE: replication/replica.py:108-117, protocol/parser.py:98-109 -/
theorem follow_of_late_cut (h : Resynced cfg now replid off rdb entries cmds s.chunks)
    (hparser : s.parser = { limits := replicaLimits cfg })
    (hcut : ¬ CutIn s.chunks (lineEnd replid off) (snapshotEnd replid off rdb + 2)) :
    ∃ e s', follow cfg now s = .failed e s' := by
  have htotal : lineEnd replid off ≤ s.chunks.flatten.length := by
    rw [h.stream, List.length_append, ← snapshotEnd, snapshotEnd_eq]
    omega
  obtain ⟨x, hx, hrest⟩ := exists_behind_line h.line
  rw [cutIn_iff _ htotal, hx, List.length_append, ← lineEnd, snapshotEnd_eq] at hcut
  have hlen := congrArg List.length hrest
  simp only [List.length_append] at hlen
  have htake : x = (bulkHeader rdb.length ++ (rdb ++ cmds.flatMap encodeCommand)).take
      x.length := by
    rw [← hrest, List.take_left]
  have hfail : RespParser.top (replicaLimits cfg) x = .fail .missingTrailer := by
    rw [htake]
    refine top_snapshot_fail h.bulk h.length (head?_commands (by omega)) (by omega) ?_
    simp only [List.length_append]
    omega
  have hline := readOne_line (s := s.send [ascii "PSYNC", ascii "?", ascii "-1"]) h.line h.read
    h.offset hparser hx
  obtain ⟨s', hs'⟩ := hline.2 .missingTrailer (run_of_fail hfail)
  exact ⟨.protocol .missingTrailer, s', by rw [follow, Session.psync, hs']; rfl⟩

/-- The bytes behind the snapshot that came with its end are a front of the commands.
SOURCE: replication/replica.py:189-195 -/
theorem left_eq_take (h : Resynced cfg now replid off rdb entries cmds s.chunks) {left : Bytes}
    (hleft : (fill (snapshotEnd replid off rdb) [] s.chunks).1 =
      MasterReplication.fullresyncPayload replid.text off rdb ++ left) :
    left ++ (fill (snapshotEnd replid off rdb) [] s.chunks).2.flatten =
        cmds.flatMap encodeCommand ∧
      left.length ≤ 65536 := by
  have hflat := fill_flatten (snapshotEnd replid off rdb) [] s.chunks
  rw [hleft, List.nil_append, h.stream, List.append_assoc] at hflat
  have hlong := @length_fill_le _ (snapshotEnd replid off rdb) 65536 [] s.chunks
    (Nat.zero_le _) fun c hc => (h.read c hc).2
  rw [hleft, List.length_append, ← snapshotEnd] at hlong
  exact ⟨List.append_cancel_left hflat, by omega⟩

/-- What is read when the snapshot is complete, from the bytes `x` behind the line on. -/
theorem fill_behind_line {chunks : List Bytes} {x left : Bytes}
    (hx : (fill (lineEnd replid off) [] chunks).1 =
      simpleLine (MasterReplication.fullresyncLine replid.text off) ++ x)
    (hleft : (fill (snapshotEnd replid off rdb) [] chunks).1 =
      MasterReplication.fullresyncPayload replid.text off rdb ++ left) :
    fill ((bulkHeader rdb.length).length + rdb.length) x
        (fill (lineEnd replid off) [] chunks).2 =
      (bulkHeader rdb.length ++ (rdb ++ left),
        (fill (snapshotEnd replid off rdb) [] chunks).2) := by
  have hend := snapshotEnd_eq replid off rdb
  have hfills := fill_fill (by omega : lineEnd replid off ≤ snapshotEnd replid off rdb) [] chunks
  rw [hx, hend, lineEnd, fill_append, ← lineEnd, ← hend] at hfills
  have hfst := congrArg Prod.fst hfills
  have hsnd := congrArg Prod.snd hfills
  simp only at hfst hsnd
  rw [hleft, fullresyncPayload_eq, List.append_assoc, List.append_assoc] at hfst
  exact Prod.ext (List.append_cancel_left hfst) hsnd

/-- The session when the snapshot is loaded and `k` bytes of the commands came with it. -/
def afterSnapshot (cfg : ReplicaConfig) (entries : Entries) (cmds : List Command) (k : ℕ)
    (rest : List Bytes) (s : Session) : Session :=
  { s.send [ascii "PSYNC", ascii "?", ascii "-1"] with
    parser := { limits := replicaLimits cfg, buf := torn encodeCommand cmds k }
    chunks := rest
    loaded := some entries }

/-- The chunk with the end of the line ends in time: the snapshot is loaded. The commands that
came whole with its end are gone.
SOURCE: replication/replica.py:143-195 -/
theorem psync_of_cut (h : Resynced cfg now replid off rdb entries cmds s.chunks)
    (hparser : s.parser = { limits := replicaLimits cfg })
    (hcut : CutIn s.chunks (lineEnd replid off) (snapshotEnd replid off rdb + 2)) {left : Bytes}
    (hleft : (fill (snapshotEnd replid off rdb) [] s.chunks).1 =
      MasterReplication.fullresyncPayload replid.text off rdb ++ left) :
    s.psync cfg now = .ok () (afterSnapshot cfg entries cmds left.length
      (fill (snapshotEnd replid off rdb) [] s.chunks).2 s) := by
  have htotal : snapshotEnd replid off rdb ≤ s.chunks.flatten.length := by
    rw [h.stream, List.length_append, ← snapshotEnd]
    omega
  have hend := snapshotEnd_eq replid off rdb
  obtain ⟨x, hx, hrest⟩ := exists_behind_line h.line
  rw [cutIn_iff _ (by omega), hx, List.length_append, ← lineEnd, hend] at hcut
  have htake : x = (bulkHeader rdb.length ++ (rdb ++ cmds.flatMap encodeCommand)).take
      x.length := by
    rw [← hrest, List.take_left]
  have hmore : RespParser.top (replicaLimits cfg) x = .more := by
    rw [htake]
    exact top_snapshot_more h.bulk h.length (by omega)
  let asked := s.send [ascii "PSYNC", ascii "?", ascii "-1"]
  have hline := (readOne_line (s := asked) h.line h.read h.offset hparser hx).1 x (run_of_more hmore)
  have hfill := fill_behind_line hx hleft
  obtain ⟨hcommands, hshort⟩ := left_eq_take h hleft
  have hfront : (cmds.flatMap encodeCommand).take left.length = left := by
    rw [← hcommands, List.take_left]
  have hrun := run_take_flatMap (top_lawful (replicaLimits cfg))
    (frames_commands (replicaLimits cfg)) cmds h.fits (top_nil _) left.length
  rw [hfront] at hrun
  have hmax : (replicaLimits cfg).maxBufferBytes = 32000000 := rfl
  have hbulk := @readRdbBulk_eq cfg { asked with
      parser := { limits := replicaLimits cfg, buf := x }
      chunks := (fill (lineEnd replid off) [] asked.chunks).2 }
    rdb (cmds.flatMap encodeCommand) left _ _ h.length h.size
    (fun c hc => (h.read c (mem_of_mem_fill hc)).1) hrest (congrArg Prod.fst hfill)
    (by simp only; omega) hrun
  have hreply := isFullresync_line replid.text off
  rw [Session.psync, hline, Progress.andThen, if_pos hreply, hbulk]
  simp only [Progress.andThen, h.snapshot]
  rw [← congrArg Prod.snd hfill]
  rfl

/-- The loop goes on from where the chunk with the end of the snapshot stops: nothing comes out
of the parser before the next chunk.
SOURCE: replication/replica.py:197-199 -/
theorem follow_of_cut (h : Resynced cfg now replid off rdb entries cmds s.chunks)
    (hparser : s.parser = { limits := replicaLimits cfg })
    (hcut : CutIn s.chunks (lineEnd replid off) (snapshotEnd replid off rdb + 2)) {left : Bytes}
    (hleft : (fill (snapshotEnd replid off rdb) [] s.chunks).1 =
      MasterReplication.fullresyncPayload replid.text off rdb ++ left) :
    follow cfg now s = (afterSnapshot cfg entries cmds left.length
      (fill (snapshotEnd replid off rdb) [] s.chunks).2 s).readLoop
        (fill (snapshotEnd replid off rdb) [] s.chunks).2 := by
  have hquiet := step_torn (top_lawful (replicaLimits cfg)) (frames_commands (replicaLimits cfg))
    cmds h.fits (top_nil _) left.length
  have hmax : (replicaLimits cfg).maxBufferBytes = 32000000 := rfl
  have hshort := (left_eq_take h hleft).2
  have htorn := length_torn_le encodeCommand cmds left.length
  have hfeed := @feed_of_le
    { limits := replicaLimits cfg, buf := torn encodeCommand cmds left.length } []
    (by simp only [List.length_nil]; omega)
  rw [List.append_nil, run_of_more hquiet] at hfeed
  rw [follow, psync_of_cut h hparser hcut hleft]
  simp only [Progress.andThen, Session.feedAndApply, afterSnapshot, hfeed, Session.applyMessages]

/-- The chunks suit the hand-overs between the readers: one ends behind the line and in front
of the second byte beyond the snapshot, one ends behind the snapshot and in front of the end of
the first command, and the buffer has room for the chunks of the commands. -/
structure HandedOver (cfg : ReplicaConfig) (replid : Replid) (off : ℕ) (rdb : Bytes)
    (cmds : List Command) (chunks : List Bytes) : Prop where
  line : CutIn chunks (lineEnd replid off) (snapshotEnd replid off rdb + 2)
  snapshot : ∀ c ∈ cmds.head?, CutIn chunks (snapshotEnd replid off rdb)
    (snapshotEnd replid off rdb + (encodeCommand c).length)
  room : Roomy (replicaLimits cfg).maxBufferBytes (snapshotEnd replid off rdb) cmds chunks

/-- From PSYNC on: the snapshot is loaded and every command applied exactly if the chunks suit
the hand-overs.
SOURCE: replication/replica.py:143-227 -/
theorem follow_iff (h : Resynced cfg now replid off rdb entries cmds s.chunks)
    (hparser : s.parser = { limits := replicaLimits cfg }) (happlied : s.applied = []) :
    (∃ s₁ s', s.psync cfg now = .ok () s₁ ∧ s₁.loaded = some entries ∧ s₁.applied = [] ∧
      follow cfg now s = .waiting s' ∧ s'.loaded = some entries ∧ s'.applied = cmds) ↔
    HandedOver cfg replid off rdb cmds s.chunks := by
  by_cases hcut : CutIn s.chunks (lineEnd replid off) (snapshotEnd replid off rdb + 2)
  · have htotal : snapshotEnd replid off rdb ≤ s.chunks.flatten.length := by
      rw [h.stream, List.length_append, ← snapshotEnd]
      omega
    obtain ⟨left, hleft, -⟩ : ∃ left, (fill (snapshotEnd replid off rdb) [] s.chunks).1 =
        MasterReplication.fullresyncPayload replid.text off rdb ++ left ∧ _ :=
      append_split ((fill_flatten _ [] s.chunks).trans h.stream)
        (le_length_fill (by rw [List.length_nil, Nat.zero_add]; exact htotal))
    obtain ⟨hcommands, -⟩ := left_eq_take h hleft
    have hlen := congrArg List.length hcommands
    rw [List.length_append] at hlen
    have hloop := readLoop_commands (fun c hc => (h.commands c hc).1)
      (afterSnapshot cfg entries cmds left.length
        (fill (snapshotEnd replid off rdb) [] s.chunks).2 s)
      (fill (snapshotEnd replid off rdb) [] s.chunks).2
      (fun c hc => (h.read c (mem_of_mem_fill hc)).1) h.fits rfl (by omega)
      (by rw [← hcommands, List.drop_left])
    have hnone : (afterSnapshot cfg entries cmds left.length
        (fill (snapshotEnd replid off rdb) [] s.chunks).2 s).applied = [] := happlied
    have hroomy := @roomy_iff (replicaLimits cfg).maxBufferBytes _ cmds s.chunks htotal
    have hsnap : ∀ c, CutIn s.chunks (snapshotEnd replid off rdb)
        (snapshotEnd replid off rdb + (encodeCommand c).length) ↔
          left.length < (encodeCommand c).length := by
      intro c
      rw [cutIn_iff _ htotal, hleft, List.length_append, ← snapshotEnd]
      omega
    rw [hleft, List.length_append, ← snapshotEnd, Nat.add_sub_cancel_left] at hroomy
    rw [hnone, ← follow_of_cut h hparser hcut hleft, List.nil_append] at hloop
    constructor
    · rintro ⟨-, s', -, -, -, hwait, -, hall⟩
      by_cases hroom : Roomy (replicaLimits cfg).maxBufferBytes (snapshotEnd replid off rdb) cmds
          s.chunks
      · obtain ⟨s₂, hs₂, -, happ⟩ := hloop.1 (hroomy.mp hroom)
        rw [hwait] at hs₂
        cases hs₂
        rw [hall] at happ
        have hfirst := (drop_whole_iff encodeCommand cmds left.length).mp happ.symm
        exact ⟨hcut, fun c hc => (hsnap c).mpr (hfirst c hc), hroom⟩
      · obtain ⟨e, s₂, hs₂⟩ := hloop.2 fun hfrom => hroom (hroomy.mpr hfrom)
        rw [hwait] at hs₂
        cases hs₂
    · rintro ⟨-, hfirst, hroom⟩
      obtain ⟨s₂, hs₂, hload, happ⟩ := hloop.1 (hroomy.mp hroom)
      have hkept := (drop_whole_iff encodeCommand cmds left.length).mpr
        fun c hc => (hsnap c).mp (hfirst c hc)
      rw [hkept] at happ
      exact ⟨_, s₂, psync_of_cut h hparser hcut hleft, rfl, hnone, hs₂, hload, happ⟩
  · obtain ⟨e, s', hfail⟩ := follow_of_late_cut h hparser hcut
    constructor
    · rintro ⟨-, s₂, -, -, -, hwait, -⟩
      rw [hfail] at hwait
      cases hwait
    · exact fun hover => absurd hover.line hcut

end Follow

/-! ## The whole session -/

/-- The replies to the commands in front of PSYNC.
SOURCE: replication/replica.py:119-141 -/
def greetings (cfg : ReplicaConfig) : List String :=
  match cfg.masterauth with
  | none => ["PONG", "OK", "OK"]
  | some _ => ["OK", "PONG", "OK", "OK"]

/-- The chunks of a sequence of replies. A reply comes only after its command, which is sent
when the reply before it was read, so a chunk has bytes of one reply only. -/
inductive Replies : List String → List Bytes → Prop where
  | nil : Replies [] []
  | cons {text : String} {texts : List String} {reply rest : List Bytes}
      (line : reply.flatten = simpleLine (ascii text)) (read : ∀ c ∈ reply, c ≠ [])
      (more : Replies texts rest) : Replies (text :: texts) (reply ++ rest)

/-- What is left when the replies in front of PSYNC are read. -/
def answered (cfg : ReplicaConfig) (sent : List Command) (chunks : List Bytes) : Session :=
  { parser := { limits := replicaLimits cfg }, chunks := chunks, sent := sent }

/-- A reply that arrives as it was sent. -/
structure PlainReply (text : String) : Prop where
  decoded : decodeReplace (ascii text) = text.toList
  line : cr ∉ ascii text
  short : (simpleLine (ascii text)).length ≤ 65536

/-- `OK` is plain text. -/
theorem plainReply_ok : PlainReply "OK" := ⟨by decide, by decide, by decide⟩

/-- `PONG` is plain text. -/
theorem plainReply_pong : PlainReply "PONG" := ⟨by decide, by decide, by decide⟩

/-- Every reply of the greeting is plain text. -/
theorem plainReply_greetings {cfg : ReplicaConfig} {text : String} (h : text ∈ greetings cfg) :
    PlainReply text := by
  have hmem : text = "OK" ∨ text = "PONG" := by
    unfold greetings at h
    cases hauth : cfg.masterauth with
    | none =>
      rw [hauth] at h
      simp only [List.mem_cons, List.not_mem_nil, or_false] at h
      tauto
    | some pw =>
      rw [hauth] at h
      simp only [List.mem_cons, List.not_mem_nil, or_false] at h
      tauto
  rcases hmem with rfl | rfl
  · exact plainReply_ok
  · exact plainReply_pong

/-- The replies of the greeting are reads of the replica. -/
theorem Replies.read {texts : List String} {greeting : List Bytes} (h : Replies texts greeting)
    (hplain : ∀ t ∈ texts, PlainReply t) : ∀ c ∈ greeting, c ≠ [] ∧ c.length ≤ 65536 := by
  induction h with
  | nil => simp
  | @cons text texts reply rest hline hread hmore ih =>
    intro c hc
    rcases List.mem_append.mp hc with hr | hr
    · have hsub := (List.sublist_flatten_of_mem hr).length_le
      have hshort := (hplain text List.mem_cons_self).short
      rw [hline] at hsub
      exact ⟨hread c hr, by omega⟩
    · exact ih (fun t ht => hplain t (List.mem_cons_of_mem text ht)) c hr

section Greeting

variable {cfg : ReplicaConfig} {now : ℤ} {chunks : List Bytes}

/-- One exchange, whatever the chunks of the reply.
SOURCE: replication/replica.py:119-141 -/
theorem exchange_answered {text : String} (hplain : PlainReply text) {reply : List Bytes}
    (hline : reply.flatten = simpleLine (ascii text))
    (hread : ∀ c ∈ reply ++ chunks, c ≠ [] ∧ c.length ≤ 65536) (cmd : Command)
    (sent : List Command) :
    Session.exchange cmd text (answered cfg sent (reply ++ chunks)) =
      .ok () (answered cfg (sent ++ [cmd]) chunks) := by
  have hfill := fill_exact [] (fun c hc => (hread c (List.mem_append_left _ hc)).1) chunks
  rw [List.length_nil, Nat.zero_add, hline, List.nil_append] at hfill
  have hroom : (simpleLine (ascii text)).length + 65536 ≤ (replicaLimits cfg).maxBufferBytes := by
    have hmax : (replicaLimits cfg).maxBufferBytes = 32000000 := rfl
    have hshort := hplain.short
    omega
  have hpos : 0 < (simpleLine (ascii text)).length := by simp [simpleLine, ascii]
  have hspec := readOneLoop_spec (answered cfg (sent ++ [cmd]) (reply ++ chunks))
    { limits := replicaLimits cfg } (reply ++ chunks)
    (framed_simpleLine (replicaLimits cfg) hplain.line) hread hroom
    (by rw [List.nil_append, List.flatten_append, hline]) hpos
    (x := []) (by rw [hfill, List.append_nil])
  have hone := hspec.1 [] (run_of_more (top_nil _))
  rw [hfill] at hone
  have hanswer : ((answered cfg sent (reply ++ chunks)).send cmd).readOne =
      .ok (.str (decodeReplace (ascii text))) (answered cfg (sent ++ [cmd]) chunks) := hone
  have hreply : Session.isReply text (.str (decodeReplace (ascii text))) = true := by
    rw [hplain.decoded]
    exact decide_eq_true rfl
  rw [Session.exchange, hanswer]
  exact if_pos hreply

/-- The three exchanges in front of PSYNC.
SOURCE: replication/replica.py:128-141 -/
theorem greet_answered {greeting : List Bytes} (hgreeting : Replies ["PONG", "OK", "OK"] greeting)
    (hread : ∀ c ∈ greeting ++ chunks, c ≠ [] ∧ c.length ≤ 65536) (sent : List Command) :
    ∃ sent', ((Session.exchange [ascii "PING"] "PONG"
        (answered cfg sent (greeting ++ chunks))).andThen fun _ s =>
      (Session.exchange [ascii "REPLCONF", ascii "listening-port", natBytes cfg.listeningPort]
        "OK" s).andThen fun _ s =>
      (Session.exchange [ascii "REPLCONF", ascii "capa", ascii "eof"] "OK" s).andThen fun _ s =>
      Session.psync cfg now s) = Session.psync cfg now (answered cfg sent' chunks) := by
  cases hgreeting with
  | cons hpong _ hmore =>
  cases hmore with
  | cons hport _ hmore =>
  cases hmore with
  | cons hcapa _ hmore =>
  cases hmore
  simp only [List.append_assoc, List.nil_append] at hread ⊢
  have hread₂ := fun c hc => hread c (List.mem_append_right _ hc)
  have hread₃ := fun c hc => hread₂ c (List.mem_append_right _ hc)
  rw [exchange_answered plainReply_pong hpong hread, Progress.andThen,
    exchange_answered plainReply_ok hport hread₂, Progress.andThen,
    exchange_answered plainReply_ok hcapa hread₃]
  exact ⟨_, rfl⟩

/-- The greeting leaves the session in front of PSYNC.
SOURCE: replication/replica.py:98-141 -/
theorem handshake_answered {greeting : List Bytes} (hgreeting : Replies (greetings cfg) greeting)
    (hchunks : ∀ c ∈ chunks, c ≠ [] ∧ c.length ≤ 65536) :
    ∃ sent, Session.handshake cfg now (answered cfg [] (greeting ++ chunks)) =
      Session.psync cfg now (answered cfg sent chunks) := by
  have hread : ∀ c ∈ greeting ++ chunks, c ≠ [] ∧ c.length ≤ 65536 := by
    intro c hc
    rcases List.mem_append.mp hc with hg | hg
    · exact hgreeting.read (fun _ => plainReply_greetings) c hg
    · exact hchunks c hg
  unfold greetings at hgreeting
  unfold Session.handshake
  cases hauth : cfg.masterauth with
  | none =>
    rw [hauth] at hgreeting
    exact greet_answered hgreeting hread []
  | some pw =>
    rw [hauth] at hgreeting
    cases hgreeting with
    | cons hok _ hmore =>
    rw [List.append_assoc] at hread ⊢
    simp only
    rw [exchange_answered plainReply_ok hok hread]
    exact greet_answered hmore (fun c hc => hread c (List.mem_append_right _ hc)) _

end Greeting

/-- The snapshot is loaded by the handshake, and then every command is applied, once and in
order. Nothing was raised when the session waits for more. -/
def Delivered (cfg : ReplicaConfig) (now : ℤ) (chunks : List Bytes) (entries : Entries)
    (cmds : List Command) : Prop :=
  ∃ s₁ s', Session.handshake cfg now (answered cfg [] chunks) = .ok () s₁ ∧
    s₁.loaded = some entries ∧ s₁.applied = [] ∧
    Session.run cfg now chunks = .waiting s' ∧ s'.loaded = some entries ∧ s'.applied = cmds

/-- **A replica and the stream of a full resync.** However the greeting and the stream are cut
into chunks, the snapshot is loaded and every command applied exactly if the chunks suit the
hand-overs between the readers of the stream.
SOURCE: replication/replica.py:83-227 -/
theorem replica_stream_iff {cfg : ReplicaConfig} {now : ℤ} {replid : Replid} {off : ℕ}
    {rdb : Bytes} {entries : Entries} {cmds : List Command} {greeting chunks : List Bytes}
    (hgreeting : Replies (greetings cfg) greeting)
    (h : Resynced cfg now replid off rdb entries cmds chunks) :
    Delivered cfg now (greeting ++ chunks) entries cmds ↔
      HandedOver cfg replid off rdb cmds chunks := by
  obtain ⟨sent, hshake⟩ := @handshake_answered cfg now chunks greeting hgreeting h.read
  have hrun : Session.run cfg now (greeting ++ chunks) =
      follow cfg now (answered cfg sent chunks) := by
    rw [follow, ← hshake]
    rfl
  have hfollow := @follow_iff cfg now replid off rdb entries cmds (answered cfg sent chunks) h rfl
    rfl
  rw [Delivered, hshake, hrun]
  exact hfollow

/-! ## A snapshot and one command -/

/-- A short stream always has room. -/
theorem roomy_of_le {max start : ℕ} {cmds : List Command} {chunks : List Bytes}
    (h : chunks.flatten.length ≤ max) : Roomy max start cmds chunks := by
  intro pre c post hchunks hstart
  have htorn := length_torn_le encodeCommand cmds (pre.flatten.length - start)
  rw [hchunks, List.flatten_append, List.flatten_cons, List.length_append,
    List.length_append] at h
  omega

/-- A keyspace with one key. -/
def singleEntry : Entries :=
  Dict.empty.insert (ascii "k") { type := .string, value := .bytes (ascii "v") }

/-- Its snapshot. -/
def singleRdb : Bytes := (dumpRdbEntries singleEntry).getD []

/-- The command `SET a 1`. -/
def setCommand : Command := [ascii "SET", ascii "a", ascii "1"]

/-- The replies of a master without a password, one chunk each. -/
def greetingChunks : List Bytes :=
  [simpleLine (ascii "PONG"), simpleLine (ascii "OK"), simpleLine (ascii "OK")]

/-- The replies that a master sends to the greeting. -/
theorem replies_greetingChunks : Replies (greetings {}) greetingChunks :=
  @Replies.cons _ _ [simpleLine (ascii "PONG")] _ rfl (by decide)
    (@Replies.cons _ _ [simpleLine (ascii "OK")] _ rfl (by decide)
      (@Replies.cons _ _ [simpleLine (ascii "OK")] _ rfl (by decide) .nil))

/-- The line `+FULLRESYNC` as a chunk. -/
def lineChunk : Bytes := simpleLine (MasterReplication.fullresyncLine (default : Replid).text 0)

/-- The snapshot with its header as a chunk. -/
def snapshotChunk : Bytes := bulkHeader singleRdb.length ++ singleRdb

/-- The snapshot is loaded as the keyspace. -/
theorem load_singleRdb : loadRdbBytes 1073741824 0 singleRdb = .ok singleEntry := by
  have hdump : dumpRdbEntries singleEntry = some singleRdb := by decide +kernel
  have hdeadline : ∀ e ∈ singleEntry.entries, NonNegDeadline e.2 := by
    have hnone : ∀ e ∈ singleEntry.entries, e.2.expireAtMs = none := by decide
    intro e he d hd
    rw [hnone e he] at hd
    cases hd
  exact loadRdbBytes_dumpRdbEntries hdump (by decide +kernel) hdeadline 0

/-- A resync with one key and one command. -/
theorem resynced_single {chunks : List Bytes}
    (hstream : chunks.flatten = lineChunk ++ (snapshotChunk ++ encodeCommand setCommand))
    (hread : ∀ c ∈ chunks, c ≠ [] ∧ c.length ≤ 65536) :
    Resynced {} 0 default 0 singleRdb singleEntry [setCommand] chunks where
  stream := by
    rw [hstream, fullresyncPayload_eq, List.append_assoc]
    rfl
  read := hread
  offset := convertible_of_lt_ten (by decide)
  snapshot := load_singleRdb
  bulk := by decide +kernel
  size := by decide +kernel
  length := convertible_of_lt_ten (by decide +kernel)
  commands := by
    intro c hc
    rw [List.mem_singleton] at hc
    subst hc
    exact ⟨by decide, by decide, by decide, by decide⟩

/-- Line, snapshot and command in chunks of their own. -/
theorem replica_stream_iff_apart :
    Resynced {} 0 default 0 singleRdb singleEntry [setCommand]
      [lineChunk, snapshotChunk, encodeCommand setCommand] ∧
    Delivered {} 0 (greetingChunks ++ [lineChunk, snapshotChunk, encodeCommand setCommand])
      singleEntry [setCommand] := by
  have h := @resynced_single [lineChunk, snapshotChunk, encodeCommand setCommand] rfl
    (by decide +kernel)
  refine ⟨h, (replica_stream_iff replies_greetingChunks h).mpr ⟨?_, ?_, ?_⟩⟩
  · exact ⟨[lineChunk], _, rfl, by decide +kernel, by decide +kernel⟩
  · intro c hc
    cases hc
    exact ⟨[lineChunk, snapshotChunk], _, rfl, by decide +kernel, by decide +kernel⟩
  · exact roomy_of_le (by decide +kernel)

/-- The command comes in the chunk of the snapshot: it is never applied. -/
theorem replica_stream_iff_together :
    Resynced {} 0 default 0 singleRdb singleEntry [setCommand]
      [lineChunk, snapshotChunk ++ encodeCommand setCommand] ∧
    Replies (greetings {}) greetingChunks ∧
    ¬ Delivered {} 0 (greetingChunks ++ [lineChunk, snapshotChunk ++ encodeCommand setCommand])
      singleEntry [setCommand] := by
  have h := @resynced_single [lineChunk, snapshotChunk ++ encodeCommand setCommand]
    (by simp) (by decide +kernel)
  refine ⟨h, replies_greetingChunks, ?_⟩
  rintro ⟨-, s', -, -, -, hrun, -, happlied⟩
  have hnone : (match Session.run {} 0 (greetingChunks ++
        [lineChunk, snapshotChunk ++ encodeCommand setCommand]) with
      | .waiting s => s.applied
      | _ => []) = [] := by decide +kernel
  rw [hrun] at hnone
  simp only at hnone
  rw [happlied] at hnone
  cases hnone

end ByoRedis.Analysis
