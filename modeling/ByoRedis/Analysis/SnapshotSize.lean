import ByoRedis.Analysis.ReplicaStream

/-!
# How large a snapshot a replica takes

`_read_rdb_bulk` takes a snapshot of up to `snapshot_max_bytes`, but the header of the
snapshot may have been seen before by the parser of `read_one`, whose limit for a bulk string
is `max_bulk_len`. It sees it exactly when the chunk with the end of the line `+FULLRESYNC`
reaches as far as the end of the header. `snapshot_size_iff` says that the handshake loads
every snapshot up to `snapshot_max_bytes` apart from those between the two limits that arrive
so.
-/

set_option autoImplicit false

namespace ByoRedis.Analysis

open ByoRedis.Model ByoRedis.Lib ByoRedis.Lib.Framing ByoRedis.Lib.Chunks

/-- A full resync without commands behind it: the stream, cut into what `reader.read` returns,
a valid snapshot within `snapshot_max_bytes`, and numbers that the master could print. -/
structure Snapshotted (cfg : ReplicaConfig) (now : ℤ) (replid : Replid) (off : ℕ) (rdb : Bytes)
    (entries : Entries) (chunks : List Bytes) : Prop where
  stream : chunks.flatten = MasterReplication.fullresyncPayload replid.text off rdb
  read : ∀ c ∈ chunks, c ≠ [] ∧ c.length ≤ 65536
  offset : Convertible off
  snapshot : loadRdbBytes cfg.snapshotMaxBytes now rdb = .ok entries
  size : rdb.length ≤ cfg.snapshotMaxBytes
  length : Convertible rdb.length

variable {cfg : ReplicaConfig} {now : ℤ} {replid : Replid} {off : ℕ} {rdb : Bytes}
  {entries : Entries} {s : Session}

/-- The bytes of the resync are the line, the header and the snapshot. -/
theorem Snapshotted.line {chunks : List Bytes}
    (h : Snapshotted cfg now replid off rdb entries chunks) :
    chunks.flatten = simpleLine (MasterReplication.fullresyncLine replid.text off) ++
      (bulkHeader rdb.length ++ rdb) := by
  rw [h.stream, fullresyncPayload_eq]

/-- A buffer that is filled to the end of the stream holds all of it. -/
theorem fill_to_end {k : ℕ} {buf all : Bytes} {chunks : List Bytes}
    (h : buf ++ chunks.flatten = all) (hk : k = all.length) : (fill k buf chunks).1 = all := by
  have hflat := fill_flatten k buf chunks
  rw [h] at hflat
  have hlong := @le_length_fill _ k buf chunks (by
    have := congrArg List.length h
    rw [List.length_append] at this
    omega)
  have hlen := congrArg List.length hflat
  rw [List.length_append] at hlen
  have hrest : (fill k buf chunks).2.flatten = [] := List.length_eq_zero_iff.mp (by omega)
  rw [hrest, List.append_nil] at hflat
  exact hflat

/-- The parser has not made anything of the bytes `x` behind the line: the snapshot is loaded.
SOURCE: replication/replica.py:143-195 -/
theorem psync_of_more (h : Snapshotted cfg now replid off rdb entries s.chunks)
    (hparser : s.parser = { limits := replicaLimits cfg }) {x : Bytes}
    (hx : (fill (lineEnd replid off) [] s.chunks).1 =
      simpleLine (MasterReplication.fullresyncLine replid.text off) ++ x)
    (hrest : x ++ (fill (lineEnd replid off) [] s.chunks).2.flatten =
      bulkHeader rdb.length ++ rdb)
    (hmore : RespParser.top (replicaLimits cfg) x = .more) :
    ∃ s', s.psync cfg now = .ok () s' ∧ s'.loaded = some entries := by
  let asked := s.send [ascii "PSYNC", ascii "?", ascii "-1"]
  have hline := (readOne_line (s := asked) h.line h.read h.offset hparser hx).1 x
    (run_of_more hmore)
  have hfill := fill_to_end hrest
    (k := (bulkHeader rdb.length).length + rdb.length) (by rw [List.length_append])
  have hbulk := @readRdbBulk_eq cfg { asked with
      parser := { limits := replicaLimits cfg, buf := x }
      chunks := (fill (lineEnd replid off) [] asked.chunks).2 }
    rdb [] [] [] [] h.length h.size (fun c hc => (h.read c (mem_of_mem_fill hc)).1)
    (by rw [List.append_nil]; exact hrest) (by rw [List.append_nil]; exact hfill)
    (Nat.zero_le _) (run_of_more (top_nil _))
  have hreply := isFullresync_line replid.text off
  rw [Session.psync, hline, Progress.andThen, if_pos hreply, hbulk]
  simp only [Progress.andThen, h.snapshot]
  exact ⟨_, rfl, rfl⟩

/-- The parser has seen a header beyond its limit.
SOURCE: replication/replica.py:108-117, protocol/parser.py:103-104 -/
theorem psync_of_seen_header (h : Snapshotted cfg now replid off rdb entries s.chunks)
    (hparser : s.parser = { limits := replicaLimits cfg })
    (hlarge : cfg.maxBulkLen < rdb.length) {x : Bytes}
    (hx : (fill (lineEnd replid off) [] s.chunks).1 =
      simpleLine (MasterReplication.fullresyncLine replid.text off) ++ x)
    (hrest : x ++ (fill (lineEnd replid off) [] s.chunks).2.flatten =
      bulkHeader rdb.length ++ rdb)
    (hlong : (bulkHeader rdb.length).length ≤ x.length) :
    ∃ s', s.psync cfg now = .failed (.protocol (.bulkTooLong rdb.length)) s' := by
  obtain ⟨y, rfl, -⟩ := append_split hrest hlong
  have hfail : RespParser.top (replicaLimits cfg) (bulkHeader rdb.length ++ y) =
      .fail (.bulkTooLong rdb.length) := top_header_fail hlarge h.length y
  have hline := readOne_line (s := s.send [ascii "PSYNC", ascii "?", ascii "-1"]) h.line h.read
    h.offset hparser hx
  obtain ⟨s', hs'⟩ := hline.2 _ (run_of_fail hfail)
  exact ⟨s', by rw [Session.psync, hs']; rfl⟩

/-- The snapshot is within the limit of the parser, or some chunk ends between the end of the
line and that of the header of the snapshot. -/
def HeaderUnseen (cfg : ReplicaConfig) (replid : Replid) (off : ℕ) (rdb : Bytes)
    (chunks : List Bytes) : Prop :=
  rdb.length ≤ cfg.maxBulkLen ∨
    CutIn chunks (lineEnd replid off) (lineEnd replid off + (bulkHeader rdb.length).length)

/-- From PSYNC on.
SOURCE: replication/replica.py:143-195 -/
theorem psync_cases (h : Snapshotted cfg now replid off rdb entries s.chunks)
    (hparser : s.parser = { limits := replicaLimits cfg }) :
    (HeaderUnseen cfg replid off rdb s.chunks →
      ∃ s', s.psync cfg now = .ok () s' ∧ s'.loaded = some entries) ∧
    (¬ HeaderUnseen cfg replid off rdb s.chunks →
      ∃ s', s.psync cfg now = .failed (.protocol (.bulkTooLong rdb.length)) s') := by
  obtain ⟨x, hx, hrest⟩ := exists_behind_line h.line
  have htotal : lineEnd replid off ≤ s.chunks.flatten.length := by
    rw [h.line, List.length_append]
    exact Nat.le_add_right _ _
  have hcut : CutIn s.chunks (lineEnd replid off)
      (lineEnd replid off + (bulkHeader rdb.length).length) ↔
        x.length < (bulkHeader rdb.length).length := by
    rw [cutIn_iff _ htotal, hx, List.length_append, ← lineEnd]
    omega
  have htake : x = (bulkHeader rdb.length ++ rdb).take x.length := by
    rw [← hrest, List.take_left]
  rw [HeaderUnseen, hcut]
  constructor
  · rintro (hsmall | hshort)
    · apply psync_of_more h hparser hx hrest
      have hlen := congrArg List.length hrest
      simp only [List.length_append] at hlen
      have hmore : RespParser.top (replicaLimits cfg)
          ((bulkHeader rdb.length ++ (rdb ++ [])).take x.length) = .more :=
        top_snapshot_more hsmall h.length (by omega)
      rw [List.append_nil, ← htake] at hmore
      exact hmore
    · apply psync_of_more h hparser hx hrest
      rw [htake]
      exact top_header_more _ _ _ hshort
  · intro hnot
    rw [not_or] at hnot
    exact psync_of_seen_header h hparser (by omega) hx hrest (by omega)

/-- **A replica and the size of a snapshot.** However the greeting and the stream are cut into
chunks, the handshake completes and loads the snapshot exactly if the parser does not see the
header of a snapshot larger than `max_bulk_len`.
SOURCE: replication/replica.py:83-195, protocol/parser.py:90-111 -/
theorem snapshot_size_iff {greeting chunks : List Bytes}
    (hgreeting : Replies (greetings cfg) greeting)
    (h : Snapshotted cfg now replid off rdb entries chunks) :
    (∃ s', Session.handshake cfg now (answered cfg [] (greeting ++ chunks)) = .ok () s' ∧
      s'.loaded = some entries) ↔ HeaderUnseen cfg replid off rdb chunks := by
  obtain ⟨sent, hshake⟩ := @handshake_answered cfg now chunks greeting hgreeting h.read
  obtain ⟨hok, hfail⟩ := psync_cases (s := answered cfg sent chunks) h rfl
  rw [hshake]
  constructor
  · rintro ⟨s', hs', -⟩
    by_contra hseen
    obtain ⟨s'', hs''⟩ := hfail hseen
    rw [hs'] at hs''
    cases hs''
  · exact hok

/-! ## A snapshot of two thousand bytes -/

/-- A keyspace with one large value. -/
def largeEntry : Entries :=
  Dict.empty.insert (ascii "k") { type := .string, value := .bytes (List.replicate 2000 118) }

/-- Its snapshot. -/
def largeRdb : Bytes := (dumpRdbEntries largeEntry).getD []

/-- A replica with the smallest `--proto-max-bulk-len`. -/
def narrowReplica : ReplicaConfig := { maxBulkLen := 1024 }

/-- The snapshot is loaded as the keyspace. -/
theorem load_largeRdb : loadRdbBytes 1073741824 0 largeRdb = .ok largeEntry := by
  obtain ⟨rdb, hdump⟩ := Option.isSome_iff_exists.mp
    (show (dumpRdbEntries largeEntry).isSome = true by decide +kernel)
  have hrdb : largeRdb = rdb := by rw [largeRdb, hdump, Option.getD_some]
  have hnone : ∀ e ∈ largeEntry.entries, e.2.expireAtMs = none := by decide
  have hdeadline : ∀ e ∈ largeEntry.entries, NonNegDeadline e.2 := by
    intro e he d hd
    rw [hnone e he] at hd
    cases hd
  have hlen : largeRdb.length ≤ 1073741824 := by decide +kernel
  rw [hrdb] at hlen ⊢
  rw [loadRdbBytes_dumpRdbEntries hdump hlen hdeadline 0, Dict.filter_eq_self]
  intro e he
  rw [hnone e he]
  rfl

/-- A resync with the large snapshot. -/
theorem snapshotted_large {chunks : List Bytes}
    (hstream : chunks.flatten = lineChunk ++ (bulkHeader largeRdb.length ++ largeRdb))
    (hread : ∀ c ∈ chunks, c ≠ [] ∧ c.length ≤ 65536) :
    Snapshotted narrowReplica 0 default 0 largeRdb largeEntry chunks where
  stream := by
    rw [hstream, fullresyncPayload_eq]
    rfl
  read := hread
  offset := convertible_of_lt_ten (by decide)
  snapshot := load_largeRdb
  size := by decide +kernel
  length := convertible_of_lt_ten (by decide +kernel)

/-- The line comes in a chunk of its own. -/
theorem snapshot_size_iff_apart :
    Snapshotted narrowReplica 0 default 0 largeRdb largeEntry
      [lineChunk, bulkHeader largeRdb.length ++ largeRdb] ∧
    ∃ s' : Session, Session.handshake narrowReplica 0 (answered narrowReplica []
      (greetingChunks ++ [lineChunk, bulkHeader largeRdb.length ++ largeRdb])) = .ok () s' ∧
      s'.loaded = some largeEntry := by
  have h := @snapshotted_large [lineChunk, bulkHeader largeRdb.length ++ largeRdb]
    (by simp) (by decide +kernel)
  refine ⟨h, (@snapshot_size_iff narrowReplica 0 default 0 largeRdb largeEntry _ _
    replies_greetingChunks h).mpr
    (Or.inr ⟨[lineChunk], _, rfl, by decide +kernel, by decide +kernel⟩)⟩

/-- Line and snapshot come in one chunk, as the master writes them. -/
theorem snapshot_size_iff_together :
    Snapshotted narrowReplica 0 default 0 largeRdb largeEntry
      [lineChunk ++ (bulkHeader largeRdb.length ++ largeRdb)] ∧
    Replies (greetings narrowReplica) greetingChunks ∧
    ∃ s' : Session, Session.handshake narrowReplica 0 (answered narrowReplica []
      (greetingChunks ++ [lineChunk ++ (bulkHeader largeRdb.length ++ largeRdb)])) =
      .failed (.protocol (.bulkTooLong largeRdb.length)) s' := by
  have h := @snapshotted_large [lineChunk ++ (bulkHeader largeRdb.length ++ largeRdb)]
    (by simp) (by decide +kernel)
  have hread : ∀ c ∈ [lineChunk ++ (bulkHeader largeRdb.length ++ largeRdb)],
      c ≠ [] ∧ c.length ≤ 65536 := h.read
  obtain ⟨sent, hshake⟩ := @handshake_answered narrowReplica 0 _ _ replies_greetingChunks hread
  rw [hshake]
  refine ⟨h, replies_greetingChunks,
    (psync_cases (s := answered narrowReplica sent _) h rfl).2 ?_⟩
  rintro (hsmall | ⟨pre, post, hchunks, hle, hlt⟩)
  · exact absurd hsmall (by decide +kernel)
  · -- one chunk has no cut inside
    cases pre with
    | nil => exact absurd hle (by decide +kernel)
    | cons c pre =>
      obtain ⟨rfl, hnil⟩ := List.cons.inj hchunks
      have hlong : lineEnd default 0 + (bulkHeader largeRdb.length).length ≤
          (lineChunk ++ (bulkHeader largeRdb.length ++ largeRdb)).length := by decide +kernel
      rw [List.flatten_cons, List.length_append] at hlt
      omega

end ByoRedis.Analysis
