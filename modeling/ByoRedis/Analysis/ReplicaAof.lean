import ByoRedis.Lib.Prefixes
import ByoRedis.Analysis.AofFile
import ByoRedis.Analysis.LogReplay
import ByoRedis.Analysis.RdbCorruption
import ByoRedis.Analysis.ReplicaStream

/-!
# The AOF of a replica

A replica's keyspace changes in two ways: a FULLRESYNC puts a snapshot in its place, and
the commands of the link are executed, which logs them in the replica's own AOF. The
snapshot is logged nowhere. So the AOF describes the keyspace exactly as long as every
snapshot brings what the replica has already, the first one nothing (`replica_aof_iff`).
-/

set_option autoImplicit false

namespace ByoRedis.Analysis

open ByoRedis.Model ByoRedis.Lib ByoRedis.Interface

/-! ## The link -/

/-- What the link to the master brings: the snapshot of a FULLRESYNC, or a command. -/
inductive LinkEvent where
  | fullresync (now : ℤ) (rdb : Bytes)
  | command (env : Env) (argv : Command)

/-- A replica with the records it has appended so far and the time of the last event. -/
structure Follower where
  server : Server
  records : List Command := []
  now : ℤ := 0

namespace Follower

/-- SOURCE: replication/replica.py:144-154, server.py:577-578 -/
def step (f : Follower) : LinkEvent → Follower
  | .fullresync now rdb => { f with server := f.server.loadSnapshot now rdb, now := now }
  | .command env argv =>
    let x := f.server.execute env .replicated 0 argv []
    { server := x.server, records := f.records ++ x.records, now := env.now }

/-- The keyspace: what is live at the time of the last event. -/
def keyspace (f : Follower) : Entries := f.server.store.live f.now

end Follower

/-- A replica that started on an empty data directory, over any number of connections to
its master. -/
def linked (cfg : Config) (replid : Replid) (evs : List LinkEvent) : Follower :=
  evs.foldl Follower.step { server := started cfg replid }

/-- The replica after one more event. -/
theorem linked_append (cfg : Config) (replid : Replid) (evs : List LinkEvent) (e : LinkEvent) :
    linked cfg replid (evs ++ [e]) = (linked cfg replid evs).step e := by
  simp [linked]

/-- The AOF holds the records, it is read back within the limits of its reader, and its
replay on an empty store gives the keyspace: the same keys with the same entries. -/
structure Describes (cfg : Config) (replid : Replid) (f : Follower) : Prop where
  file : f.server.aof.file = some (f.records.flatMap encodeCommand)
  read : (∀ r ∈ f.records, Readable cfg.protoMaxBulkLen r) →
    ∀ maxFileBytes, Loadable maxFileBytes (f.records.flatMap encodeCommand) →
      readCommands cfg.protoMaxBulkLen maxFileBytes f.server.aof.file = .ok f.records
  keyspace : ∀ (clock : ℕ → ℤ) (k : Bytes),
    (Server.replayAof clock f.records (Server.init cfg replid none none)).store.entries.get? k =
      f.keyspace.get? k

/-- A snapshot that brings what the replica has already. -/
def BringsNothing (f : Follower) : LinkEvent → Prop
  | .fullresync now rdb => ∀ d,
    loadRdbBytes f.server.config.persistenceMaxLoadBytes now rdb = .ok d →
      ∀ k, d.get? k = (f.server.store.live now).get? k
  | .command _ _ => True

/-! ## Entries with the same content -/

/-- SOURCE: persistence/rdb.py:144-175 -/
theorem fresh_readRecords {now : ℤ} {n : ℕ} {d d' : Entries} {buf rest : Bytes}
    (hd : Fresh now d) (h : readRecords now n d buf = .ok (d', rest)) : Fresh now d' := by
  induction n generalizing d buf with
  | zero =>
    cases h
    exact hd
  | succ n ih =>
    simp only [readRecords, bind, Except.bind] at h
    split at h
    · cases h
    · rename_i r hr
      apply ih _ h
      split_ifs with hx
      · exact hd
      · intro e he
        rcases Dict.mem_entries_insert he with rfl | he
        · simpa using hx
        · exact hd e he

/-- Nothing that `load_rdb_bytes` returns has expired.
SOURCE: persistence/rdb.py:128-188 -/
theorem fresh_loadRdbBytes {limit : ℕ} {now : ℤ} {rdb : Bytes} {d : Entries}
    (h : loadRdbBytes limit now rdb = .ok d) : Fresh now d := by
  obtain ⟨version, rest, -, hwalked, -⟩ := walked_of_loadRdbBytes h
  apply fresh_readRecords _ hwalked.records
  exact timeless_empty.fresh now

/-- A command acts on the content of the entries, not on their order. -/
theorem get?_effect_congr (now : ℤ) (argv : Command) {d d' : Entries}
    (h : ∀ k, d.get? k = d'.get? k) (k : Bytes) :
    ((effect now argv d).getD d).get? k = ((effect now argv d').getD d').get? k := by
  unfold effect
  cases hw : Write.ofCommand argv with
  | none => exact h k
  | some w =>
    rw [Option.bind_some, Option.bind_some]
    have hnone : w.effect now d = none ↔ w.effect now d' = none := by
      rw [Write.effect_eq_none_iff, Write.effect_eq_none_iff]
      simp only [h]
    cases he : w.effect now d with
    | none =>
      rw [hnone.mp he]
      exact h k
    | some d₁ =>
      cases he' : w.effect now d' with
      | none => rw [hnone.mpr he'] at he; cases he
      | some d₁' =>
        rw [Option.getD_some, Option.getD_some, Write.get?_effect he, Write.get?_effect he', h k]

/-! ## One event -/

/-- What every event keeps: an AOF that takes records and holds those appended so far, and no
memory limit. As long as the records describe the keyspace it has no deadlines. -/
structure Following (cfg : Config) (f : Follower) : Prop where
  config : f.server.config = cfg
  unlimited : f.server.store.maxmemoryBytes = 0
  aof : f.server.aof = { file := some (f.records.flatMap encodeCommand), opened := true }
  records : ∀ r ∈ f.records, Loggable r
  timeless : (∀ k, (replay f.records Dict.empty).get? k = f.keyspace.get? k) →
    Timeless f.server.store.entries

/-- A replica that was just started follows. -/
theorem following_started {cfg : Config} (replid : Replid) (hen : cfg.aofEnabled = true)
    (h0 : cfg.maxmemoryBytes = 0) : Following cfg { server := started cfg replid } := by
  refine ⟨rfl, h0, ?_, ?_, ?_⟩
  · simp [started, AofLog.openLog, hen]
  · intro r hr
    cases hr
  · intro _
    exact timeless_empty

/-- A log without deadlines makes a keyspace without deadlines. -/
theorem timeless_replay {log : List Command} (hlog : ∀ r ∈ log, Loggable r) {d : Entries}
    (hd : Timeless d) : Timeless (replay log d) := by
  induction log generalizing d with
  | nil => exact hd
  | cons r log ih =>
    apply ih
    · intro r' hr'
      exact hlog r' (List.mem_cons_of_mem _ hr')
    · show Timeless ((effect 0 r d).getD d)
      cases heff : effect 0 r d with
      | none => exact hd
      | some d' => exact hd.effect (hlog r List.mem_cons_self).ttlFree heff

/-- Whether there are deadlines depends on the lookups only. -/
theorem timeless_of_get? {d d' : Entries} (hd : Timeless d) (h : ∀ k, d.get? k = d'.get? k) :
    Timeless d' := by
  rintro ⟨k, e⟩ he
  have hk := (d'.get?_eq_some_iff k e).mpr he
  rw [← h k] at hk
  exact hd.get? hk

/-- The AOF describes the keyspace exactly when the records do. -/
theorem Following.describes_iff {cfg : Config} {f : Follower} (h : Following cfg f)
    (replid : Replid) (h0 : cfg.maxmemoryBytes = 0) :
    Describes cfg replid f ↔ ∀ k, (replay f.records Dict.empty).get? k = f.keyspace.get? k := by
  have hreplay : ∀ clock, (Server.replayAof clock f.records
      (Server.init cfg replid none none)).store.entries = replay f.records Dict.empty := by
    intro clock
    rw [replayAof_eq_applyLog]
    exact (entries_applyLog (rfl : Flags.loading.isReplicaClient = true) clock f.records h.records
      (Server.init cfg replid none none) h0 timeless_empty).1
  constructor
  · intro hd k
    rw [← hd.keyspace (fun _ => 0) k, hreplay]
  · intro hk
    refine ⟨by rw [h.aof], ?_, ?_⟩
    · intro hread maxFileBytes hload
      rw [h.aof]
      exact readCommands_records hread hload
    · intro clock k
      rw [hreplay]
      exact hk k

/-- A command of the link on a replica without deadlines: it is logged and has its effect,
or neither.
SOURCE: server.py:475-529 -/
theorem execute_replicated {cfg : Config} {f : Follower} (h : Following cfg f)
    (hen : cfg.aofEnabled = true) (ht : Timeless f.server.store.entries) (env : Env)
    {argv : Command} (hfree : TtlFree argv) :
    (f.step (.command env argv)).server.config = cfg ∧
    (f.step (.command env argv)).server.store.maxmemoryBytes = 0 ∧
    (f.step (.command env argv)).server.aof =
      { file := some ((f.step (.command env argv)).records.flatMap encodeCommand)
        opened := true } ∧
    (((f.step (.command env argv)).records = f.records ∧
        (f.step (.command env argv)).server.store.entries = f.server.store.entries) ∨
      (Loggable argv ∧ (f.step (.command env argv)).records = f.records ++ [argv] ∧
        (f.step (.command env argv)).server.store.entries =
          (effect 0 argv f.server.store.entries).getD f.server.store.entries)) := by
  have hfresh := ht.fresh env.now
  simp only [Follower.step]
  cases hw : isWrite argv with
  | false =>
    obtain ⟨reply, srv', hp, hfr⟩ := prepare_read f.server env .replicated 0 hw
    rw [execute_of_done hp, List.append_nil]
    refine ⟨hfr.config.trans h.config, hfr.store.limits.1.trans h.unlimited, ?_, Or.inl ⟨rfl, ?_⟩⟩
    · exact hfr.aof.trans h.aof
    · exact hfr.store.entries hfresh
  | true =>
    have hent := entries_execute_applied f.server env 0
      (rfl : Flags.replicated.isReplicaClient = true) hw h.unlimited []
    obtain ⟨hout, -, hcfg, hlim⟩ := execute_applied f.server env 0
      (rfl : Flags.replicated.isReplicaClient = true) hw []
    rw [live_of_fresh hfresh, effect_of_ttlFree hfree env.now 0] at hent
    refine ⟨hcfg.trans h.config, hlim.1.trans h.unlimited, ?_⟩
    generalize hr : f.server.prepare env .replicated 0 argv = r at hout
    cases hout with
    | refused m heff herr hsame =>
      rw [live_of_fresh hfresh, effect_of_ttlFree hfree env.now 0] at heff
      rw [heff, Option.getD_none] at hent
      rw [execute_of_done hr] at hent ⊢
      rw [List.append_nil]
      exact ⟨h.aof, Or.inl ⟨rfl, hent⟩⟩
    | oom d s heff hl =>
      obtain ⟨-, hsame, -⟩ := handled_spec hw heff
      rw [enforceMemoryLimit_unlimited (by rw [hsame.1, h.unlimited])] at hl
      cases hl
    | accepted d evicted v s heff hl =>
      have hhooks : f.server.hooks .replicated argv evicted v =
          .records [argv] false (encodeValue v) := by
        simp [Server.hooks, hw, Flags.replicated]
      rw [hhooks] at hr
      have hx : f.server.execute env .replicated 0 argv [] = ⟨some (encodeValue v), [argv],
          { f.server with store := s, aof := f.server.aof.write (encodeCommand argv) }⟩ := by
        have hcfg' := h.config
        simp [Server.execute, hr, Server.commitAll, Server.commit, AofLog.append, h.aof, hcfg',
          hen]
      rw [hx] at hent ⊢
      refine ⟨?_, Or.inr ⟨⟨hw, hfree⟩, rfl, hent⟩⟩
      rw [h.aof]
      simp [AofLog.write]

/-- After one more event the log is right exactly when a load brought nothing. -/
theorem Following.step {cfg : Config} {f : Follower} (h : Following cfg f)
    (hen : cfg.aofEnabled = true)
    (hp : ∀ k, (replay f.records Dict.empty).get? k = f.keyspace.get? k) (e : LinkEvent)
    (hfree : ∀ env argv, e = .command env argv → TtlFree argv) :
    ((∀ k, (replay (f.step e).records Dict.empty).get? k = (f.step e).keyspace.get? k) ↔
      BringsNothing f e) ∧ Following cfg (f.step e) := by
  have ht := h.timeless hp
  have hlive : ∀ now, f.server.store.live now = f.server.store.entries :=
    fun now => live_of_fresh (ht.fresh now)
  rw [Follower.keyspace, hlive] at hp
  cases e with
  | fullresync now rdb =>
    simp only [Follower.step, Server.loadSnapshot, BringsNothing, Follower.keyspace]
    cases hload : loadRdbBytes f.server.config.persistenceMaxLoadBytes now rdb with
    | error err =>
      refine ⟨⟨?_, ?_⟩, h.config, h.unlimited, h.aof, h.records, fun _ => ht⟩
      · intro _ d hd
        cases hd
      · intro _ k
        rw [hlive]
        exact hp k
    | ok d =>
      have hd : Store.live (f.server.store.loadEntries d) now = d :=
        live_of_fresh (s := f.server.store.loadEntries d) (fresh_loadRdbBytes hload)
      simp only [hd, hlive]
      refine ⟨⟨?_, ?_⟩, h.config, h.unlimited, h.aof, h.records, ?_⟩
      · rintro hall d' hd' k
        cases hd'
        rw [← hall k]
        exact hp k
      · intro hcond k
        rw [hcond d rfl k]
        exact hp k
      · intro hall
        apply timeless_of_get? (timeless_replay h.records timeless_empty)
        intro k
        rw [hall k]
        exact congrArg (fun x : Entries => x.get? k) hd
  | command env argv =>
    obtain ⟨hcfg, hlim, haof, hcase⟩ := execute_replicated h hen ht env (hfree env argv rfl)
    have ht' : Timeless (f.step (.command env argv)).server.store.entries := by
      rcases hcase with ⟨-, hent⟩ | ⟨hlog, -, hent⟩
      · rw [hent]
        exact ht
      · rw [hent]
        cases heff : effect 0 argv f.server.store.entries with
        | none => exact ht
        | some d => exact ht.effect hlog.ttlFree heff
    have hkey : (f.step (.command env argv)).keyspace =
        (f.step (.command env argv)).server.store.entries := live_of_fresh (ht'.fresh _)
    refine ⟨⟨fun _ => trivial, ?_⟩, hcfg, hlim, haof, ?_, fun _ => ht'⟩
    · intro _ k
      rw [hkey]
      rcases hcase with ⟨hrec, hent⟩ | ⟨-, hrec, hent⟩
      · rw [hrec, hent]
        exact hp k
      · rw [hrec, hent, replay_append]
        exact get?_effect_congr 0 argv hp k
    · intro r hr
      rcases hcase with ⟨hrec, -⟩ | ⟨hlog, hrec, -⟩
      · rw [hrec] at hr
        exact h.records r hr
      · rw [hrec, List.mem_append, List.mem_singleton] at hr
        rcases hr with hr | rfl
        · exact h.records r hr
        · exact hlog

/-! ## Whole runs -/

/-- **When the AOF of a replica describes its keyspace.** Over any number of connections, at
every point between two events: exactly if every snapshot that is loaded brings what the
replica has at that time, so that the first one is empty.
SOURCE: replication/replica.py:144-154, server.py:499-529, storage/store.py:66-69 -/
theorem replica_aof_iff {cfg : Config} (replid : Replid) (hen : cfg.aofEnabled = true)
    (h0 : cfg.maxmemoryBytes = 0) (evs : List LinkEvent)
    (hfree : ∀ env argv, .command env argv ∈ evs → TtlFree argv) :
    (∀ done, done <+: evs → Describes cfg replid (linked cfg replid done)) ↔
      ∀ done e, done ++ [e] <+: evs → BringsNothing (linked cfg replid done) e := by
  have hstart := following_started replid hen h0
  apply forall_prefix_iff evs (I := fun done => Following cfg (linked cfg replid done))
  · exact (hstart.describes_iff replid h0).mpr fun _ => rfl
  · exact hstart
  · intro done e hpre hp hi
    have hmem : e ∈ evs := hpre.subset (by simp)
    obtain ⟨hiff, hi'⟩ := hi.step hen ((hi.describes_iff replid h0).mp hp) e
      (fun env argv he => hfree env argv (he ▸ hmem))
    rw [linked_append]
    exact ⟨(hi'.describes_iff replid h0).trans hiff, hi'⟩

/-- A replica of a master on the same machine. -/
def replicaConfig : Config :=
  { role := .replica, replicaofHost := some "127.0.0.1".toList, replicaofPort := some 6379 }

/-- The command that makes the entry of `singleRdb`. -/
def setSingle : Command := [ascii "SET", ascii "k", ascii "v"]

/-- The link is lost after a command, and the snapshot of the next connection holds what the
command left. -/
theorem replica_aof_iff_reconnected :
    replicaConfig.isReplica = true ∧
    ∀ done, done <+: [.command {} setSingle, .fullresync 0 singleRdb] →
      Describes replicaConfig default (linked replicaConfig default done) := by
  have hfree : ∀ env argv, LinkEvent.command env argv ∈
      [LinkEvent.command {} setSingle, .fullresync 0 singleRdb] → TtlFree argv := by
    intro env argv h
    simp only [List.mem_cons, LinkEvent.command.injEq, reduceCtorEq, List.not_mem_nil,
      or_false] at h
    rw [h.2]
    decide
  refine ⟨rfl, (replica_aof_iff default rfl rfl _ hfree).mpr ?_⟩
  refine forall_prefix_cons trivial (forall_prefix_cons ?_ forall_prefix_nil)
  intro d hd k
  have hload : Except.ok d = Except.ok singleEntry := hd.symm.trans load_singleRdb
  cases hload
  exact congrArg (fun x : Entries => x.get? k) (by decide +kernel)

/-- A first snapshot with a key: the replica has the key, and its AOF is empty. -/
theorem replica_aof_iff_snapshot :
    replicaConfig.isReplica = true ∧ replicaConfig.aofEnabled = true ∧
    replicaConfig.maxmemoryBytes = 0 ∧ ¬ ∀ done, done <+: [LinkEvent.fullresync 0 singleRdb] →
      Describes replicaConfig default (linked replicaConfig default done) := by
  refine ⟨rfl, rfl, rfl, fun h => ?_⟩
  have hd := (h _ (List.prefix_refl _)).keyspace (fun _ => 0) (ascii "k")
  have hkey : (linked replicaConfig default [.fullresync 0 singleRdb]).keyspace =
      (Store.loadEntries replicaConfig.emptyStore singleEntry).live 0 := by
    show (((started replicaConfig default).loadSnapshot 0 singleRdb).store.live 0) = _
    have hload : loadRdbBytes (started replicaConfig default).config.persistenceMaxLoadBytes 0
        singleRdb = .ok singleEntry := load_singleRdb
    simp only [Server.loadSnapshot, hload]
    rfl
  rw [hkey] at hd
  exact absurd hd (by decide +kernel)

end ByoRedis.Analysis
