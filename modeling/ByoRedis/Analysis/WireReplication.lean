import ByoRedis.Analysis.Convergence
import ByoRedis.Analysis.FullResync
import ByoRedis.Analysis.LiveAof
import ByoRedis.Analysis.ReplicaStream
import ByoRedis.Analysis.SessionPrefix

/-!
# A replica behind the wire

The master side of replication ends with the bytes written to a link, and the replica side
starts with the chunks in which they arrive. Here the two meet. `Mirrored` is the invariant of
a master without deadlines, under every schedule: the keyspace is the replay of what took
effect, and each link carries a snapshot of it and every record since. A replica that reads
the link holds the replay of a front of these records on the snapshot at every moment, and
the keyspace of the master when it has read everything.
-/

set_option autoImplicit false

namespace ByoRedis.Analysis

open ByoRedis.Model ByoRedis.Lib ByoRedis.Interface

variable {sys sys' : System} {a : Action} {es evs : List Event}

/-! ## Nothing that took effect is left out -/

/-- No append fails. -/
def Lossless : Action → Prop
  | .append fault => fault = .none
  | _ => True

/-- What took effect has been propagated but for what the lock holder has still to do, before
and after an action. -/
structure Balanced (sys : System) (es : List Event) (sys' : System) : Prop where
  records : unpropagated sys.holder ++ executedOf es = propagatedOf es ++ unpropagated sys'.holder
  healthy : sys.server.aof.failure = none → sys'.server.aof.failure = none

/-- A silent step leaves the balance as it is. -/
theorem Silent.balanced (hsil : Silent es)
    (hun : unpropagated sys'.holder = unpropagated sys.holder)
    (hfail : sys'.server.aof.failure = sys.server.aof.failure) : Balanced sys es sys' := by
  refine ⟨?_, fun h => hfail.trans h⟩
  rw [executedOf_eq_nil hsil.executed, hsil.propagated, hun, List.append_nil, List.nil_append]

/-- SOURCE: persistence/aof.py:167-186 -/
theorem append_of_failure_none {cfg : Config} {aof : AofLog} (h : aof.failure = none)
    (argv : Command) :
    ∃ aof', aof.append cfg argv .none = (.ok (), aof') ∧ aof'.failure = none := by
  unfold AofLog.append
  by_cases hoff : (!cfg.aofEnabled || !aof.opened) = true
  · exact ⟨aof, by rw [if_pos hoff], h⟩
  · rw [if_neg hoff, h]
    exact ⟨aof.write (encodeCommand argv), rfl, h⟩

/-- SOURCE: server.py:409-498 -/
theorem CommandStep.balanced {conn : ℕ} {argv : Command} (h : CommandStep sys conn argv sys' es) :
    Balanced sys es sys' := by
  cases h with
  | answered srv reply hframe =>
    exact (silent_replied conn reply.toList).balanced rfl (by rw [System.setServer, hframe.aof])
  | accepted d evicted s reply hfree hw heff hlim =>
    refine ⟨?_, id⟩
    rw [hfree]
    simp [unpropagated, executedOf, propagatedOf]

/-- **No record is lost on the way to the replicas** while no append fails. -/
theorem balanced_of_step (hrole : sys.server.config.isReplica = false)
    (hhealthy : sys.server.aof.failure = none) (hok : Lossless a)
    (h : sys.step a = some (sys', es)) : Balanced sys es sys' := by
  have haside : IsAside a → Balanced sys es sys' := by
    intro ha
    obtain ⟨has, hsil⟩ := aside_of_step ha h
    exact hsil.balanced (by rw [has.holder]) (by rw [has.aof])
  have hbackground : IsBackground a → unpropagated sys'.holder = unpropagated sys.holder →
      sys'.server.aof.failure = sys.server.aof.failure → Balanced sys es sys' :=
    fun ha => (background_of_step ha h).2.balanced
  cases stepped_of_step h with
  | command conn argv env sys' es hc => exact (command_cases hrole hc).2.balanced
  | appendFailed conn argv rest reply fault text aof hhold hheard happend =>
    obtain rfl : fault = .none := hok
    obtain ⟨aof', hwritten, -⟩ := append_of_failure_none hhealthy argv
    cases happend.symm.trans hwritten
  | appended conn argv rest reply fault aof hhold hheard happend =>
    obtain rfl : fault = .none := hok
    obtain ⟨aof', hwritten, hfail⟩ := append_of_failure_none hhealthy argv
    cases happend.symm.trans hwritten
    refine ⟨?_, fun _ => hfail⟩
    rw [hhold]
    simp [unpropagated, executedOf, propagatedOf]
  | propagatedLast conn argv reply fails hhold =>
    refine ⟨?_, id⟩
    rw [hhold]
    rfl
  | propagated conn argv next rest reply fails hhold =>
    refine ⟨?_, id⟩
    rw [hhold]
    simp [unpropagated, executedOf, propagatedOf]
  | bgsaveSnapshot hfree hidle hasked => exact hbackground trivial rfl rfl
  | bgsaveWritten time d payload hsave hdump => exact hbackground trivial rfl rfl
  | bgsaveUnencodable time d hsave hdump => exact hbackground trivial rfl rfl
  | bgsaveFailed d hsave => exact hbackground trivial rfl rfl
  | rewriteSnapshot hfree hasked => exact hbackground trivial (by rw [hfree]; rfl) rfl
  | rewriteBuilt d commands hhold hbuild => exact hbackground trivial (by rw [hhold]; rfl) rfl
  | rewriteOverflowed d hhold hbuild => exact hbackground trivial (by rw [hhold]; rfl) rfl
  | rewriteReplaced commands hhold hopen => exact hbackground trivial (by rw [hhold]; rfl) rfl
  | rewriteReplacedLost commands hhold hopen hopened =>
    exact hbackground trivial (by rw [hhold]; rfl) rfl
  | rewriteLost commands hhold hopen hopened => exact hbackground trivial (by rw [hhold]; rfl) rfl
  | rewriteFailed hhold =>
    refine hbackground trivial ?_ rfl
    obtain ⟨d, hhold⟩ | ⟨commands, hhold⟩ := hhold <;> rw [hhold] <;> rfl
  | _ => exact haside trivial

/-! ## A master without deadlines -/

/-- What a run is allowed: no deadlines and no failing appends. Links may fail. -/
def Streamed (_ : System) : Action → Prop
  | .command _ argv _ => TtlFree argv
  | .append fault => fault = .none
  | _ => True

/-- A step that a stream takes loses no record. -/
theorem Streamed.lossless (h : Streamed sys a) : Lossless a := by
  cases a with
  | append fault => exact h
  | _ => trivial

/-- The records of a write without deadline can stand in a log. -/
theorem loggable_of_step (hrole : sys.server.config.isReplica = false) (hok : Streamed sys a)
    (h : sys.step a = some (sys', es)) : ∀ r ∈ executedOf es, Loggable r := by
  have hsilent : Silent es → ∀ r ∈ executedOf es, Loggable r := by
    intro hsil
    rw [executedOf_eq_nil hsil.executed]
    simp
  cases stepped_of_step h with
  | command conn argv env sys' es hc =>
    cases (command_cases hrole hc).2 with
    | answered srv reply hframe => exact hsilent (silent_replied conn reply.toList)
    | accepted d evicted s reply hfree hw heff hlim =>
      intro r hr
      have hmem : r ∈ argv :: evicted.map Server.evictionRecord := by
        simpa [executedOf] using hr
      obtain rfl | hr := List.mem_cons.mp hmem
      · exact ⟨hw, hok⟩
      · obtain ⟨k, -, rfl⟩ := List.mem_map.mp hr
        exact loggable_evictionRecord k
  | _ => simp [executedOf]

/-- Without deadlines the effects of a history are the replay of its records. -/
theorem effects_eq_replay {evs : List Event} {d : Entries} (hd : Timeless d)
    (h : ∀ r ∈ executedOf evs, Loggable r) :
    effects d evs = replay (executedOf evs) d ∧ Timeless (effects d evs) := by
  have hrecords : ∀ (t : ℤ) (records : List Command) (d : Entries), Timeless d →
      (∀ r ∈ records, Loggable r) →
      records.foldl (fun d r => (effect t r d).getD d) d = replay records d ∧
        Timeless (replay records d) := by
    intro t records
    induction records with
    | nil => exact fun d hd _ => ⟨rfl, hd⟩
    | cons r records ih =>
      intro d hd hall
      have hfree := (hall r List.mem_cons_self).ttlFree
      have hnext : Timeless ((effect 0 r d).getD d) := by
        cases heff : effect 0 r d with
        | none => exact hd
        | some d' => exact hd.effect hfree heff
      obtain ⟨hfold, htimeless⟩ := ih _ hnext fun r' hr' => hall r' (List.mem_cons_of_mem _ hr')
      refine ⟨?_, htimeless⟩
      rw [List.foldl_cons, effect_of_ttlFree hfree t 0, hfold]
      rfl
  induction evs generalizing d with
  | nil => exact ⟨rfl, hd⟩
  | cons ev evs ih =>
    cases ev with
    | executed t records =>
      have hsplit : executedOf (.executed t records :: evs) = records ++ executedOf evs := rfl
      have heffects : effects d (.executed t records :: evs) =
        effects (takeEffect t records d) evs := rfl
      rw [hsplit] at h
      obtain ⟨hfold, htimeless⟩ := hrecords t records d hd
        fun r hr => h r (List.mem_append_left _ hr)
      have htake : takeEffect t records d = replay records d := by
        have hlive : liveAt t d = d := Dict.filter_eq_self d _ (by
          intro e he
          simp [hd.fresh t e he])
        rw [takeEffect, hlive, hfold]
      rw [heffects, hsplit, htake, replay_append]
      exact ih htimeless fun r hr => h r (List.mem_append_right _ hr)
    | appended argv => exact ih hd h
    | propagated argv => exact ih hd h
    | snapshot conn t d' off => exact ih hd h
    | rewritten cs => exact ih hd h
    | replied conn reply => exact ih hd h

/-! ## What a link carries -/

/-- What the events say a connection was given: the snapshot taken for it, its offset and the
records propagated since. -/
def carriedStep (c : ℕ) (acc : Option (Entries × ℕ × List Command)) :
    Event → Option (Entries × ℕ × List Command)
  | .snapshot conn _ d off => if conn = c then some (d, off, []) else acc
  | .propagated argv => acc.map fun r => (r.1, r.2.1, r.2.2 ++ [argv])
  | _ => acc

/-- What the link has carried: the snapshot, its offset and the records since. -/
def carried (c : ℕ) (evs : List Event) : Option (Entries × ℕ × List Command) :=
  evs.foldl (carriedStep c) none

/-- A connection that is given no new snapshot is given the records. -/
theorem carried_append {c : ℕ} {d : Entries} {off : ℕ} {cmds : List Command}
    (h : carried c evs = some (d, off, cmds)) (hno : ∀ t d off, .snapshot c t d off ∉ es) :
    carried c (evs ++ es) = some (d, off, cmds ++ propagatedOf es) := by
  unfold carried at h ⊢
  rw [List.foldl_append, h]
  clear h
  induction es generalizing cmds with
  | nil => simp [propagatedOf]
  | cons ev es ih =>
    have hrest := fun cmds => @ih cmds fun t d off hin => hno t d off (List.mem_cons_of_mem _ hin)
    cases ev with
    | snapshot conn t d' off' =>
      have hne : conn ≠ c := by
        rintro rfl
        exact hno t d' off' List.mem_cons_self
      rw [List.foldl_cons, carriedStep, if_neg hne]
      exact hrest cmds
    | propagated argv =>
      have hsplit : propagatedOf (.propagated argv :: es) = argv :: propagatedOf es := rfl
      rw [List.foldl_cons, hsplit, List.append_cons]
      exact hrest (cmds ++ [argv])
    | executed t records => exact hrest cmds
    | appended argv => exact hrest cmds
    | rewritten cs => exact hrest cmds
    | replied conn reply => exact hrest cmds

/-- A snapshot is taken with the write lock free, of the live keyspace, for a connection that
had no link. -/
structure Taken (sys : System) (c : ℕ) (es : List Event) (sys' : System) : Prop where
  free : sys.holder = .free
  free' : sys'.holder = .free
  new : sys.server.master.links.get? c = none
  linked : ∃ l, sys'.server.master.links.get? c = some l
  events : es = [.snapshot c sys.now (sys.server.store.live sys.now) sys.server.master.offset]

/-- SOURCE: server.py:328-330, replication/master.py:146-151 -/
theorem snapshot_of_step {c : ℕ} {t : ℤ} {d : Entries} {off : ℕ}
    (h : sys.step a = some (sys', es)) (hmem : .snapshot c t d off ∈ es) :
    Taken sys c es sys' := by
  cases stepped_of_step h with
  | psync conn hrole hfree hnew =>
    cases List.mem_singleton.mp hmem
    exact ⟨hfree, hfree, hnew, ⟨_, Dict.get?_insert_self _ _ _⟩, rfl⟩
  | command conn argv env sys' es hc =>
    obtain ⟨replies, rfl⟩ | ⟨records, rfl⟩ := (commanded_of_command hc).events <;> simp at hmem
  | _ => simp at hmem

/-- The stream of a link: its snapshot is without deadlines, and with the records since, and
those the lock holder has still to propagate, it makes up the keyspace. -/
structure Conveyed (evs : List Event) (sys : System) (c : ℕ) (l : ReplicaLink) (d : Entries)
    (off : ℕ) (cmds : List Command) : Prop where
  events : carried c evs = some (d, off, cmds)
  timeless : Timeless d
  loggable : ∀ r ∈ cmds, Loggable r
  keyspace : replay (cmds ++ unpropagated sys.holder) d = replay (executedOf evs) Dict.empty
  stream : Streams sys c d off (cmds.flatMap encodeCommand) l

/-- The invariant of a run from the start on an empty data directory: the history describes the
keyspace, what is propagated is what took effect, and every link carries the keyspace of its
snapshot and the records since. -/
structure Mirrored (replid : Replid) (evs : List Event) (sys : System) : Prop where
  role : sys.server.config.isReplica = false
  healthy : sys.server.aof.failure = none
  replid : sys.server.master.replid = replid
  nodup : sys.server.master.replicas.Nodup
  loggable : ∀ r ∈ executedOf evs, Loggable r
  keyspace : sys.server.store.live sys.now = liveAt sys.now (effects Dict.empty evs)
  propagated : ∀ r ∈ propagatedOf evs ++ unpropagated sys.holder, r ∈ executedOf evs
  links : ∀ c l, Attached sys c l → ∃ d off cmds, Conveyed evs sys c l d off cmds

/-- The live keyspace is the replay of what took effect. -/
theorem Mirrored.live {replid : Replid} (h : Mirrored replid evs sys) :
    sys.server.store.live sys.now = replay (executedOf evs) Dict.empty ∧
      Timeless (replay (executedOf evs) Dict.empty) := by
  obtain ⟨heffects, htimeless⟩ := effects_eq_replay timeless_empty h.loggable
  rw [heffects] at htimeless
  refine ⟨?_, htimeless⟩
  rw [h.keyspace, heffects]
  apply Dict.filter_eq_self
  intro e he
  simp [htimeless.fresh sys.now e he]

/-- A master that was just started is mirrored. -/
theorem mirrored_started {cfg : Config} (replid : Replid) (hrole : cfg.isReplica = false) (t : ℤ) :
    Mirrored replid [] { server := started cfg replid, now := t } := by
  have hfailure : (started cfg replid).aof.failure = none := by
    unfold started AofLog.openLog
    split_ifs <;> rfl
  refine ⟨hrole, hfailure, rfl, List.nodup_nil, by simp [executedOf], rfl,
    by simp [propagatedOf, unpropagated], ?_⟩
  intro c l ha
  cases ha.registered

/-- A link whose snapshot has just been taken. -/
theorem carried_fresh {replid : Replid} {c : ℕ} {l : ReplicaLink} {off : ℕ}
    (h : Mirrored replid evs sys) (hfree : sys.holder = .free)
    (hbalanced : Balanced sys es sys')
    (hes : es = [.snapshot c sys.now (sys.server.store.live sys.now) off])
    (hstream : Streams sys' c (sys.server.store.live sys.now) off [] l) :
    Conveyed (evs ++ es) sys' c l (sys.server.store.live sys.now) off [] := by
  have hrecords := hbalanced.records
  obtain ⟨hlive, htimeless⟩ := h.live
  rw [hfree, hes] at hrecords
  have hnone : unpropagated sys'.holder = [] := by
    simpa [unpropagated, executedOf, propagatedOf] using hrecords.symm
  refine ⟨?_, by rw [hlive]; exact htimeless, by simp, ?_, hstream⟩
  · rw [hes, carried, List.foldl_append]
    exact if_pos rfl
  · have hexecuted : executedOf (evs ++ es) = executedOf evs := by
      rw [hes]
      simp [executedOf]
    rw [hnone, hexecuted, hlive]
    rfl

/-- A link that was there before. -/
theorem Conveyed.step {c : ℕ} {l l' : ReplicaLink} {d : Entries} {off : ℕ} {cmds : List Command}
    (h : Conveyed evs sys c l d off cmds) (ha : Attached sys c l)
    (hs : sys.step a = some (sys', es)) (hbalanced : Balanced sys es sys')
    (hloggable : ∀ r ∈ propagatedOf es, Loggable r)
    (hstream : Streams sys' c d off (cmds.flatMap encodeCommand ++ payloads es) l') :
    Conveyed (evs ++ es) sys' c l' d off (cmds ++ propagatedOf es) := by
  refine ⟨carried_append h.events ?_, h.timeless, ?_, ?_, ?_⟩
  · intro t d' off' hmem
    have hnew := (snapshot_of_step hs hmem).new
    rw [ha.link] at hnew
    cases hnew
  · intro r hr
    obtain hr | hr := List.mem_append.mp hr
    · exact h.loggable r hr
    · exact hloggable r hr
  · rw [List.append_assoc, ← hbalanced.records, ← List.append_assoc, replay_append, h.keyspace,
      executedOf_append, replay_append]
  · rw [List.flatMap_append]
    exact hstream

/-- **Every action keeps the invariant.** -/
theorem Mirrored.step {replid : Replid} (h : Mirrored replid evs sys) (hok : Streamed sys a)
    (hs : sys.step a = some (sys', es)) : Mirrored replid (evs ++ es) sys' := by
  have hturn := turn_of_step h.role hs
  have hbalanced := balanced_of_step h.role h.healthy hok.lossless hs
  obtain ⟨hreplid, hnodup⟩ := hturn.links.frame
  have hloggable : ∀ r ∈ executedOf (evs ++ es), Loggable r := by
    intro r hr
    rw [executedOf_append] at hr
    obtain hr | hr := List.mem_append.mp hr
    · exact h.loggable r hr
    · exact loggable_of_step h.role hok hs r hr
  have hpropagated : ∀ r ∈ propagatedOf (evs ++ es) ++ unpropagated sys'.holder,
      r ∈ executedOf (evs ++ es) := by
    intro r hr
    rw [propagatedOf_append, List.append_assoc, ← hbalanced.records, ← List.append_assoc] at hr
    rw [executedOf_append]
    obtain hr | hr := List.mem_append.mp hr
    · exact List.mem_append_left _ (h.propagated r hr)
    · exact List.mem_append_right _ hr
  refine ⟨by rw [hturn.config]; exact h.role, hbalanced.healthy h.healthy,
    hreplid.trans h.replid, hnodup h.nodup, hloggable, ?_, hpropagated, ?_⟩
  · rw [effects_append]
    exact hturn.keyspace _ h.keyspace
  · intro c l' ha
    cases hturn.links.followed h.nodup ha with
    | fresh hfree hes hstream => exact ⟨_, _, _, carried_fresh h hfree hbalanced hes hstream⟩
    | carried l hl hstream =>
      obtain ⟨d, off, cmds, hcarried⟩ := h.links c l hl
      refine ⟨d, off, _, hcarried.step hl hs hbalanced ?_ (hstream d off _ hcarried.stream)⟩
      intro r hr
      apply hloggable r
      apply hpropagated r
      rw [propagatedOf_append, List.append_assoc]
      exact List.mem_append_right _ (List.mem_append_left _ hr)

/-! ## The replica at the other end -/

/-- The replica as its session leaves it: a snapshot that was loaded takes the place of its
keyspace, and the commands are applied one by one.
SOURCE: replication/replica.py:150-154, 212-227, server.py:577-578 -/
def mirror (replica : Server) (clock : ℕ → ℤ) (s : Session) : Server :=
  match s.loaded with
  | none => replica
  | some d => applyLog .replicated clock s.applied (resynced replica d)

/-- The sizes the replica is configured for, and the reads that bring the stream. -/
structure Deliverable (cfg : ReplicaConfig) (off : ℕ) (rdb : Bytes) (cmds : List Command)
    (chunks : List Bytes) : Prop where
  read : ∀ c ∈ chunks, c ≠ [] ∧ c.length ≤ 65536
  offset : Convertible off
  bulk : rdb.length ≤ cfg.maxBulkLen
  size : rdb.length ≤ cfg.snapshotMaxBytes
  length : Convertible rdb.length
  commands : ∀ c ∈ cmds, c ≠ [] ∧ WithinParser (replicaLimits cfg) c

/-- The keyspace of a replica whose session has loaded a snapshot without deadlines. -/
theorem entries_mirror {replica : Server} (h0 : replica.store.maxmemoryBytes = 0)
    (clock : ℕ → ℤ) {s : Session} {d : Entries} (hd : s.loaded = some d) (ht : Timeless d)
    (hlog : ∀ r ∈ s.applied, Loggable r) :
    (mirror replica clock s).store.entries = replay s.applied d := by
  unfold mirror
  rw [hd]
  exact (entries_applyLog (rfl : Flags.replicated.isReplicaClient = true) clock _ hlog
    (resynced replica d) h0 ht).1

/-- The session behind a link at rest: everything is loaded and applied.
SOURCE: replication/replica.py:83-227 -/
theorem session_of_link {rcfg : ReplicaConfig} {now : ℤ} {replid : Replid} {d : Entries}
    {off : ℕ} {rdb : Bytes} {cmds : List Command} {greeting chunks : List Bytes}
    (ht : Timeless d) (hdump : dumpRdbEntries d = some rdb)
    (hstream : chunks.flatten = MasterReplication.fullresyncPayload replid.text off rdb ++
      cmds.flatMap encodeCommand)
    (hgreeting : Replies (greetings rcfg) greeting) (hsizes : Deliverable rcfg off rdb cmds chunks)
    (hover : HandedOver rcfg replid off rdb cmds chunks) :
    ∃ s, Session.run rcfg now (greeting ++ chunks) = .waiting s ∧ s.loaded = some d ∧
      s.applied = cmds := by
  have hresynced : Resynced rcfg now replid off rdb d cmds chunks :=
    ⟨hstream, hsizes.read, hsizes.offset, loadRdbBytes_of_timeless ht hdump hsizes.size now,
      hsizes.bulk, hsizes.size, hsizes.length, hsizes.commands⟩
  obtain ⟨sent, hshake⟩ := @handshake_answered rcfg now chunks greeting hgreeting hsizes.read
  have hrun : Session.run rcfg now (greeting ++ chunks) =
      follow rcfg now (answered rcfg sent chunks) := by
    rw [follow, ← hshake]
    rfl
  obtain ⟨-, s, -, -, -, hwait, hloaded, happlied⟩ :=
    (@follow_iff rcfg now replid off rdb d cmds (answered rcfg sent chunks) hresynced rfl rfl).mpr
      hover
  exact ⟨s, hrun.trans hwait, hloaded, happlied⟩

/-- **A replica behind the wire.** A master starts empty under any memory limit and serves any
schedule of commands without deadlines, with saves, rewrites, other replicas and failing links, in
which no append fails. Take a link that is attached, with the resync over and the write lock free,
and a replica without a memory limit that reads what was written to the link, within its limits
and in any chunks that suit the hand-overs of its readers. Then it ends with the keyspace of the
master, and after any front of the chunks it has what it had before, or the snapshot with a front
of the records propagated since.
SOURCE: server.py:409-535, replication/master.py:126-256, replication/replica.py:83-227 -/
theorem replica_mirrors {cfg : Config} {replid : Replid} (hrole : cfg.isReplica = false) {t : ℤ}
    (hrun : Runs System.step Streamed { server := started cfg replid, now := t } evs sys)
    (hfree : sys.holder = .free) {c : ℕ} {l : ReplicaLink} (ha : Attached sys c l)
    (hdone : sys.resyncs.get? c = none) {d : Entries} {off : ℕ} {cmds : List Command}
    (hcarried : carried c evs = some (d, off, cmds)) {rdb : Bytes}
    (hdump : dumpRdbEntries d = some rdb) {rcfg : ReplicaConfig} {greeting chunks : List Bytes}
    (hgreeting : Replies (greetings rcfg) greeting) (hchunks : chunks.flatten = l.written)
    (hsizes : Deliverable rcfg off rdb cmds chunks)
    (hover : HandedOver rcfg replid off rdb cmds chunks) (now : ℤ) {replica : Server}
    (h0 : replica.store.maxmemoryBytes = 0) (clock : ℕ → ℤ) :
    (mirror replica clock (endOf (Session.run rcfg now (greeting ++ chunks)))).store.entries =
      sys.server.store.live sys.now ∧
    ∀ front back, chunks = front ++ back →
      mirror replica clock (endOf (Session.run rcfg now (greeting ++ front))) = replica ∨
      ∃ k, (mirror replica clock (endOf (Session.run rcfg now (greeting ++ front)))).store.entries =
        replay (cmds.take k) d := by
  have hinv : Mirrored replid evs sys :=
    hrun.invariant (mirrored_started replid hrole t) fun h hok hs => h.step hok hs
  obtain ⟨d', off', cmds', hlink⟩ := hinv.links c l ha
  cases hcarried.symm.trans hlink.events
  have hstream := hlink.stream
  unfold Streams at hstream
  rw [hdone, hinv.replid] at hstream
  have hbytes := hstream.bytes rdb hdump
  rw [hstream.phase.2, unsent, List.append_nil, List.flatten_nil, List.append_nil] at hbytes
  have hnone : unpropagated sys.holder = [] := by
    rw [hfree]
    rfl
  have hkeyspace := hlink.keyspace
  rw [hnone, List.append_nil, ← hinv.live.1] at hkeyspace
  obtain ⟨s, hs, hloaded, happlied⟩ := @session_of_link rcfg now replid d off rdb cmds greeting
    chunks hlink.timeless hdump (hchunks.trans hbytes) hgreeting hsizes hover
  constructor
  · rw [hs, endOf, entries_mirror h0 clock hloaded hlink.timeless (by
      rw [happlied]
      exact hlink.loggable), happlied, hkeyspace]
  · rintro front back rfl
    have hgrown := run_grown rcfg now (greeting ++ front) back
    rw [List.append_assoc, hs] at hgrown
    generalize endOf (Session.run rcfg now (greeting ++ front)) = early at hgrown ⊢
    cases hearly : early.loaded with
    | none =>
      refine Or.inl ?_
      unfold mirror
      rw [hearly]
    | some d' =>
      cases hloaded.symm.trans (hgrown.loaded d' hearly)
      have hfront := hgrown.applied
      rw [endOf, happlied] at hfront
      refine Or.inr ⟨early.applied.length, ?_⟩
      rw [← List.prefix_iff_eq_take.mp hfront]
      exact entries_mirror h0 clock hearly hlink.timeless fun r hr =>
        hlink.loggable r (hfront.subset hr)

/-- The stream of one snapshot and one command, each with its end in a chunk of its own. -/
theorem handedOver_single :
    HandedOver {} default 0 singleRdb [setCommand]
      [lineChunk, snapshotChunk, encodeCommand setCommand] := by
  refine ⟨?_, ?_, roomy_of_le (by decide +kernel)⟩
  · exact ⟨[lineChunk], _, rfl, by decide +kernel, by decide +kernel⟩
  · intro c hc
    cases hc
    exact ⟨[lineChunk, snapshotChunk], _, rfl, by decide +kernel, by decide +kernel⟩

/-- The stream of one key and one command can be delivered. -/
theorem deliverable_single :
    Deliverable {} 0 singleRdb [setCommand]
      [lineChunk, snapshotChunk, encodeCommand setCommand] where
  read := by decide +kernel
  offset := convertible_of_lt_ten (by decide)
  bulk := by decide +kernel
  size := by decide +kernel
  length := convertible_of_lt_ten (by decide +kernel)
  commands := by
    intro c hc
    rw [List.mem_singleton] at hc
    subst hc
    exact ⟨by decide, by decide, by decide, by decide⟩

/-- The write in front of the snapshot. -/
def firstSet : Command := [ascii "SET", ascii "k", ascii "v"]

/-- The first SET has no deadline. -/
theorem ttlFree_firstSet : TtlFree firstSet := by decide

/-- The SET has no deadline. -/
theorem ttlFree_setCommand : TtlFree setCommand := by decide

/-- A key is set, a replica asks for a resync and gets it, and another key is set. -/
theorem replica_mirrors_single :
    ∃ evs sys l, Runs System.step Streamed { server := started {} default } evs sys ∧
      sys.server.master.links.get? 7 = some l ∧
      (sys.server.store.live sys.now).keys = [ascii "k", ascii "a"] ∧
      (mirror (started {} default) (fun _ => 0) (endOf (Session.run {} 0 (greetingChunks ++
          [lineChunk, snapshotChunk, encodeCommand setCommand])))).store.entries =
        sys.server.store.live sys.now ∧
      ∀ front back, [lineChunk, snapshotChunk, encodeCommand setCommand] = front ++ back →
        mirror (started {} default) (fun _ => 0)
            (endOf (Session.run {} 0 (greetingChunks ++ front))) = started {} default ∨
        ∃ k, (mirror (started {} default) (fun _ => 0)
            (endOf (Session.run {} 0 (greetingChunks ++ front)))).store.entries =
          replay ([setCommand].take k) singleEntry := by
  have h₁ := (@Runs.start _ _ _ System.step Streamed { server := started {} default }).step
    (a := Action.command 1 firstSet {}) ttlFree_firstSet rfl
  have h₂ := h₁.step (a := Action.append .none) (Eq.refl WriteFault.none) rfl
  have h₃ := h₂.step (a := Action.propagate fun _ => false) trivial rfl
  have h₄ := h₃.step (a := Action.psync 7) trivial rfl
  have h₅ := h₄.step (a := Action.resyncSend 7) trivial rfl
  have h₆ := h₅.step (a := Action.resyncTake 7) trivial rfl
  have h₇ := h₆.step (a := Action.command 1 setCommand {}) ttlFree_setCommand rfl
  have h₈ := h₇.step (a := Action.append .none) (Eq.refl WriteFault.none) rfl
  have h₉ := h₈.step (a := Action.propagate fun _ => false) trivial rfl
  exact ⟨_, _, _, h₉, rfl, by decide +kernel, replica_mirrors rfl h₉ rfl (c := 7)
    ⟨by decide +kernel, rfl, by decide +kernel⟩ rfl rfl (by decide +kernel)
    replies_greetingChunks (by decide +kernel) deliverable_single handedOver_single 0 rfl _⟩

end ByoRedis.Analysis
