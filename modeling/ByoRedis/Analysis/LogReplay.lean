import ByoRedis.Analysis.Commit

/-!
# Logs of commands without TTL

Over any run of client commands without TTL on a master, under any memory limit, the
keyspace is the replay of the records the run committed (`entries_serve`). The same
records applied one by one to a server without a memory limit, by a replay of the AOF or
on a replica's link, have the same effect there (`entries_applyLog`).
-/

set_option autoImplicit false

namespace ByoRedis.Analysis

open ByoRedis.Model ByoRedis.Lib ByoRedis.Interface

/-- A command as a client sends it: what the environment decides, the connection and the
arguments. -/
structure Call where
  env : Env := {}
  conn : ℕ := 0
  argv : Command

/-- A run of client commands without AOF faults: the records committed, in order, and the
server afterwards. -/
def serve (srv : Server) : List Call → List Command × Server
  | [] => ([], srv)
  | c :: cs =>
    let x := srv.execute c.env .client c.conn c.argv []
    let r := serve x.server cs
    (x.records ++ r.1, r.2)

/-- A log applied to a server, command `i` at time `clock i`. With `Flags.loading` this is
`replay_aof`, with `Flags.replicated` the link to the master. -/
def applyLog (flags : Flags) (clock : ℕ → ℤ) : List Command → Server → Server
  | [], srv => srv
  | argv :: log, srv =>
    applyLog flags (fun i => clock (i + 1)) log
      (srv.execute { now := clock 0 } flags 0 argv []).server

/-- SOURCE: persistence/aof.py:302-317 -/
theorem replayAof_eq_applyLog (clock : ℕ → ℤ) (log : List Command) (srv : Server) :
    Server.replayAof clock log srv = applyLog .loading clock log srv := by
  induction log generalizing clock srv with
  | nil => rfl
  | cons argv log ih => exact ih _ _

/-- A command that can stand in a log: a write without TTL. -/
structure Loggable (argv : Command) : Prop where
  write : isWrite argv = true
  ttlFree : TtlFree argv

/-- The record of an eviction can be logged. -/
theorem loggable_evictionRecord (key : Bytes) : Loggable (Server.evictionRecord key) := by
  refine ⟨isWrite_evictionRecord key, ?_⟩
  intro w hw
  have hdel : Write.ofCommand (Server.evictionRecord key) = some (.del [key]) := rfl
  rw [hdel] at hw
  cases hw
  trivial

/-! ## The master -/

/-- A master without deadlines whose AOF takes every record. -/
structure Settled (srv : Server) : Prop where
  role : srv.config.isReplica = false
  healthy : Healthy srv.config srv.aof
  timeless : Timeless srv.store.entries

/-- The records of evictions delete the keys, whenever they take effect. -/
theorem foldl_evictions (t : ℤ) (evicted : List Bytes) (d : Entries) :
    (evicted.map Server.evictionRecord).foldl (fun d r => (effect t r d).getD d) d =
      d.eraseMany evicted := by
  induction evicted generalizing d with
  | nil => rfl
  | cons k evicted ih =>
    rw [List.map_cons, Dict.eraseMany_cons, ← ih, List.foldl_cons, effect_evictionRecord]
    rfl

/-- The records of the evictions erase the victims. -/
theorem replay_evictions (evicted : List Bytes) (d : Entries) :
    replay (evicted.map Server.evictionRecord) d = d.eraseMany evicted :=
  foldl_evictions 0 evicted d

/-- The replay of a record with an effect goes on from there. -/
theorem replay_cons_of_effect {argv : Command} {d d' : Entries} {log : List Command}
    (h : effect 0 argv d = some d') : replay (argv :: log) d = replay log d' := by
  show replay log ((effect 0 argv d).getD d) = _
  rw [h]
  rfl

/-- One client command: the keyspace afterwards is the replay of its records.
SOURCE: server.py:475-529 -/
theorem settled_execute {srv : Server} (h : Settled srv) (c : Call) (ht : TtlFree c.argv) :
    Settled (srv.execute c.env .client c.conn c.argv []).server ∧
    (srv.execute c.env .client c.conn c.argv []).server.store.entries =
      replay (srv.execute c.env .client c.conn c.argv []).records srv.store.entries ∧
    ∀ r ∈ (srv.execute c.env .client c.conn c.argv []).records, Loggable r := by
  have hfresh := h.timeless.fresh c.env.now
  obtain ⟨hstep, hsteady⟩ := execute_client c.env c.conn c.argv
    h.role h.healthy
  have hrole := h.role
  rw [← hsteady.config] at hrole
  cases hstep with
  | silent hnot hrec hwrite hkeep =>
    have hent := hkeep hfresh
    refine ⟨⟨hrole, hsteady.healthy h.healthy, by rw [hent]; exact h.timeless⟩, ?_, ?_⟩
    · rw [hrec]
      exact hent
    · rw [hrec]
      simp
  | logged d evicted hacc heff hlim hrec =>
    have hw := hacc.write
    obtain ⟨hent, -, -⟩ := accepted_spec hw heff hlim
    rw [live_of_fresh hfresh] at heff
    have htd := h.timeless.effect ht heff
    refine ⟨⟨hrole, hsteady.healthy h.healthy, by rw [hent]; exact htd.eraseMany evicted⟩, ?_, ?_⟩
    · rw [hrec, hent, replay_cons_of_effect ((effect_of_ttlFree ht 0 c.env.now _).trans heff),
        replay_evictions]
    · rw [hrec]
      intro r hr
      rcases List.mem_cons.mp hr with rfl | hr
      · exact ⟨hw, ht⟩
      · obtain ⟨k, -, rfl⟩ := List.mem_map.mp hr
        exact loggable_evictionRecord k

/-- **The keyspace of a master is the replay of what it logged.**
SOURCE: server.py:475-529 -/
theorem entries_serve {srv : Server} (h : Settled srv) (calls : List Call)
    (ht : ∀ c ∈ calls, TtlFree c.argv) :
    Settled (serve srv calls).2 ∧
    (serve srv calls).2.store.entries = replay (serve srv calls).1 srv.store.entries ∧
    ∀ r ∈ (serve srv calls).1, Loggable r := by
  induction calls generalizing srv with
  | nil => exact ⟨h, rfl, by simp [serve]⟩
  | cons c calls ih =>
    obtain ⟨h1, h2, h3⟩ := settled_execute h c (ht c (by simp))
    obtain ⟨h4, h5, h6⟩ := ih h1 (fun c' hc' => ht c' (List.mem_cons_of_mem _ hc'))
    refine ⟨h4, ?_, ?_⟩
    · simp only [serve]
      rw [replay_append, ← h2]
      exact h5
    · intro r hr
      rcases List.mem_append.mp hr with hr | hr
      · exact h3 r hr
      · exact h6 r hr

/-! ## The server the log is applied to -/

/-- **A log has its effect on every server without a memory limit**, at whatever times it
is applied.
SOURCE: server.py:231-232, 577-578 -/
theorem entries_applyLog {flags : Flags} (hf : flags.isReplicaClient = true)
    (clock : ℕ → ℤ) (log : List Command) (hlog : ∀ r ∈ log, Loggable r) (srv : Server)
    (h0 : srv.store.maxmemoryBytes = 0) (ht : Timeless srv.store.entries) :
    (applyLog flags clock log srv).store.entries = replay log srv.store.entries ∧
    (applyLog flags clock log srv).config = srv.config ∧
    SameLimits srv.store (applyLog flags clock log srv).store := by
  induction log generalizing clock srv with
  | nil => exact ⟨rfl, rfl, SameLimits.refl _⟩
  | cons argv log ih =>
    obtain ⟨hw, hfree⟩ := hlog argv (by simp)
    have hent := entries_execute_applied srv { now := clock 0 } 0
      hf hw h0 []
    obtain ⟨-, -, hcfg, hlim⟩ := execute_applied srv { now := clock 0 } 0 hf hw []
    simp only at hent
    rw [live_of_fresh (ht.fresh _), effect_of_ttlFree hfree (clock 0) 0] at hent
    have ht' : Timeless (srv.execute { now := clock 0 } flags 0 argv []).server.store.entries := by
      rw [hent]
      cases heff : effect 0 argv srv.store.entries with
      | none => exact ht
      | some d => exact ht.effect hfree heff
    obtain ⟨h1, h2, h3⟩ := ih (fun i => clock (i + 1))
      (fun r hr => hlog r (List.mem_cons_of_mem _ hr)) _ (hlim.1.trans h0) ht'
    refine ⟨?_, h2.trans hcfg, hlim.trans h3⟩
    show (applyLog flags _ log _).store.entries = replay log _
    rw [h1, hent]

/-! ## The first start -/

/-- The server that `start` leaves in an empty data directory. -/
def started (cfg : Config) (replid : Replid) : Server :=
  { Server.init cfg replid none none with aof := AofLog.openLog cfg {} }

/-- SOURCE: server.py:125-135, 226-248 -/
theorem start_empty (cfg : Config) (replid : Replid) (clock : ℕ → ℤ) :
    Server.start cfg replid none none clock = .ok (started cfg replid) := by
  simp [Server.start, Server.loadPersistence, Server.init, Server.hasContent, started, Except.map]

/-- A master that was just started is settled. -/
theorem settled_started {cfg : Config} (replid : Replid) (hrole : cfg.isReplica = false) :
    Settled (started cfg replid) := by
  refine ⟨hrole, ?_, timeless_empty⟩
  cases hen : cfg.aofEnabled with
  | false => exact Or.inl hen
  | true => exact Or.inr (Or.inr (by simp [started, AofLog.openLog, hen]))

end ByoRedis.Analysis
