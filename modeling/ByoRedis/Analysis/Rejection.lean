import ByoRedis.Analysis.ReplicationSteps
import ByoRedis.Lib.Trace

/-!
# Commands without effect

Two reasons for a command to leave everything as it was. A command that is answered with an
error, be it by a gate, by its handler or by the memory limit, has not changed what can be
read from the store, although expired entries, and even live ones that the eviction had
already taken, were deleted on the way. And a command outside `WRITE_COMMANDS`, or any
command of a client on a replica, never changes it. `Unmoved` is what the two have in
common, and neither leaves a record for the AOF or the replicas.
-/

set_option autoImplicit false

namespace ByoRedis.Analysis

open ByoRedis.Model ByoRedis.Lib ByoRedis.Interface

variable {srv srv' : Server} {env : Env} {flags : Flags} {conn : ℕ} {argv : Command}

/-! ## What stays -/

/-- Looking at a store changes nothing that can be read from it, now or later. -/
theorem Looks.live_later {now t : ℤ} {s s' : Store} (h : Looks now s s') (ht : now ≤ t) :
    s'.live t = s.live t := by
  calc s'.live t = liveAt t (s'.live now) := (liveAt_liveAt ht s'.entries).symm
    _ = liveAt t (s.live now) := by rw [h.live]
    _ = s.live t := liveAt_liveAt ht s.entries

/-- Nothing that a client, the AOF or a replica can see has changed: the live entries with
their order, values and deadlines at any time from now on, the AOF, and the replication
offset with every link, except that PSYNC touches the link of its own connection. -/
structure Unmoved (now : ℤ) (conn : ℕ) (argv : Command) (srv srv' : Server) : Prop where
  live : ∀ t, now ≤ t → srv'.store.live t = srv.store.live t
  aof : srv'.aof = srv.aof
  offset : srv'.master.offset = srv.master.offset
  links : ∀ c, upperName argv ≠ ascii "PSYNC" ∨ c ≠ conn →
    srv'.master.links.get? c = srv.master.links.get? c

/-- A failure on a server whose store was only looked at. -/
theorem unmoved_fail {now : ℤ} {s : Store} (h : Looks now srv.store s) (m : Str) :
    Unmoved now conn argv srv (({ srv with store := s } : Server).fail m).2 :=
  ⟨fun _ ht => h.live_later ht, rfl, rfl, fun _ _ => rfl⟩

/-! ## PSYNC of a replica's client -/

/-- The offset and the links of other connections. -/
def KeepsOthers (conn : ℕ) (m m' : MasterReplication) : Prop :=
  m'.offset = m.offset ∧ ∀ c, c ≠ conn → m'.links.get? c = m.links.get? c

/-- Two steps that keep the other links. -/
theorem KeepsOthers.trans {conn : ℕ} {m m' m'' : MasterReplication}
    (h : KeepsOthers conn m m') (h' : KeepsOthers conn m' m'') : KeepsOthers conn m m'' :=
  ⟨h'.1.trans h.1, fun c hc => (h'.2 c hc).trans (h.2 c hc)⟩

/-- An update of a link keeps the others. -/
theorem keepsOthers_setLink (m : MasterReplication) (l : ReplicaLink) :
    KeepsOthers conn m (m.setLink conn l) :=
  ⟨rfl, fun _ hc => Dict.get?_insert_of_ne _ _ hc⟩

/-- A registration keeps the other links. -/
theorem keepsOthers_registerSyncing (m : MasterReplication) (conn : ℕ) :
    KeepsOthers conn m (m.registerSyncing conn) :=
  keepsOthers_setLink m _

/-- An unregistration keeps the other links. -/
theorem keepsOthers_unregister (m : MasterReplication) :
    KeepsOthers conn m (m.unregister conn) := by
  unfold MasterReplication.unregister
  split_ifs
  · split
    · exact ⟨rfl, fun _ _ => rfl⟩
    · exact keepsOthers_setLink m _
  · exact ⟨rfl, fun _ _ => rfl⟩

/-- A write keeps the other links. -/
theorem keepsOthers_writeLink (m : MasterReplication) (data : Bytes) :
    KeepsOthers conn m (m.writeLink conn data) := by
  unfold MasterReplication.writeLink
  split
  · exact ⟨rfl, fun _ _ => rfl⟩
  · exact keepsOthers_setLink m _

/-- Taking a backlog keeps the other links. -/
theorem keepsOthers_takeBatch (m : MasterReplication) :
    KeepsOthers conn m (m.takeBatch conn).2 := by
  unfold MasterReplication.takeBatch
  split
  · exact ⟨rfl, fun _ _ => rfl⟩
  · split_ifs
    · exact keepsOthers_setLink m _
    · exact keepsOthers_setLink m _

/-- SOURCE: replication/master.py:126-204 -/
theorem keepsOthers_fullResync (srv : Server) (now : ℤ) (conn : ℕ) :
    KeepsOthers conn srv.master (srv.fullResync now conn).2.master := by
  have hreg := keepsOthers_registerSyncing srv.master conn
  unfold Server.fullResync
  dsimp only
  split
  · exact hreg.trans (keepsOthers_unregister _)
  · exact (hreg.trans (keepsOthers_writeLink _ _)).trans (keepsOthers_takeBatch _)

/-- SOURCE: commands/repl_cmds.py:16-20 -/
theorem keepsOthers_cmdPsync (srv : Server) (env : Env) (conn : ℕ) (argv : Command) :
    KeepsOthers conn srv.master (srv.cmdPsync env conn argv).2.master := by
  have hfull := keepsOthers_fullResync srv env.now conn
  unfold Server.cmdPsync
  by_cases h1 : argv.length ≠ 3
  · rw [if_pos h1]
    exact ⟨rfl, fun _ _ => rfl⟩
  rw [if_neg h1]
  by_cases h2 : conn ∉ srv.connections
  · rw [if_pos h2]
    exact ⟨rfl, fun _ _ => rfl⟩
  rw [if_neg h2]
  rcases hr : srv.fullResync env.now conn with ⟨b, srv'⟩
  rw [hr] at hfull
  cases b <;> exact hfull

/-- A command called PSYNC goes to its handler. -/
theorem keepsOthers_dispatch (srv : Server) (env : Env) (flags : Flags) (conn : ℕ)
    (hr : isWrite argv = false) :
    KeepsOthers conn srv.master (srv.dispatch env flags conn argv).2.master := by
  by_cases hp : upperName argv = ascii "PSYNC"
  · cases argv with
    | nil => exact ⟨rfl, fun _ _ => rfl⟩
    | cons name args =>
      have hname : upper name = ascii "PSYNC" := hp
      have hl : CommandName.lookup name = some .psync := by
        have : CommandName.lookup name =
            CommandName.registered.find? fun c => decide (c.text = upper name) := rfl
        rw [this, hname]
        rfl
      simp only [Server.dispatch, hl, hr, Bool.and_false, Bool.false_and]
      exact keepsOthers_cmdPsync srv env conn _
  · rw [(dispatch_frame srv env flags conn hr).master hp]
    exact ⟨rfl, fun _ _ => rfl⟩

/-! ## Commands outside `WRITE_COMMANDS` -/

/-- What `prepare` does to the replication state is what the handler does. -/
theorem keepsOthers_prepare (srv : Server) (env : Env) (flags : Flags) (conn : ℕ)
    (hr : isWrite argv = false) :
    KeepsOthers conn srv.master (srv.prepare env flags conn argv).2.master := by
  have hd := keepsOthers_dispatch srv env flags conn hr
  by_cases hgate : srv.noauth flags conn argv = true ∨ srv.misconf flags argv = true
  · obtain ⟨m, hm⟩ := prepare_gated env hgate
    rw [hm]
    exact ⟨rfl, fun _ _ => rfl⟩
  rw [not_or, Bool.not_eq_true, Bool.not_eq_true] at hgate
  unfold Server.prepare
  rw [hgate.1, hgate.2, hr]
  simp only [Bool.false_eq_true, if_false]
  rcases hx : srv.dispatch env flags conn argv with ⟨r, srv'⟩
  rw [hx] at hd
  cases r with
  | error m => exact hd
  | internal => exact hd
  | noReply =>
    simp only [Server.settle, hr, Bool.false_eq_true, if_false]
    exact hd
  | value v =>
    simp only [Server.settle, hr, Bool.false_eq_true, if_false]
    exact hd

/-- SOURCE: server.py:436-535 -/
theorem prepare_read_unmoved (srv : Server) (env : Env) (flags : Flags) (conn : ℕ)
    (hr : isWrite argv = false) :
    ∃ reply srv', srv.prepare env flags conn argv = (.done reply, srv') ∧
      Unmoved env.now conn argv srv srv' := by
  obtain ⟨reply, srv', hp, hframe⟩ := prepare_read srv env flags conn hr
  have hothers := keepsOthers_prepare srv env flags conn hr
  rw [hp] at hothers
  refine ⟨reply, srv', hp, ⟨fun _ ht => hframe.store.live_later ht, hframe.aof, hothers.1, ?_⟩⟩
  rintro c (hname | hc)
  · rw [hframe.master hname]
  · exact hothers.2 c hc

variable {sys sys' start : System} {a : Action} {es evs : List Event}

/-- No value is encoded like an error.
SOURCE: protocol/encoder.py:14-18, 47-79 -/
theorem encodeValue_ne_encodeError (v : PyValue) (m : Str) : encodeValue v ≠ encodeError m := by
  have herror : (encodeError m).head? = some 45 := rfl
  intro h
  rw [← h] at herror
  cases v with
  | none => exact absurd herror (by decide)
  | bool b => exact absurd herror (by simp [encodeValue, encodeInteger, ascii])
  | int i => exact absurd herror (by simp [encodeValue, encodeInteger, ascii])
  | bytes b => exact absurd herror (by simp [encodeValue, encodeBulkString, ascii])
  | str s => exact absurd herror (by simp [encodeValue, encodeBulkString, ascii])
  | list items => exact absurd herror (by simp [encodeValue, arrayHeader, ascii])
  | simple s =>
    have hs : encodeValue (.simple s) = ascii "+" ++ s.text ++ crlf := by
      rw [encodeValue, encodeSimpleString, if_neg (not_or.mpr ⟨s.noCr, s.noLf⟩), Option.getD_some]
    rw [hs] at herror
    exact absurd herror (by simp [ascii])

/-- An accepted write is never answered with an error before its records are committed. -/
theorem hooks_ne_error (evicted : List Bytes) (v : PyValue) (m : Str) :
    srv.hooks flags argv evicted v ≠ .done (some (encodeError m)) := by
  unfold Server.hooks
  split_ifs
  · intro h
    cases h
  · intro h
    cases h
  · intro h
    injection h with h
    exact encodeValue_ne_encodeError v m (Option.some.inj h)

/-- A write that is answered with an error has only looked at the store. -/
theorem prepare_write_rejected (hw : isWrite argv = true) {m : Str}
    (h : (srv.prepare env flags conn argv).1 = .done (some (encodeError m))) :
    ∃ m' s, srv.prepare env flags conn argv = ({ srv with store := s } : Server).fail m' ∧
      Looks env.now srv.store s := by
  by_cases hgate : srv.noauth flags conn argv = true ∨ srv.misconf flags argv = true
  · obtain ⟨m', hm⟩ := prepare_gated env hgate
    exact ⟨m', srv.store, hm, Looks.refl _ _⟩
  rw [not_or, Bool.not_eq_true, Bool.not_eq_true] at hgate
  cases hro : srv.config.isReplica && !flags.isReplicaClient && !flags.isLoading with
  | true => exact prepare_readonly env hw hro
  | false =>
    have hout := prepare_write env hw (Admitted.mk hgate.1 hgate.2 hro)
    have hlimits := hout.limits hw
    generalize srv.prepare env flags conn argv = r at h hout hlimits
    cases hout with
    | refused m' heff herr hent => exact ⟨m', _, rfl, looks_of_entries hlimits hent⟩
    | oom d s heff hlim => exact ⟨Server.oomError, _, rfl, looks_of_entries hlimits rfl⟩
    | accepted d evicted v s heff hlim => exact absurd h (hooks_ne_error evicted v m)

/-- **A rejected command has no effect.** `prepare` is `_execute` up to its first await, so
its errors are those of the gates, of dispatch and of the memory limit. Whatever the limit
and the policy, the keys that an eviction had already deleted included, the live keyspace is
what it was, and nothing is appended or propagated.
SOURCE: server.py:437-494 -/
theorem rejected_without_effect (srv : Server) (env : Env) (flags : Flags) (conn : ℕ)
    (argv : Command) (ios : List RecordIO) (m : Str)
    (h : (srv.prepare env flags conn argv).1 = .done (some (encodeError m))) :
    (srv.execute env flags conn argv ios).reply = some (encodeError m) ∧
    (srv.execute env flags conn argv ios).records = [] ∧
    Unmoved env.now conn argv srv (srv.execute env flags conn argv ios).server := by
  rcases hp : srv.prepare env flags conn argv with ⟨p, srv'⟩
  have hdone : p = .done (some (encodeError m)) := by
    rw [hp] at h
    exact h
  subst hdone
  rw [execute_of_done hp ios]
  refine ⟨rfl, rfl, ?_⟩
  cases hw : isWrite argv with
  | false =>
    obtain ⟨reply, srv'', hp', hsame⟩ := prepare_read_unmoved srv env flags conn hw
    rw [hp] at hp'
    cases hp'
    exact hsame
  | true =>
    obtain ⟨m', s, hp', hlooks⟩ := prepare_write_rejected hw h
    rw [hp] at hp'
    have hsrv : srv' = (({ srv with store := s } : Server).fail m').2 := congrArg Prod.snd hp'
    rw [hsrv]
    exact unmoved_fail hlooks m'

/-- A master under `volatile-ttl` with room for one small key, which has a deadline. -/
def tightServer : Server :=
  { Server.init { maxmemoryBytes := 150, maxmemoryPolicy := .volatileTtl } default none none with
    store :=
      { maxmemoryBytes := 150
        maxmemoryPolicy := .volatileTtl
        entries := ⟨[(ascii "a", { type := .string, value := .bytes (ascii "x"),
                                   expireAtMs := some 1000 })], by decide⟩ } }

/-- `SET b` with a value too long for the limit: the key `a` is evicted in vain. -/
def oversizedSet : Command := [ascii "SET", ascii "b", List.replicate 100 120]

/-- The command is refused and the evicted key is back. -/
theorem rejected_after_eviction :
    ((handled 0 oversizedSet tightServer.store).enforceMemoryLimit 0).2.entries.get? (ascii "a") =
      none ∧
    (tightServer.prepare {} .client 0 oversizedSet).1 = .done (some (encodeError Server.oomError)) ∧
    Unmoved 0 0 oversizedSet tightServer
      (tightServer.execute {} .client 0 oversizedSet []).server := by
  have h : (tightServer.prepare {} .client 0 oversizedSet).1 =
      .done (some (encodeError Server.oomError)) := rfl
  exact ⟨by decide +kernel, h, (rejected_without_effect tightServer {} .client 0 oversizedSet []
    Server.oomError h).2.2⟩

end ByoRedis.Analysis
