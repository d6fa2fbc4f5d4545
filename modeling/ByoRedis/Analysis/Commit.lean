import ByoRedis.Analysis.Execution

/-!
# Whole commands

Committing records touches the AOF, the replicas and counters, never the store, so the
store after `_execute` is the one `prepare` left (`store_execute`). `execute_client` and
`execute_applied` are the two views the theorems about logs need: a client's command on a
master whose AOF takes every record, and a logged command applied by a replay or by a
replica.
-/

set_option autoImplicit false

namespace ByoRedis.Analysis

open ByoRedis.Model ByoRedis.Lib ByoRedis.Interface

/-! ## Records -/

/-- An append without a fault succeeds: the AOF is off, not open, or has not failed. -/
def Healthy (cfg : Config) (a : AofLog) : Prop :=
  cfg.aofEnabled = false ∨ a.opened = false ∨ a.failure = none

/-- SOURCE: persistence/aof.py:167-186 -/
theorem append_of_healthy {cfg : Config} {a : AofLog} (h : Healthy cfg a) (argv : Command) :
    ∃ a', a.append cfg argv .none = (.ok (), a') ∧ Healthy cfg a' := by
  unfold AofLog.append
  by_cases hc : (!cfg.aofEnabled || !a.opened) = true
  · exact ⟨a, by rw [if_pos hc], h⟩
  · rw [if_neg hc]
    simp only [Bool.or_eq_true, Bool.not_eq_true', not_or, Bool.not_eq_false] at hc
    rcases h with h | h | h
    · rw [h] at hc; exact absurd hc.1 (by decide)
    · rw [h] at hc; exact absurd hc.2 (by decide)
    · rw [h]
      exact ⟨_, rfl, Or.inr (Or.inr h)⟩

/-- A record does not touch the store. -/
@[simp] theorem store_commit (srv : Server) (p : Bool) (argv : Command) (io : RecordIO) :
    (srv.commit p argv io).2.store = srv.store := by
  unfold Server.commit
  split
  · rfl
  · cases p <;> rfl

/-- A record does not touch the configuration. -/
@[simp] theorem config_commit (srv : Server) (p : Bool) (argv : Command) (io : RecordIO) :
    (srv.commit p argv io).2.config = srv.config := by
  unfold Server.commit
  split
  · rfl
  · cases p <;> rfl

/-- SOURCE: server.py:499-529 -/
theorem commitAll_frame (p : Bool) (cs : List Command) (ios : List RecordIO) (srv : Server) :
    (Server.commitAll p cs ios srv).2.2.store = srv.store ∧
    (Server.commitAll p cs ios srv).2.2.config = srv.config := by
  induction cs generalizing ios srv with
  | nil => exact ⟨rfl, rfl⟩
  | cons argv cs ih =>
    simp only [Server.commitAll]
    rcases hc : srv.commit p argv (ios.headD {}) with ⟨r, srv'⟩
    have hs : srv'.store = srv.store := by rw [← store_commit srv p argv (ios.headD {}), hc]
    have hcfg : srv'.config = srv.config := by
      rw [← config_commit srv p argv (ios.headD {}), hc]
    cases r with
    | error t => exact ⟨hs, hcfg⟩
    | ok u =>
      have h := ih ios.tail srv'
      rw [hs, hcfg] at h
      exact h

/-- Without faults every record is committed.
SOURCE: server.py:499-529 -/
theorem commitAll_of_healthy (p : Bool) (cs : List Command) (srv : Server)
    (h : Healthy srv.config srv.aof) :
    (Server.commitAll p cs [] srv).1 = none ∧ (Server.commitAll p cs [] srv).2.1 = cs ∧
    Healthy (Server.commitAll p cs [] srv).2.2.config (Server.commitAll p cs [] srv).2.2.aof := by
  induction cs generalizing srv with
  | nil => exact ⟨rfl, rfl, h⟩
  | cons argv cs ih =>
    obtain ⟨a', ha, hh⟩ := append_of_healthy h argv
    obtain ⟨srv', hc, hh'⟩ : ∃ srv', srv.commit p argv {} = (.ok (), srv') ∧
        Healthy srv'.config srv'.aof := by
      simp only [Server.commit, ha]
      cases p <;> exact ⟨_, rfl, hh⟩
    simp only [Server.commitAll, List.headD_nil, List.tail_nil, hc]
    obtain ⟨h1, h2, h3⟩ := ih srv' hh'
    exact ⟨h1, by rw [h2], h3⟩

/-! ## The store and the records of a command -/

/-- **The records of a command do not touch the store.** -/
theorem store_execute (srv : Server) (env : Env) (flags : Flags) (conn : ℕ) (argv : Command)
    (ios : List RecordIO) :
    (srv.execute env flags conn argv ios).server.store =
      (srv.prepare env flags conn argv).2.store := by
  unfold Server.execute
  rcases srv.prepare env flags conn argv with ⟨p, srv'⟩
  cases p with
  | done reply => rfl
  | records cs pr reply =>
    have h := (commitAll_frame pr cs ios srv').1
    rcases hc : Server.commitAll pr cs ios srv' with ⟨o, committed, srv''⟩
    rw [hc] at h
    simp only [hc]
    cases o <;> exact h

/-- The records of a command do not touch the configuration. -/
theorem config_execute (srv : Server) (env : Env) (flags : Flags) (conn : ℕ) (argv : Command)
    (ios : List RecordIO) :
    (srv.execute env flags conn argv ios).server.config =
      (srv.prepare env flags conn argv).2.config := by
  unfold Server.execute
  rcases srv.prepare env flags conn argv with ⟨p, srv'⟩
  cases p with
  | done reply => rfl
  | records cs pr reply =>
    have h := (commitAll_frame pr cs ios srv').2
    rcases hc : Server.commitAll pr cs ios srv' with ⟨o, committed, srv''⟩
    rw [hc] at h
    simp only [hc]
    cases o <;> exact h

/-- A command that is answered at once. -/
theorem execute_of_done {srv srv' : Server} {env : Env} {flags : Flags} {conn : ℕ}
    {argv : Command} {reply : Option Bytes}
    (h : srv.prepare env flags conn argv = (.done reply, srv')) (ios : List RecordIO) :
    srv.execute env flags conn argv ios = ⟨reply, [], srv'⟩ := by
  unfold Server.execute
  rw [h]

/-- A command whose records are all taken. -/
theorem execute_of_records {srv srv' : Server} {env : Env} {flags : Flags} {conn : ℕ}
    {argv : Command} {cs : List Command} {p : Bool} {reply : Bytes}
    (h : srv.prepare env flags conn argv = (.records cs p reply, srv'))
    (hh : Healthy srv'.config srv'.aof) :
    ∃ srv'', srv.execute env flags conn argv [] = ⟨some reply, cs, srv''⟩ ∧
      srv''.store = srv'.store ∧ srv''.config = srv'.config ∧
      Healthy srv''.config srv''.aof := by
  have hc := commitAll_of_healthy p cs srv' hh
  have hf := commitAll_frame p cs [] srv'
  rcases hall : Server.commitAll p cs [] srv' with ⟨o, committed, srv''⟩
  rw [hall] at hc hf
  obtain ⟨rfl, rfl, hhealthy⟩ := hc
  refine ⟨srv'', ?_, hf.1, hf.2, hhealthy⟩
  unfold Server.execute
  rw [h]
  simp only [hall]

/-- A write does not touch the configuration. -/
theorem WriteOutcome.config {srv : Server} {env : Env} {flags : Flags} {argv : Command}
    {r : Server.Prepared × Server} (h : WriteOutcome srv env flags argv r) :
    r.2.config = srv.config := by
  cases h <;> rfl

/-- The limits of the store stay what they were.
SOURCE: server.py:466-484 -/
theorem WriteOutcome.limits {srv : Server} {env : Env} {flags : Flags} {argv : Command}
    {r : Server.Prepared × Server} (hw : isWrite argv = true)
    (h : WriteOutcome srv env flags argv r) : SameLimits srv.store r.2.store := by
  have hfresh : Fresh env.now (srv.store.purge env.now).entries := by
    rw [entries_purge]
    exact fresh_live _ _
  have hlim : SameLimits srv.store (handled env.now argv srv.store) :=
    (sameLimits_purge _ _).trans (writeHandler_carries hw hfresh).1
  cases h with
  | refused m heff herr hent => exact hlim
  | oom d s heff hl =>
    obtain ⟨hent, -, hf⟩ := handled_spec hw heff
    have hspec := (enforceMemoryLimit_spec env.now (s := handled env.now argv srv.store)
      (by rw [hent]; exact hf)).1
    rw [hl] at hspec
    exact hlim.trans hspec
  | accepted d evicted v s heff hl => exact (accepted_spec hw heff hl).2.2

/-! ## A client's command on a master -/

/-- A client's write that the gates let through, whose arguments and key are right and for
which there is room. -/
structure Accepted (srv : Server) (env : Env) (conn : ℕ) (argv : Command) : Prop where
  write : isWrite argv = true
  auth : srv.noauth .client conn argv = false
  aof : srv.misconf .client argv = false
  effective : (effect env.now argv (srv.store.live env.now)).isSome = true
  room : ((handled env.now argv srv.store).enforceMemoryLimit env.now).1.isSome = true

/-- What a client's command can do on a master: nothing that is logged, or an accepted
write, whose records are the command and the evictions it caused. -/
inductive ClientStep (srv : Server) (env : Env) (conn : ℕ) (argv : Command)
    (x : Server.Execution) : Prop where
  | silent (hnot : ¬ Accepted srv env conn argv) (hrec : x.records = [])
      (hwrite : isWrite argv = true → x.server.store.entries = srv.store.entries ∨
        x.server.store.entries = srv.store.live env.now)
      (hfresh : Fresh env.now srv.store.entries → x.server.store.entries = srv.store.entries)
  | logged (d : Entries) (evicted : List Bytes) (hacc : Accepted srv env conn argv)
      (heff : effect env.now argv (srv.store.live env.now) = some d)
      (hlim : (handled env.now argv srv.store).enforceMemoryLimit env.now =
        (some evicted, x.server.store))
      (hrec : x.records = argv :: evicted.map Server.evictionRecord)

/-- What every command keeps: the configuration, the limits of the store, and an AOF that
takes records. -/
structure Steady (srv srv' : Server) : Prop where
  config : srv'.config = srv.config
  limits : SameLimits srv.store srv'.store
  healthy : Healthy srv.config srv.aof → Healthy srv'.config srv'.aof

/-- A read leaves the settings and the links as they are. -/
theorem ReadFrame.steady {now : ℤ} {argv : Command} {srv srv' : Server}
    (h : ReadFrame now argv srv srv') : Steady srv srv' :=
  ⟨h.config, h.store.limits, fun hh => by rw [h.config, h.aof]; exact hh⟩

/-- **A client's command on a master whose AOF takes every record.**
SOURCE: server.py:409-535 -/
theorem execute_client {srv : Server} (env : Env) (conn : ℕ) (argv : Command)
    (hrole : srv.config.isReplica = false) (hh : Healthy srv.config srv.aof) :
    ClientStep srv env conn argv (srv.execute env .client conn argv []) ∧
    Steady srv (srv.execute env .client conn argv []).server := by
  by_cases hgate : srv.noauth .client conn argv = true ∨ srv.misconf .client argv = true
  · obtain ⟨m, hm⟩ := prepare_gated env hgate
    have hnot : ¬ Accepted srv env conn argv := by
      intro h
      rcases hgate with hg | hg
      · rw [h.auth] at hg; cases hg
      · rw [h.aof] at hg; cases hg
    rw [execute_of_done hm]
    exact ⟨.silent hnot rfl (fun _ => Or.inl rfl) (fun _ => rfl), ⟨rfl, SameLimits.refl _, id⟩⟩
  cases hw : isWrite argv with
  | false =>
    obtain ⟨reply, srv', hp, hfr⟩ := prepare_read srv env .client conn hw
    rw [execute_of_done hp]
    have hnot : ¬ Accepted srv env conn argv := by
      intro h
      rw [h.write] at hw
      cases hw
    refine ⟨.silent hnot rfl (fun h => ?_) hfr.store.entries, hfr.steady⟩
    rw [hw] at h
    cases h
  | true =>
    rw [not_or, Bool.not_eq_true, Bool.not_eq_true] at hgate
    have hadm : Admitted srv .client conn argv := ⟨hgate.1, hgate.2, by rw [hrole]; rfl⟩
    have hout := prepare_write env hw hadm
    have hlimits := hout.limits hw
    generalize hr : srv.prepare env .client conn argv = r at hout hlimits
    cases hout with
    | refused m heff herr hent =>
      have hnot : ¬ Accepted srv env conn argv := by
        intro h
        have := h.effective
        rw [heff] at this
        cases this
      rw [execute_of_done hr]
      refine ⟨.silent hnot rfl (fun _ => Or.inr hent) (fun hf => ?_), ⟨rfl, hlimits, id⟩⟩
      rw [← live_of_fresh hf]
      exact hent
    | oom d s heff hl =>
      have hnot : ¬ Accepted srv env conn argv := by
        intro h
        have := h.room
        rw [hl] at this
        cases this
      rw [execute_of_done hr]
      refine ⟨.silent hnot rfl (fun _ => Or.inr rfl) (fun hf => ?_), ⟨rfl, hlimits, id⟩⟩
      rw [← live_of_fresh hf]
      rfl
    | accepted d evicted v s heff hl =>
      have hhooks : srv.hooks .client argv evicted v =
          .records (argv :: evicted.map Server.evictionRecord) true (encodeValue v) := by
        simp [Server.hooks, hw, hrole, Flags.client]
      rw [hhooks] at hr
      obtain ⟨srv'', hx, hst, hcfg, hhealthy⟩ := execute_of_records hr hh
      have hacc : Accepted srv env conn argv :=
        ⟨hw, hgate.1, hgate.2, by rw [heff]; rfl, by rw [hl]; rfl⟩
      rw [hx]
      refine ⟨.logged d evicted hacc heff ?_ rfl, ⟨hcfg, ?_, fun _ => hhealthy⟩⟩
      · rw [hl]
        exact congrArg (Prod.mk (some evicted)) hst.symm
      · show SameLimits srv.store srv''.store
        rw [hst]
        exact hlimits

/-! ## A logged command applied elsewhere -/

/-- The commands of a replay and of a replica's link pass every gate. -/
theorem admitted_of_replicaClient (srv : Server) {flags : Flags} (conn : ℕ) (argv : Command)
    (hf : flags.isReplicaClient = true) : Admitted srv flags conn argv := by
  constructor <;> simp [Server.noauth, Server.misconf, hf]

/-- **A write command applied by AOF replay or on a replica's link**, whatever becomes of
the record in the replica's own AOF.
SOURCE: server.py:231-232, 577-578 -/
theorem execute_applied (srv : Server) (env : Env) {flags : Flags} (conn : ℕ) {argv : Command}
    (hf : flags.isReplicaClient = true) (hw : isWrite argv = true) (ios : List RecordIO) :
    WriteOutcome srv env flags argv (srv.prepare env flags conn argv) ∧
    (srv.execute env flags conn argv ios).server.store =
      (srv.prepare env flags conn argv).2.store ∧
    (srv.execute env flags conn argv ios).server.config = srv.config ∧
    SameLimits srv.store (srv.execute env flags conn argv ios).server.store := by
  have hout := prepare_write env hw
    (admitted_of_replicaClient srv conn argv hf)
  rw [store_execute, config_execute]
  exact ⟨hout, rfl, hout.config, hout.limits hw⟩

/-- Without a memory limit the entries after an applied command are its effect.
SOURCE: server.py:466-479 -/
theorem entries_execute_applied (srv : Server) (env : Env) {flags : Flags} (conn : ℕ)
    {argv : Command} (hf : flags.isReplicaClient = true) (hw : isWrite argv = true)
    (h0 : srv.store.maxmemoryBytes = 0) (ios : List RecordIO) :
    (srv.execute env flags conn argv ios).server.store.entries =
      (effect env.now argv (srv.store.live env.now)).getD (srv.store.live env.now) := by
  obtain ⟨hout, hst, -, -⟩ := execute_applied srv env conn hf hw ios
  rw [hst]
  have hunl : ∀ d, effect env.now argv (srv.store.live env.now) = some d →
      (handled env.now argv srv.store).enforceMemoryLimit env.now =
        (some [], handled env.now argv srv.store) := by
    intro d heff
    obtain ⟨-, hsame, -⟩ := handled_spec hw heff
    exact enforceMemoryLimit_unlimited (by rw [hsame.1, h0]) env.now
  generalize srv.prepare env flags conn argv = r at hout
  cases hout with
  | refused m heff herr hent =>
    rw [heff]
    exact hent
  | oom d s heff hl =>
    rw [hunl d heff] at hl
    cases hl
  | accepted d evicted v s heff hl =>
    rw [hunl d heff] at hl
    cases hl
    rw [heff]
    exact (handled_spec hw heff).1

end ByoRedis.Analysis
