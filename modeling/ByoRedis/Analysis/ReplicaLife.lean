import ByoRedis.Model.ReplicaClient
import ByoRedis.Analysis.Execution
import ByoRedis.Analysis.ReplicaStream
import ByoRedis.Analysis.SessionPrefix
import ByoRedis.Lib.Trace

/-!
# The life of a replica client

What a replica client does over any number of sessions, whoever is at the other end and
whatever arrives. A session never ends but by an exception, so the pause between two attempts
only grows: it is not set back after a session that went well. In each session at most one
snapshot is loaded, in front of every command, and the link is up from there until the session
ends.
-/

set_option autoImplicit false

namespace ByoRedis.Analysis

open ByoRedis.Model ByoRedis.Lib

/-! ## One session -/

/-- The session is what the end of the reader leaves. -/
theorem session_eq_endOf {α : Type} (p : Progress α) : p.session = endOf p := by
  cases p <;> rfl

/-- `_read_loop` goes on until it raises.
SOURCE: replication/replica.py:201-210 -/
theorem readLoop_ne_ok (s : Session) (chunks : List Bytes) (u : Unit) (s' : Session) :
    s.readLoop chunks ≠ .ok u s' := by
  induction chunks generalizing s with
  | nil =>
    intro h
    cases h
  | cons data rest ih =>
    intro h
    unfold Session.readLoop at h
    split_ifs at h with hempty
    cases hr : Session.feedAndApply data { s with chunks := rest } with
    | waiting s₁ =>
      rw [hr] at h
      cases h
    | failed e s₁ =>
      rw [hr] at h
      cases h
    | ok v s₁ =>
      rw [hr] at h
      exact ih s₁ h

/-- **A session does not return.**
SOURCE: replication/replica.py:83-96 -/
theorem run_ne_ok (cfg : ReplicaConfig) (now : ℤ) (chunks : List Bytes) (u : Unit) (s : Session) :
    Session.run cfg now chunks ≠ .ok u s := by
  intro h
  rw [run_eq, wholeSession] at h
  obtain ⟨-, s₁, -, h⟩ := ok_of_andThen h
  obtain ⟨-, s₂, -, h⟩ := ok_of_andThen h
  exact readLoop_ne_ok _ _ _ _ h

/-- Nothing is applied in front of a snapshot.
SOURCE: replication/replica.py:89-90 -/
theorem applied_of_not_loaded {cfg : ReplicaConfig} {now : ℤ} {chunks : List Bytes}
    (h : (Session.run cfg now chunks).session.loaded = none) :
    (Session.run cfg now chunks).session.applied = [] := by
  rw [session_eq_endOf] at h ⊢
  obtain hsame | ⟨d, -, hd⟩ := run_cases cfg now chunks
  · rw [hsame]
    exact (@prelude_handshake cfg now).applied (connected cfg chunks)
  · rw [hd] at h
    cases h

/-- A session starts without a snapshot. -/
theorem loaded_of_run_nil (cfg : ReplicaConfig) (now : ℤ) :
    (Session.run cfg now []).session.loaded = none := by
  unfold Session.run Session.handshake
  cases cfg.masterauth <;> rfl

/-- What a chunk adds to a session: nothing in front of the snapshot; the snapshot and
commands; or commands only. -/
inductive Added (before after : Session) : Prop where
  | unloaded (hbefore : before.loaded = none) (hafter : after.loaded = none)
      (hnone : before.applied = []) (hcmds : after.applied = [])
  | loaded (d : Entries) (hbefore : before.loaded = none) (hafter : after.loaded = some d)
      (hnone : before.applied = [])
  | further (d : Entries) (hbefore : before.loaded = some d) (hafter : after.loaded = some d)
      (hfront : before.applied <+: after.applied)

/-- What one more chunk adds to a session. -/
theorem added_of_receive (cfg : ReplicaConfig) (loadTime now : ℤ) (chunks : List Bytes)
    (data : Bytes) {before : Session}
    (hbefore : before = (Session.run cfg loadTime chunks).session) {time : ℤ}
    (htime : time = if before.loaded.isSome then loadTime else now) :
    Added before (Session.run cfg time (chunks ++ [data])).session := by
  cases hb : before.loaded with
  | none =>
    have hnone : before.applied = [] := by
      subst hbefore
      exact applied_of_not_loaded hb
    cases ha : (Session.run cfg time (chunks ++ [data])).session.loaded with
    | none => exact .unloaded hb ha hnone (applied_of_not_loaded ha)
    | some d => exact .loaded d hb ha hnone
  | some d =>
    rw [hb] at htime
    have hsame : time = loadTime := htime
    subst hsame
    subst hbefore
    have hgrown := run_grown cfg time chunks [data]
    rw [← session_eq_endOf, ← session_eq_endOf] at hgrown
    exact .further d hb (hgrown.loaded d hb) hgrown.applied

/-! ## The link status -/

section LinkStatus

variable (srv : Server) (env : Env) (flags : Flags) (conn : ℕ) (argv : Command)

/-- SOURCE: commands/registry.py:60-98 -/
theorem linkUp_handle (c : CommandName) :
    (srv.handle env conn argv c).2.replicaLinkUp = srv.replicaLinkUp := by
  cases c with
  | auth =>
    simp only [Server.handle, Server.cmdAuth]
    split
    · split_ifs
      · rfl
      · cases hpass : srv.config.requirepass with
        | none => simp only [Server.authenticate, hpass]
        | some configured =>
          simp only [Server.authenticate, hpass]
          split_ifs <;> rfl
    · rfl
  | info =>
    simp only [Server.handle, Server.cmdInfo]
    split_ifs <;> rfl
  | save =>
    simp only [Server.handle, Server.cmdSave]
    split_ifs
    · rfl
    · split
      · rfl
      · split <;> rfl
  | bgsave =>
    simp only [Server.handle, Server.cmdBgsave]
    split_ifs <;> rfl
  | bgrewriteaof =>
    simp only [Server.handle, Server.cmdBgrewriteaof]
    split_ifs <;> rfl
  | psync =>
    have hsame : (srv.fullResync env.now conn).2.replicaLinkUp = srv.replicaLinkUp := by
      unfold Server.fullResync
      dsimp only
      cases dumpRdbEntries (srv.store.snapshot env.now).1 <;> rfl
    simp only [Server.handle, Server.cmdPsync]
    split_ifs
    · rfl
    · rcases hr : srv.fullResync env.now conn with ⟨_ | _, srv'⟩ <;>
      · rw [hr] at hsame
        exact hsame
    · rfl
  | _ => rfl

/-- SOURCE: server.py:436-498 -/
theorem linkUp_prepare :
    (srv.prepare env flags conn argv).2.replicaLinkUp = srv.replicaLinkUp := by
  have hdispatch : ∀ srv : Server,
      (srv.dispatch env flags conn argv).2.replicaLinkUp = srv.replicaLinkUp := by
    intro srv
    unfold Server.dispatch
    split
    · rfl
    · split
      · rfl
      · split_ifs
        · rfl
        · exact linkUp_handle srv env conn _ _
  have hsettle : ∀ (srv : Server) (before : Entries) (result : Option PyValue),
      (srv.settle env flags argv before result).2.replicaLinkUp = srv.replicaLinkUp := by
    intro srv before result
    unfold Server.settle
    dsimp only
    generalize (if isWrite argv then srv.store.enforceMemoryLimit env.now
      else (some [], srv.store)) = limited
    obtain ⟨_ | evicted, store⟩ := limited
    · rfl
    · cases result <;> rfl
  unfold Server.prepare
  split_ifs with hno hmis hwrite
  · rfl
  · rfl
  · dsimp only
    have hsame := hdispatch { srv with store := srv.store.purge env.now }
    generalize Server.dispatch _ env flags conn argv = r at hsame ⊢
    obtain ⟨handled, srv'⟩ := r
    cases handled with
    | value v => exact (hsettle srv' _ _).trans hsame
    | noReply => exact (hsettle srv' _ _).trans hsame
    | error message => exact hsame
    | internal => exact hsame
  · dsimp only
    have hsame := hdispatch srv
    generalize srv.dispatch env flags conn argv = r at hsame ⊢
    obtain ⟨handled, srv'⟩ := r
    cases handled with
    | value v => exact (hsettle srv' _ _).trans hsame
    | noReply => exact (hsettle srv' _ _).trans hsame
    | error message => exact hsame
    | internal => exact hsame

/-- A command does not touch the link to the master.
SOURCE: server.py:409-535 -/
theorem linkUp_execute (ios : List RecordIO) :
    (srv.execute env flags conn argv ios).server.replicaLinkUp = srv.replicaLinkUp := by
  have hcommit : ∀ (p : Bool) (cs : List Command) (ios : List RecordIO) (srv : Server),
      (Server.commitAll p cs ios srv).2.2.replicaLinkUp = srv.replicaLinkUp := by
    intro p cs
    induction cs with
    | nil => exact fun _ _ => rfl
    | cons c cs ih =>
      intro ios srv
      have hone : (srv.commit p c (ios.headD {})).2.replicaLinkUp = srv.replicaLinkUp := by
        unfold Server.commit
        split
        · rfl
        · cases p <;> rfl
      rw [Server.commitAll]
      generalize srv.commit p c (ios.headD {}) = committed at hone ⊢
      obtain ⟨r, srv'⟩ := committed
      cases r with
      | error text => exact hone
      | ok u => exact (ih ios.tail srv').trans hone
  have hprepare := linkUp_prepare srv env flags conn argv
  unfold Server.execute
  generalize srv.prepare env flags conn argv = prepared at hprepare ⊢
  obtain ⟨r, srv'⟩ := prepared
  cases r with
  | done reply => exact hprepare
  | records cs p reply =>
    have hsame := (hcommit p cs ios srv').trans hprepare
    dsimp only
    generalize Server.commitAll p cs ios srv' = outcome at hsame ⊢
    obtain ⟨failed, committed, srv''⟩ := outcome
    cases failed <;> exact hsame

end LinkStatus

/-- The commands of the stream leave the link flag as it is. -/
theorem linkUp_applyReplicated (env : ℕ → Env) (fate : ℕ → List RecordIO) (cmds : List Command)
    (srv : Server) : (srv.applyReplicated env fate cmds).replicaLinkUp = srv.replicaLinkUp := by
  induction cmds generalizing env fate srv with
  | nil => rfl
  | cons argv cmds ih => exact (ih _ _ _).trans (linkUp_execute srv _ _ _ argv _)

/-! ## Histories -/

/-- The `i`-th pause in milliseconds, from 0 on.
SOURCE: replication/replica.py:59, 75-79 -/
def pause (i : ℕ) : ℕ := min (500 * 2 ^ i) 10000

/-- The next pause is twice as long, up to ten seconds. -/
theorem pause_succ (i : ℕ) : min (pause i * 2) 10000 = pause (i + 1) := by
  have hpow : 500 * 2 ^ (i + 1) = 500 * 2 ^ i * 2 := by
    rw [Nat.pow_succ, Nat.mul_assoc]
  unfold pause
  rw [hpow]
  omega

/-- The pause that an event announces. -/
def pauseOf : ClientEvent → Option ℕ
  | .loaded _ => none
  | .applied _ => none
  | .retrying ms => some ms

/-- The pauses of a history. -/
def pausesOf (evs : List ClientEvent) : List ℕ := evs.filterMap pauseOf

/-- Whether the snapshot of the present session was loaded, after one more event; `none` when
the event is out of place. -/
def placeStep (loaded : Bool) : ClientEvent → Option Bool
  | .loaded _ => if loaded then none else some true
  | .applied _ => if loaded then some true else none
  | .retrying _ => some false

/-- In each session of the history one snapshot at most is loaded, and commands are applied
behind it only: whether the last session has loaded its snapshot. -/
def placeOf (evs : List ClientEvent) : Option Bool := evs.foldlM placeStep false

/-- The place after more events. -/
theorem placeOf_append {evs es : List ClientEvent} {loaded : Bool}
    (h : placeOf evs = some loaded) : placeOf (evs ++ es) = es.foldlM placeStep loaded := by
  unfold placeOf at h ⊢
  rw [List.foldlM_append, h]
  rfl

/-- Commands that are applied keep the place behind the snapshot. -/
theorem place_applied (cmds : List Command) :
    (cmds.map ClientEvent.applied).foldlM placeStep true = some true := by
  induction cmds with
  | nil => rfl
  | cons argv cmds ih => exact ih

/-- A history that is in place and ends behind a snapshot has one. -/
theorem exists_loaded {evs : List ClientEvent} (h : placeOf evs = some true) :
    ∃ d, ClientEvent.loaded d ∈ evs := by
  by_contra hno
  push Not at hno
  have hfalse : ∀ (evs : List ClientEvent) (b : Bool), (∀ d, ClientEvent.loaded d ∉ evs) →
      b = false → evs.foldlM placeStep b ≠ some true := by
    intro evs
    induction evs with
    | nil =>
      rintro b - rfl
      exact fun h => by cases h
    | cons ev evs ih =>
      rintro b hnone rfl
      have hrest := fun d hd => hnone d (List.mem_cons_of_mem _ hd)
      cases ev with
      | loaded d => exact absurd List.mem_cons_self (hnone d)
      | applied argv => exact fun h => by cases h
      | retrying ms => exact ih false hrest rfl
  exact hfalse evs false hno rfl h

/-! ## A chunk -/

section Chunk

variable {before after : Session}

/-- SOURCE: replication/replica.py:150-154, 197-227 -/
theorem Added.place (h : Added before after) :
    (ReplicaClient.observed before after).foldlM placeStep before.loaded.isSome =
      some after.loaded.isSome := by
  unfold ReplicaClient.observed ReplicaClient.newSnapshot ReplicaClient.newCommands
  cases h with
  | unloaded hbefore hafter hnone hcmds =>
    rw [hbefore, hafter, hnone, hcmds]
    rfl
  | loaded d hbefore hafter hnone =>
    rw [hbefore, hafter, List.foldlM_append]
    exact place_applied _
  | further d hbefore hafter hfront =>
    rw [hbefore, hafter, List.foldlM_append]
    exact place_applied _

/-- What a session observes is no pause. -/
theorem pauses_observed : pausesOf (ReplicaClient.observed before after) = [] := by
  unfold pausesOf ReplicaClient.observed
  rw [List.filterMap_append, List.filterMap_map, List.filterMap_map]
  have hloaded : (pauseOf ∘ ClientEvent.loaded) = fun _ => none := rfl
  have happlied : (pauseOf ∘ ClientEvent.applied) = fun _ => none := rfl
  rw [hloaded, happlied]
  simp

/-- The link is up behind the snapshot. -/
theorem Added.linkUp (h : Added before after) (env : ℕ → Env) (fate : ℕ → List RecordIO)
    {srv : Server} (hsrv : srv.replicaLinkUp = before.loaded.isSome) :
    (ReplicaClient.catchUp env fate before after srv).replicaLinkUp = after.loaded.isSome := by
  unfold ReplicaClient.catchUp ReplicaClient.newSnapshot
  rw [linkUp_applyReplicated]
  cases h with
  | unloaded hbefore hafter hnone hcmds =>
    rw [hbefore] at hsrv
    rw [hbefore, hafter]
    exact hsrv
  | loaded d hbefore hafter hnone =>
    rw [hbefore, hafter]
    rfl
  | further d hbefore hafter hfront =>
    rw [hbefore] at hsrv
    rw [hbefore, hafter]
    exact hsrv

/-- Without a snapshot the server stays as it is. -/
theorem Added.untouched (h : Added before after) (env : ℕ → Env) (fate : ℕ → List RecordIO)
    {srv : Server} (hafter : after.loaded = none) :
    ReplicaClient.catchUp env fate before after srv = srv := by
  cases h with
  | unloaded hbefore _ hnone hcmds =>
    unfold ReplicaClient.catchUp ReplicaClient.newSnapshot ReplicaClient.newCommands
    rw [hbefore, hafter, hnone, hcmds]
    rfl
  | loaded d hbefore hloaded hnone =>
    rw [hloaded] at hafter
    cases hafter
  | further d hbefore hloaded hfront =>
    rw [hloaded] at hafter
    cases hafter

end Chunk

/-! ## A life -/

/-- The client is in a session. -/
def inSession (c : ReplicaClient) : Bool :=
  match c.state with
  | .starting => false
  | .session _ _ => true
  | .pausing => false
  | .cancelled => false

/-- What the state of a client says about `n` pauses and a snapshot that was `loaded` in the
present session. -/
def ClientAgrees (c : ReplicaClient) (n : ℕ) (loaded : Bool) : Prop :=
  match c.state with
  | .starting => c.backoff = pause n ∧ loaded = false ∧ c.server.replicaLinkUp = false
  | .session time chunks => c.backoff = pause n ∧
      loaded = (Session.run c.config time chunks).session.loaded.isSome ∧
      c.server.replicaLinkUp = loaded
  | .pausing => (∃ m, n = m + 1 ∧ c.backoff = pause m) ∧ loaded = false ∧
      c.server.replicaLinkUp = false
  | .cancelled => c.server.replicaLinkUp = false

/-- The link is up in a session that has loaded its snapshot. -/
theorem ClientAgrees.linkUp {c : ReplicaClient} {n : ℕ} {loaded : Bool}
    (h : ClientAgrees c n loaded) :
    c.server.replicaLinkUp = (loaded && inSession c) := by
  unfold ClientAgrees at h
  unfold inSession
  cases hstate : c.state with
  | starting =>
    rw [hstate] at h
    rw [h.2.2, Bool.and_false]
  | session time chunks =>
    rw [hstate] at h
    rw [h.2.2, Bool.and_true]
  | pausing =>
    rw [hstate] at h
    rw [h.2.2, Bool.and_false]
  | cancelled =>
    rw [hstate] at h
    rw [Bool.and_false]
    exact h

/-- The invariant of a client that started as `c₀`. -/
structure Lived (c₀ : ReplicaClient) (evs : List ClientEvent) (c : ReplicaClient) : Prop where
  config : c.config = c₀.config
  pauses : pausesOf evs = (List.range (pausesOf evs).length).map pause
  place : ∃ loaded, placeOf evs = some loaded ∧ ClientAgrees c (pausesOf evs).length loaded
  untouched : (∀ d, ClientEvent.loaded d ∉ evs) → c.server.store = c₀.server.store

variable {c₀ c c' : ReplicaClient} {evs es : List ClientEvent}

/-- One more pause. -/
theorem pauses_snoc (h : pausesOf evs = (List.range (pausesOf evs).length).map pause) {ms : ℕ}
    (hms : ms = pause (pausesOf evs).length) :
    pausesOf (evs ++ [.retrying ms]) =
      (List.range (pausesOf (evs ++ [.retrying ms])).length).map pause := by
  have hsplit : pausesOf (evs ++ [.retrying ms]) = pausesOf evs ++ [ms] := by
    unfold pausesOf
    rw [List.filterMap_append]
    rfl
  rw [hsplit, List.length_append, List.length_singleton, List.range_succ, List.map_append, ← h,
    hms]
  rfl

/-- A session, or the attempt at one, fails.
SOURCE: replication/replica.py:66-79, 90-91 -/
theorem Lived.fail (hconfig : c.config = c₀.config)
    (hpauses : pausesOf evs = (List.range (pausesOf evs).length).map pause)
    (hbackoff : c.backoff = pause (pausesOf evs).length) (hplace : ∃ loaded, placeOf evs = some loaded)
    (huntouched : (∀ d, ClientEvent.loaded d ∉ evs) → c.server.store = c₀.server.store) :
    Lived c₀ (evs ++ c.fail.2) c.fail.1 := by
  obtain ⟨loaded, hloaded⟩ := hplace
  have hlength : (pausesOf (evs ++ c.fail.2)).length = (pausesOf evs).length + 1 := by
    unfold pausesOf ReplicaClient.fail
    rw [List.filterMap_append, List.length_append]
    rfl
  refine ⟨hconfig, pauses_snoc hpauses hbackoff, ⟨false, ?_, ?_⟩, ?_⟩
  · rw [placeOf_append hloaded]
    rfl
  · rw [hlength]
    exact ⟨⟨_, rfl, hbackoff⟩, rfl, rfl⟩
  · intro hnone
    exact huntouched fun d hd => hnone d (List.mem_append_left _ hd)

/-- A chunk arrives.
SOURCE: replication/replica.py:83-227 -/
theorem Lived.receive (h : Lived c₀ evs c) {time : ℤ} {chunks : List Bytes}
    (hstate : c.state = .session time chunks) (data : Bytes) (now : ℤ) (env : ℕ → Env)
    (fate : ℕ → List RecordIO) :
    Lived c₀ (evs ++ (c.receive time chunks data now env fate).2)
      (c.receive time chunks data now env fate).1 := by
  obtain ⟨loaded, hplace, hagrees⟩ := h.place
  unfold ClientAgrees at hagrees
  rw [hstate] at hagrees
  obtain ⟨hbackoff, hloaded, hlink⟩ := hagrees
  unfold ReplicaClient.receive
  dsimp only
  generalize hbefore : (Session.run c.config time chunks).session = before at hloaded ⊢
  generalize htime : (if before.loaded.isSome = true then time else now) = time'
  have hadded := added_of_receive c.config time now chunks data hbefore.symm htime.symm
  generalize hrun : Session.run c.config time' (chunks ++ [data]) = outcome at hadded ⊢
  rw [hloaded] at hplace hlink
  -- what the history and the server look like before the session goes on or fails
  have hseen : placeOf (evs ++ ReplicaClient.observed before outcome.session) =
      some outcome.session.loaded.isSome := by
    rw [placeOf_append hplace]
    exact hadded.place
  have hpauses : pausesOf (evs ++ ReplicaClient.observed before outcome.session) = pausesOf evs := by
    have hnone := @pauses_observed before outcome.session
    unfold pausesOf at hnone ⊢
    rw [List.filterMap_append, hnone, List.append_nil]
  have hup := hadded.linkUp env fate hlink
  have huntouched : (∀ d, ClientEvent.loaded d ∉
      evs ++ ReplicaClient.observed before outcome.session) →
      (ReplicaClient.catchUp env fate before outcome.session c.server).store =
        c₀.server.store := by
    intro hnone
    cases hafter : outcome.session.loaded with
    | none =>
      rw [hadded.untouched env fate hafter]
      exact h.untouched fun d hd => hnone d (List.mem_append_left _ hd)
    | some d =>
      rw [hafter] at hseen
      obtain ⟨d', hd'⟩ := exists_loaded hseen
      exact absurd hd' (hnone d')
  have hrange := h.pauses
  rw [← hpauses] at hrange hbackoff
  cases outcome with
  | waiting s =>
    refine ⟨h.config, hrange, ⟨_, hseen, ?_⟩, huntouched⟩
    exact ⟨hbackoff, congrArg (fun p => p.session.loaded.isSome) hrun.symm, hup⟩
  | failed e s =>
    dsimp only
    rw [← List.append_assoc]
    exact Lived.fail (c := { c with
      server := ReplicaClient.catchUp env fate before s c.server }) h.config hrange hbackoff
      ⟨_, hseen⟩ huntouched
  | ok u s => exact absurd hrun (run_ne_ok _ _ _ u s)

/-- **Every action keeps the invariant.** -/
theorem Lived.step {a : ClientAction} (h : Lived c₀ evs c) (hs : c.step a = some (c', es)) :
    Lived c₀ (evs ++ es) c' := by
  obtain ⟨loaded, hplace, hagrees⟩ := h.place
  unfold ClientAgrees at hagrees
  cases hstate : c.state with
  | starting =>
    rw [hstate] at hagrees
    obtain ⟨hbackoff, hloaded, hlink⟩ := hagrees
    cases a with
    | refused =>
      simp only [ReplicaClient.step, hstate] at hs
      cases hs
      exact .fail h.config h.pauses hbackoff ⟨loaded, hplace⟩ h.untouched
    | connected =>
      simp only [ReplicaClient.step, hstate] at hs
      cases hs
      rw [List.append_nil]
      refine ⟨h.config, h.pauses, ⟨loaded, hplace, hbackoff, ?_, hlink.trans hloaded.symm⟩,
        h.untouched⟩
      rw [hloaded, loaded_of_run_nil]
      rfl
    | received data now env fate => simp only [ReplicaClient.step, hstate, reduceCtorEq] at hs
    | broken => simp only [ReplicaClient.step, hstate, reduceCtorEq] at hs
    | resumed => simp only [ReplicaClient.step, hstate, reduceCtorEq] at hs
    | stopped =>
      cases hs
      rw [List.append_nil]
      exact ⟨h.config, h.pauses, ⟨loaded, hplace, rfl⟩, h.untouched⟩
  | session time chunks =>
    rw [hstate] at hagrees
    obtain ⟨hbackoff, hloaded, hlink⟩ := hagrees
    cases a with
    | refused => simp only [ReplicaClient.step, hstate, reduceCtorEq] at hs
    | connected => simp only [ReplicaClient.step, hstate, reduceCtorEq] at hs
    | received data now env fate =>
      simp only [ReplicaClient.step, hstate, Option.some.injEq] at hs
      have hreceive := h.receive hstate data now env fate
      rw [hs] at hreceive
      exact hreceive
    | broken =>
      simp only [ReplicaClient.step, hstate] at hs
      cases hs
      exact .fail h.config h.pauses hbackoff ⟨loaded, hplace⟩ h.untouched
    | resumed => simp only [ReplicaClient.step, hstate, reduceCtorEq] at hs
    | stopped =>
      cases hs
      rw [List.append_nil]
      exact ⟨h.config, h.pauses, ⟨loaded, hplace, rfl⟩, h.untouched⟩
  | pausing =>
    rw [hstate] at hagrees
    obtain ⟨⟨m, hm, hbackoff⟩, hloaded, hlink⟩ := hagrees
    cases a with
    | refused => simp only [ReplicaClient.step, hstate, reduceCtorEq] at hs
    | connected => simp only [ReplicaClient.step, hstate, reduceCtorEq] at hs
    | received data now env fate => simp only [ReplicaClient.step, hstate, reduceCtorEq] at hs
    | broken => simp only [ReplicaClient.step, hstate, reduceCtorEq] at hs
    | resumed =>
      simp only [ReplicaClient.step, hstate] at hs
      cases hs
      rw [List.append_nil]
      refine ⟨h.config, h.pauses, ⟨loaded, hplace, ?_, hloaded, hlink⟩, h.untouched⟩
      show min (c.backoff * 2) 10000 = pause _
      rw [hbackoff, pause_succ, hm]
    | stopped =>
      cases hs
      rw [List.append_nil]
      exact ⟨h.config, h.pauses, ⟨loaded, hplace, rfl⟩, h.untouched⟩
  | cancelled =>
    cases a with
    | stopped =>
      cases hs
      rw [List.append_nil]
      exact ⟨h.config, h.pauses, ⟨loaded, hplace, rfl⟩, h.untouched⟩
    | refused => simp only [ReplicaClient.step, hstate, reduceCtorEq] at hs
    | connected => simp only [ReplicaClient.step, hstate, reduceCtorEq] at hs
    | received data now env fate => simp only [ReplicaClient.step, hstate, reduceCtorEq] at hs
    | broken => simp only [ReplicaClient.step, hstate, reduceCtorEq] at hs
    | resumed => simp only [ReplicaClient.step, hstate, reduceCtorEq] at hs

/-- Nothing is asked of an action. -/
def AnyAction (_ : ReplicaClient) (_ : ClientAction) : Prop := True

instance : ∀ (c : ReplicaClient) (a : ClientAction), Decidable (AnyAction c a) :=
  fun _ _ => instDecidableTrue

/-- **The life of a replica client.** Over any number of sessions, with any peer and whatever
arrives or breaks: the pauses between its attempts are 0.5 s, 1 s, 2 s, 4 s, 8 s and then 10 s
for ever, also when sessions in between have gone well; in each session at most one snapshot is
loaded, commands are applied behind it only, and the link is up exactly from there to the end of
the session; and without a snapshot the store is as it was.
SOURCE: replication/replica.py:48-227 -/
theorem client_life {rcfg : ReplicaConfig} {srv : Server} (hdown : srv.replicaLinkUp = false)
    (hrun : Runs ReplicaClient.step AnyAction { config := rcfg, server := srv } evs c) :
    pausesOf evs = (List.range (pausesOf evs).length).map pause ∧
    (∃ loaded, placeOf evs = some loaded ∧
      c.server.replicaLinkUp = (loaded && inSession c)) ∧
    ((∀ d, ClientEvent.loaded d ∉ evs) → c.server.store = srv.store) := by
  have hinv : Lived { config := rcfg, server := srv } evs c := by
    refine hrun.invariant ⟨rfl, rfl, ⟨false, rfl, rfl, rfl, hdown⟩, fun _ => rfl⟩ ?_
    exact fun h _ hs => h.step hs
  obtain ⟨loaded, hplace, hagrees⟩ := hinv.place
  exact ⟨hinv.pauses, ⟨loaded, hplace, hagrees.linkUp⟩, hinv.untouched⟩

/-- A chunk that arrives at time 0 and meets no fault. -/
def receiving (data : Bytes) : ClientAction := .received data 0 (fun _ => {}) fun _ => []

/-- A client in front of its first attempt. -/
def freshClient : ReplicaClient := { config := {}, server := .init {} default none none }

/-- An attempt that is refused, and then a session that loads a snapshot. -/
theorem client_life_refused :
    ∃ evs c, Runs ReplicaClient.step AnyAction freshClient evs c ∧
      (c.server.replicaLinkUp, inSession c, c.backoff) = (true, true, 1000) ∧
      pausesOf evs = (List.range (pausesOf evs).length).map pause ∧
      (∃ loaded, placeOf evs = some loaded ∧
        c.server.replicaLinkUp = (loaded && inSession c)) ∧
      ((∀ d, ClientEvent.loaded d ∉ evs) → c.server.store = freshClient.server.store) := by
  obtain ⟨evs, c, hrun, hview⟩ := @exists_runs_view _ _ _ ReplicaClient.step AnyAction
    freshClient _ _ (fun c => (c.server.replicaLinkUp, inSession c, c.backoff))
    ([.refused, .resumed, .connected] ++ (greetingChunks ++ [lineChunk, snapshotChunk]).map
      receiving) (true, true, 1000) (by decide +kernel)
  exact ⟨evs, c, hrun, hview, client_life rfl hrun⟩

end ByoRedis.Analysis
