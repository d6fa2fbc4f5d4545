import ByoRedis.Interface.Stranger
import ByoRedis.Analysis.LogReplay

/-!
# What an unauthenticated connection learns

On a server with `requirepass`, `handle_client` shows a connection that never presents the
password what `ByoRedis.Interface.Stranger` computes from the configuration and the input
alone (`step_unknown`), with one exception: PSYNC is handled before the gate of `_execute`,
and its reply is the keyspace. `unauthenticated_iff` makes this exact: the bytes of two runs
on different data agree, whatever other connections do, if and only if no PSYNC is reached.
-/

set_option autoImplicit false

namespace ByoRedis.Analysis

open ByoRedis.Model ByoRedis.Lib ByoRedis.Interface

/-! ## The server as seen from the connection -/

/-- The server knows nothing of the connection but its failed AUTHs. -/
structure Unknown (cfg : Config) (conn failures : ℕ) (srv : Server) : Prop where
  config : srv.config = cfg
  auth : conn ∉ srv.authenticated
  failed : (srv.authFailures.get? conn).getD 0 = failures
  link : srv.master.links.get? conn = none

/-- What the steps of other tasks keep of the connection; the rest of the server may change
in any way. -/
structure Keeps (conn : ℕ) (srv srv' : Server) : Prop where
  config : srv'.config = srv.config
  replid : srv'.master.replid = srv.master.replid
  auth : conn ∈ srv'.authenticated ↔ conn ∈ srv.authenticated
  failed : srv'.authFailures.get? conn = srv.authFailures.get? conn
  link : srv.master.links.get? conn = none → srv'.master.links.get? conn = none

/-- A run of `handle_client` on the inputs of the connection, with any steps of other tasks
at every await. -/
inductive Run (conn : ℕ) : Server → Client → List Input → Server → Client → Prop where
  | done (srv : Server) (c : Client) : Run conn srv c [] srv c
  | others {srv srv' s : Server} {c c' : Client} {inputs : List Input}
      (h : Keeps conn srv srv') (rest : Run conn srv' c inputs s c') : Run conn srv c inputs s c'
  | own {srv srv' s : Server} {c c' c'' : Client} {inputs : List Input} {i : Input} (env : Env)
      (ios : List RecordIO) (h : Client.step srv env ios conn c i = some (srv', c'))
      (rest : Run conn srv' c' inputs s c'') : Run conn srv c (i :: inputs) s c''

/-- A connection that is unknown stays so when nothing is done for it. -/
theorem Unknown.keeps {cfg : Config} {conn n : ℕ} {srv srv' : Server} (h : Unknown cfg conn n srv)
    (hk : Keeps conn srv srv') : Unknown cfg conn n srv' :=
  ⟨hk.config.trans h.config, fun hc => h.auth (hk.auth.mp hc), by rw [hk.failed]; exact h.failed,
    hk.link h.link⟩

/-- A step of the connection that leaves the data alone. -/
structure Untouched (conn : ℕ) (srv srv' : Server) : Prop where
  store : srv'.store = srv.store
  master : conn ∉ srv.master.replicas → srv'.master = srv.master

/-- Nothing was touched. -/
theorem Untouched.refl (conn : ℕ) (srv : Server) : Untouched conn srv srv := ⟨rfl, fun _ => rfl⟩

section

variable {cfg : Config} {password : Str} {conn n : ℕ} {srv : Server}

/-! ## Commands -/

/-- AUTH without the password.
SOURCE: commands/connection_cmds.py:40-48, server.py:537-550 -/
theorem cmdAuth_unknown (hreq : cfg.requirepass = some password) (h : Unknown cfg conn n srv)
    {argv : Command} (hauth : upperName argv = ascii "AUTH")
    (hpass : ∀ name, argv = [name, encodeUtf8 password] → upper name ≠ ascii "AUTH") :
    ∃ srv', srv.cmdAuth conn argv = (.error (View.answer argv n).1, srv') ∧
      Unknown cfg conn (View.answer argv n).2 srv' ∧ Untouched conn srv srv' := by
  have hreq' : srv.config.requirepass = some password := by rw [h.config, hreq]
  unfold Server.cmdAuth View.answer
  rw [if_pos hauth]
  rcases argv with _ | ⟨name, _ | ⟨p, _ | ⟨q, rest⟩⟩⟩
  · exact ⟨_, rfl, h, Untouched.refl _ _⟩
  · exact ⟨_, rfl, h, Untouched.refl _ _⟩
  · have hne : encodeUtf8 password ≠ p := by
      rintro rfl
      exact hpass name rfl hauth
    simp only [Server.authenticate, hreq', if_pos hne]
    refine ⟨_, rfl, ⟨h.config, h.auth, ?_, h.link⟩, ⟨rfl, fun _ => rfl⟩⟩
    simp only [Dict.get?_insert_self, h.failed, Option.getD_some]
  · exact ⟨_, rfl, h, Untouched.refl _ _⟩

/-- AUTH is not a write. -/
theorem isWrite_auth {argv : Command} (hauth : upperName argv = ascii "AUTH") :
    isWrite argv = false := by
  rw [isWrite, hauth]
  decide

/-- SOURCE: commands/registry.py:37-58 -/
theorem dispatch_auth (srv : Server) (env : Env) (conn : ℕ) {argv : Command}
    (hauth : upperName argv = ascii "AUTH") :
    srv.dispatch env .client conn argv = srv.cmdAuth conn argv := by
  cases argv with
  | nil => exact absurd hauth (by decide)
  | cons name args =>
    have hlookup : CommandName.lookup name = some .auth := by
      have hl : CommandName.lookup name =
          CommandName.registered.find? fun c => decide (c.text = upper name) := rfl
      rw [show upper name = ascii "AUTH" from hauth] at hl
      exact hl
    simp only [Server.dispatch, hlookup, isWrite_auth hauth, Bool.and_false, Bool.false_and,
      Bool.false_eq_true, if_false]
    rfl

/-- **Every command is answered as the view says**, and the server has changed nothing but
its counts.
SOURCE: server.py:436-445 -/
theorem execute_unknown (hreq : cfg.requirepass = some password) (h : Unknown cfg conn n srv)
    (argv : Command)
    (hpass : ∀ name, argv = [name, encodeUtf8 password] → upper name ≠ ascii "AUTH")
    (env : Env) (ios : List RecordIO) :
    ∃ srv', srv.execute env .client conn argv ios =
        ⟨some (encodeError (View.answer argv n).1), [], srv'⟩ ∧
      Unknown cfg conn (View.answer argv n).2 srv' ∧ Untouched conn srv srv' := by
  by_cases hauth : upperName argv = ascii "AUTH"
  · have hno : srv.noauth .client conn argv = false := by simp [Server.noauth, hauth]
    have hwrite := isWrite_auth hauth
    have hmis : srv.misconf .client argv = false := by simp [Server.misconf, hwrite]
    obtain ⟨srv', hcmd, hun, hsame⟩ := cmdAuth_unknown hreq h hauth hpass
    have hprep : srv.prepare env .client conn argv = srv'.fail (View.answer argv n).1 := by
      simp only [Server.prepare, hno, hmis, hwrite, dispatch_auth srv env conn hauth, hcmd,
        Bool.false_eq_true, if_false]
    rw [execute_of_done hprep]
    exact ⟨_, rfl, ⟨hun.config, hun.auth, hun.failed, hun.link⟩, ⟨hsame.store, hsame.master⟩⟩
  · have hno : srv.noauth .client conn argv = true := by
      simp [Server.noauth, h.config, hreq, h.auth, hauth, Flags.client]
    have hprep : srv.prepare env .client conn argv =
        srv.fail "NOAUTH Authentication required.".toList := by
      rw [Server.prepare, if_pos hno]
    have hans : View.answer argv n = ("NOAUTH Authentication required.".toList, n) := by
      unfold View.answer
      rw [if_neg hauth]
    rw [execute_of_done hprep, hans]
    exact ⟨_, rfl, ⟨h.config, h.auth, h.failed, h.link⟩, ⟨rfl, fun _ => rfl⟩⟩

/-- Before the password no answer is an integer.
SOURCE: server.py:436-445, 531-535 -/
theorem encodeRaises_unknown (hreq : cfg.requirepass = some password)
    (h : Unknown cfg conn n srv) (env : Env) (argv : Command)
    (hpass : ∀ name, argv = [name, encodeUtf8 password] → upper name ≠ ascii "AUTH") :
    Client.encodeRaises srv env conn argv = false := by
  by_cases hauth : upperName argv = ascii "AUTH"
  · obtain ⟨srv', hcmd, -, -⟩ := cmdAuth_unknown hreq h hauth hpass
    simp only [Client.encodeRaises, dispatch_auth srv env conn hauth, hcmd, Bool.and_false]
  · have hno : srv.noauth .client conn argv = true := by
      simp [Server.noauth, h.config, hreq, h.auth, hauth, Flags.client]
    simp only [Client.encodeRaises, hno, Bool.not_true, Bool.false_and]

/-- SOURCE: server.py:366-381 -/
theorem unknown_close (h : Unknown cfg conn n srv) :
    Unknown cfg conn 0 (srv.closeConnection conn) ∧
    Untouched conn srv (srv.closeConnection conn) := by
  have hlink : (srv.master.unregister conn).links.get? conn = none := by
    unfold MasterReplication.unregister
    split_ifs
    · simp only [h.link]
    · exact h.link
  refine ⟨⟨h.config, by simp [Server.closeConnection], ?_, hlink⟩, ⟨rfl, ?_⟩⟩
  · show ((srv.authFailures.erase conn).get? conn).getD 0 = 0
    rw [Dict.get?_erase_self]
    rfl
  · intro hc
    show srv.master.unregister conn = srv.master
    rw [MasterReplication.unregister, if_neg hc]

/-! ## Steps -/

/-- One message that is neither the password nor PSYNC.
SOURCE: server.py:318-357 -/
theorem handleMessage_unknown (hreq : cfg.requirepass = some password)
    (h : Unknown cfg conn n srv) {msg : RespValue} (hpass : ¬ Presents password msg)
    (hpsync : ¬ IsPsync msg) (env : Env) (ios : List RecordIO) (c : Client) :
    ∃ srv', Client.handleMessage srv env ios conn c msg =
        (srv', (View.handle cfg ⟨c, n⟩ msg).client) ∧
      Unknown cfg conn (View.handle cfg ⟨c, n⟩ msg).failures srv' ∧ Untouched conn srv srv' := by
  -- the message is counted first, which changes nothing else
  obtain ⟨counted, hc, hun, hsame⟩ : ∃ counted,
      counted = { srv with totalCommandsProcessed := srv.totalCommandsProcessed + 1 } ∧
      Unknown cfg conn n counted ∧ Untouched conn srv counted :=
    ⟨{ srv with totalCommandsProcessed := srv.totalCommandsProcessed + 1 }, rfl,
      ⟨h.config, h.auth, h.failed, h.link⟩, ⟨rfl, fun _ => rfl⟩⟩
  unfold Client.handleMessage View.handle
  rw [← hc]
  dsimp only
  cases hn : normalizeArgv msg with
  | error e => exact ⟨_, rfl, hun, hsame⟩
  | ok argv =>
    cases argv with
    | nil => exact ⟨_, rfl, hun, hsame⟩
    | cons name args =>
      have hps : ¬ upperName (name :: args) = ascii "PSYNC" := fun hp => hpsync ⟨_, hn, hp⟩
      have hpass' : ∀ nm, name :: args = [nm, encodeUtf8 password] → upper nm ≠ ascii "AUTH" :=
        fun nm he hau => hpass ⟨nm, by rw [hn, he], hau⟩
      have hraise := encodeRaises_unknown hreq hun env (name :: args) hpass'
      obtain ⟨srv', hx, hun', hsame'⟩ := execute_unknown hreq hun (name :: args) hpass' env ios
      have htoo : Client.tooManyFailures srv' conn (name :: args) =
          decide (upperName (name :: args) = ascii "AUTH" ∧
            cfg.maxAuthFailures ≤ (View.answer (name :: args) n).2) := by
        rw [Client.tooManyFailures, hun'.config, hun'.failed, Bool.decide_and]
      have huntouched : Untouched conn srv srv' :=
        ⟨hsame'.store.trans hsame.store, fun hr => by
          rw [hsame'.master (by rw [hsame.master hr]; exact hr), hsame.master hr]⟩
      simp only [hps, false_and, if_false, hraise, Bool.false_eq_true, hx, htoo, Option.getD_some,
        decide_eq_true_eq]
      split_ifs
      · obtain ⟨hclose, huc⟩ := unknown_close hun'
        refine ⟨_, rfl, hclose, ⟨huc.store.trans huntouched.store, fun hr => ?_⟩⟩
        rw [huc.master (by rw [huntouched.master hr]; exact hr), huntouched.master hr]
      · exact ⟨_, rfl, hun', huntouched⟩

/-- **One step of a connection without the password is a step of the view.**
SOURCE: server.py:282-391 -/
theorem step_unknown (hreq : cfg.requirepass = some password) (h : Unknown cfg conn n srv)
    (c : Client) (i : Input)
    (hmsg : ∀ msg, View.current ⟨c, n⟩ i = some msg → ¬ Presents password msg ∧ ¬ IsPsync msg)
    (env : Env) (ios : List RecordIO) :
    match View.step cfg ⟨c, n⟩ i with
    | none => Client.step srv env ios conn c i = none
    | some v => ∃ srv', Client.step srv env ios conn c i = some (srv', v.client) ∧
        Unknown cfg conn v.failures srv' ∧ Untouched conn srv srv' := by
  obtain ⟨hclose, huc⟩ := unknown_close h
  obtain ⟨parser, pending, out, phase⟩ := c
  cases i with
  | recv chunk =>
    simp only [View.step, Client.step]
    cases phase with
    | closed => rfl
    | holding =>
      by_cases he : chunk.isEmpty = true
      · simp only [he, if_true]
        exact ⟨_, rfl, hclose, huc⟩
      · simp only [he, Bool.false_eq_true, if_false]
        exact ⟨_, rfl, h, Untouched.refl _ _⟩
    | serving =>
      cases pending with
      | cons m rest => rfl
      | nil =>
        simp only [View.receive, Client.receive]
        by_cases he : chunk.isEmpty = true
        · simp only [he, if_true]
          exact ⟨_, rfl, hclose, huc⟩
        · simp only [he, Bool.false_eq_true, if_false]
          cases parser.feed chunk with
          | error e => exact ⟨_, rfl, hclose, huc⟩
          | ok r => exact ⟨_, rfl, h, Untouched.refl _ _⟩
  | next =>
    cases phase with
    | closed => rfl
    | holding => rfl
    | serving =>
      cases pending with
      | nil => rfl
      | cons m rest =>
        obtain ⟨hpass, hpsync⟩ := hmsg m rfl
        obtain ⟨srv', hstep, hun, hsame⟩ := handleMessage_unknown hreq h hpass hpsync env ios
          { parser := parser, pending := rest, out := out, phase := .serving }
        exact ⟨srv', congrArg some hstep, hun, hsame⟩
  | timeout =>
    simp only [View.step, Client.step]
    cases phase with
    | closed => rfl
    | holding => rfl
    | serving =>
      cases pending with
      | cons m rest => rfl
      | nil =>
        simp only [View.expire, Client.expire, h.config]
        split_ifs
        · exact ⟨_, rfl, hclose, huc⟩
        · exact ⟨_, rfl, hclose, huc⟩
  | lost =>
    cases phase with
    | closed => rfl
    | holding => exact ⟨_, rfl, hclose, huc⟩
    | serving => exact ⟨_, rfl, hclose, huc⟩

/-! ## Runs -/

/-- An input that makes the connection handle a message is one it waits for. -/
theorem View.mem_handled_of_current {v : View} {i : Input} {msg : RespValue}
    (h : v.current i = some msg) (inputs : List Input) :
    msg ∈ View.handled cfg v (i :: inputs) := by
  obtain ⟨⟨parser, pending, out, phase⟩, failures⟩ := v
  cases i with
  | recv chunk => cases h
  | timeout => cases h
  | lost => cases h
  | next =>
    cases phase with
    | closed => cases h
    | holding => cases h
    | serving =>
      cases pending with
      | nil => cases h
      | cons m rest =>
        cases h
        exact List.mem_cons_self

/-- What is handled within a part of the input is handled. -/
theorem View.handled_prefix {pre inputs : List Input} (h : pre <+: inputs) (v : View)
    {msg : RespValue} (hm : msg ∈ View.handled cfg v pre) : msg ∈ View.handled cfg v inputs := by
  induction pre generalizing inputs v with
  | nil => cases hm
  | cons i pre ih =>
    obtain ⟨rest, rfl⟩ := h
    rw [List.cons_append, View.handled]
    rw [View.handled] at hm
    cases hv : v.step cfg i with
    | none => rw [hv] at hm; cases hm
    | some v' =>
      rw [hv] at hm
      rcases List.mem_append.mp hm with hm | hm
      · exact List.mem_append_left _ hm
      · exact List.mem_append_right _ (ih (List.prefix_append pre rest) v' hm)

/-- The view after a list of inputs. -/
def View.run (cfg : Config) (v : View) : List Input → Option View
  | [] => some v
  | i :: inputs => (v.step cfg i).bind fun v' => View.run cfg v' inputs

/-- **A run of a connection without the password is a run of the view**, whatever other
connections do, as long as no PSYNC is reached. -/
theorem run_unknown (hreq : cfg.requirepass = some password) {c c' : Client} {s : Server}
    {inputs : List Input} (hrun : Run conn srv c inputs s c') (h : Unknown cfg conn n srv)
    (hmsg : ∀ msg ∈ View.handled cfg ⟨c, n⟩ inputs, ¬ Presents password msg ∧ ¬ IsPsync msg) :
    ∃ v, View.run cfg ⟨c, n⟩ inputs = some v ∧ v.client = c' ∧ Unknown cfg conn v.failures s := by
  induction hrun generalizing n with
  | done srv c => exact ⟨_, rfl, rfl, h⟩
  | others hk rest ih => exact ih (h.keeps hk) hmsg
  | @own srv srv' s c c' c'' inputs i env ios hstep rest ih =>
    have hcur : ∀ msg, View.current ⟨c, n⟩ i = some msg →
        ¬ Presents password msg ∧ ¬ IsPsync msg :=
      fun msg hm => hmsg msg (View.mem_handled_of_current hm inputs)
    have hs := step_unknown hreq h c i hcur env ios
    cases hv : View.step cfg ⟨c, n⟩ i with
    | none =>
      rw [hv] at hs
      rw [hs] at hstep
      cases hstep
    | some v =>
      rw [hv] at hs
      obtain ⟨srv'', hs, hun, -⟩ := hs
      rw [hs] at hstep
      cases hstep
      have hrest : ∀ msg ∈ View.handled cfg v inputs, ¬ Presents password msg ∧ ¬ IsPsync msg := by
        intro msg hm
        apply hmsg
        rw [View.handled, hv]
        exact List.mem_append_right _ hm
      obtain ⟨w, hw, hc, hunw⟩ := ih hun hrest
      exact ⟨w, by rw [View.run, hv]; exact hw, hc, hunw⟩

/-! ## PSYNC -/

/-- A link that was just registered has the payload as what was written to it. -/
theorem takeBatch_writeLink_registerSyncing (m : MasterReplication) (conn : ℕ) (payload : Bytes) :
    ∃ l, (((m.registerSyncing conn).writeLink conn payload).takeBatch conn).2.links.get? conn =
      some l ∧ l.written = payload := by
  simp only [MasterReplication.registerSyncing, MasterReplication.writeLink,
    MasterReplication.takeBatch, MasterReplication.setLink, Dict.get?_insert_self,
    List.isEmpty_nil, if_true, List.nil_append, Option.some.injEq, exists_eq_left']

/-- What `full_resync` writes when nothing runs in between.
SOURCE: replication/master.py:126-204 -/
theorem fullResync_written {rdb : Bytes} {now : ℤ} (srv : Server) (conn : ℕ)
    (hdump : dumpRdbEntries (srv.store.live now) = some rdb) :
    ∃ s l, srv.fullResync now conn = (true, s) ∧ s.master.links.get? conn = some l ∧
      l.written = MasterReplication.fullresyncPayload srv.master.replid.text srv.master.offset
        rdb := by
  obtain ⟨l, hl, hw⟩ := takeBatch_writeLink_registerSyncing srv.master conn
    (MasterReplication.fullresyncPayload srv.master.replid.text srv.master.offset rdb)
  simp only [Server.fullResync, Store.snapshot, hdump]
  exact ⟨_, l, rfl, hl, hw⟩

/-- **The run up to a PSYNC**: whatever the server holds, the connection has been sent the
same bytes and then the snapshot.
SOURCE: server.py:328-345 -/
theorem run_to_psync (conn : ℕ) (hreq : cfg.requirepass = some password)
    (hrole : cfg.isReplica = false)
    (inputs : List Input) (v : View)
    (hpass : ∀ msg ∈ View.handled cfg v inputs, ¬ Presents password msg)
    (hex : ∃ msg ∈ View.handled cfg v inputs, IsPsync msg) :
    ∃ pre out, pre <+: inputs ∧ ∀ srv rdb, Unknown cfg conn v.failures srv →
      conn ∉ srv.master.replicas → dumpRdbEntries (srv.store.live 0) = some rdb →
      ∃ s c, Run conn srv v.client pre s c ∧
        sentTo s conn c = out ++ MasterReplication.fullresyncPayload srv.master.replid.text
          srv.master.offset rdb := by
  induction inputs generalizing v with
  | nil =>
    obtain ⟨msg, hm, -⟩ := hex
    cases hm
  | cons i inputs ih =>
    by_cases hnow : ∃ msg, v.current i = some msg ∧ IsPsync msg
    · obtain ⟨msg, hcur, argv, hargv, hname⟩ := hnow
      obtain ⟨⟨parser, pending, out, phase⟩, failures⟩ := v
      cases i with
      | recv chunk => cases hcur
      | timeout => cases hcur
      | lost => cases hcur
      | next =>
        cases phase with
        | closed => cases hcur
        | holding => cases hcur
        | serving =>
          cases pending with
          | nil => cases hcur
          | cons m rest =>
            cases hcur
            refine ⟨[.next], out, ⟨inputs, rfl⟩, ?_⟩
            intro srv rdb hun hrep hdump
            obtain ⟨s, l, hsync, hlink, hwritten⟩ := fullResync_written
              { srv with totalCommandsProcessed := srv.totalCommandsProcessed + 1 } conn hdump
            refine ⟨s, { parser := parser, pending := [], out := out, phase := .holding },
              .own {} [] ?_ (.done _ _), ?_⟩
            · simp only [Client.step, Client.handleMessage, hargv]
              cases argv with
              | nil => exact absurd hname (by decide)
              | cons name args =>
                have hcond : upperName (name :: args) = ascii "PSYNC" ∧
                    srv.config.isReplica = false := ⟨hname, by rw [hun.config]; exact hrole⟩
                simp only [if_pos hcond, Client.psync, hsync]
            · simp only [sentTo, hlink, Option.elim_some, hwritten]
    · -- this input is answered as the view says; the rest by induction
      have hcur : ∀ msg, v.current i = some msg → ¬ Presents password msg ∧ ¬ IsPsync msg :=
        fun msg hm => ⟨hpass msg (View.mem_handled_of_current hm inputs),
          fun hp => hnow ⟨msg, hm, hp⟩⟩
      cases hv : v.step cfg i with
      | none =>
        obtain ⟨msg, hm, -⟩ := hex
        rw [View.handled, hv] at hm
        cases hm
      | some v' =>
        rw [View.handled, hv] at hpass hex
        obtain ⟨msg, hm, hp⟩ := hex
        have hlater : msg ∈ View.handled cfg v' inputs := by
          rcases List.mem_append.mp hm with hm | hm
          · exact absurd ⟨msg, Option.mem_toList.mp hm, hp⟩ hnow
          · exact hm
        obtain ⟨pre, out, hpre, hrun⟩ := ih v'
          (fun m hm => hpass m (List.mem_append_right _ hm)) ⟨msg, hlater, hp⟩
        refine ⟨i :: pre, out, List.cons_prefix_cons.mpr ⟨rfl, hpre⟩, ?_⟩
        intro srv rdb hun hrep hdump
        have hs := step_unknown hreq hun v.client i hcur {} []
        rw [show (⟨v.client, v.failures⟩ : View) = v from rfl, hv] at hs
        obtain ⟨srv', hs, hun', hsame⟩ := hs
        obtain ⟨s, c, hr, hsent⟩ := hrun srv' rdb hun' (by rw [hsame.master hrep]; exact hrep)
          (by rw [hsame.store]; exact hdump)
        refine ⟨s, c, .own {} [] hs hr, ?_⟩
        rw [hsent, hsame.master hrep]

end

/-! ## Two runs -/

/-- Two servers that a fresh connection cannot tell apart by the configuration and the
replication id; their keyspaces, logs and other connections may differ. -/
structure Twins (cfg : Config) (conn : ℕ) (srv₁ srv₂ : Server) : Prop where
  first : Unknown cfg conn 0 srv₁
  second : Unknown cfg conn 0 srv₂
  replid : srv₁.master.replid = srv₂.master.replid

/-- A server with one key. -/
def oneKey (cfg : Config) : Server :=
  { Server.init cfg default none none with
    store := cfg.emptyStore.setString 0 (ascii "k") (ascii "v") none }

/-- **When a connection without the password learns nothing.** Whatever it sends, in whatever
chunks, the bytes it has been sent on two servers agree at every moment, whatever the two
servers hold and other connections do, if and only if no PSYNC is among the messages that
are handled.
SOURCE: server.py:317-357, 436-455, replication/master.py:126-204 -/
theorem unauthenticated_iff {cfg : Config} {password : Str}
    (hreq : cfg.requirepass = some password) (hrole : cfg.isReplica = false) (conn : ℕ)
    {inputs : List Input}
    (hnever : ∀ msg ∈ View.handled cfg (View.start cfg) inputs, ¬ Presents password msg) :
    (∀ pre, pre <+: inputs → ∀ srv₁ srv₂ s₁ s₂ c₁ c₂, Twins cfg conn srv₁ srv₂ →
      Run conn srv₁ (Client.connect cfg) pre s₁ c₁ →
      Run conn srv₂ (Client.connect cfg) pre s₂ c₂ → sentTo s₁ conn c₁ = sentTo s₂ conn c₂) ↔
      ∀ msg ∈ View.handled cfg (View.start cfg) inputs, ¬ IsPsync msg := by
  constructor
  · intro hsame msg hm hp
    obtain ⟨pre, out, hpre, hrun⟩ := run_to_psync conn hreq hrole inputs
      (View.start cfg) hnever ⟨msg, hm, hp⟩
    have hinit : Unknown cfg conn 0 (Server.init cfg default none none) :=
      ⟨rfl, List.not_mem_nil, rfl, rfl⟩
    have hone : Unknown cfg conn 0 (oneKey cfg) := ⟨rfl, List.not_mem_nil, rfl, rfl⟩
    -- the two dumps have 20 and 39 bytes
    have hempty : (dumpRdbEntries ((Server.init cfg default none none).store.live 0)).map
        List.length = some 20 := by
      show (dumpRdbEntries Dict.empty).map List.length = some 20
      decide
    have hfull : (dumpRdbEntries ((oneKey cfg).store.live 0)).map List.length = some 39 := by
      show (dumpRdbEntries ((oneKey {}).store.live 0)).map List.length = some 39
      decide
    obtain ⟨rdb₁, hdump₁, hlen₁⟩ := Option.map_eq_some_iff.mp hempty
    obtain ⟨rdb₂, hdump₂, hlen₂⟩ := Option.map_eq_some_iff.mp hfull
    obtain ⟨s₁, c₁, hrun₁, hsent₁⟩ := hrun _ _ hinit List.not_mem_nil hdump₁
    obtain ⟨s₂, c₂, hrun₂, hsent₂⟩ := hrun _ _ hone List.not_mem_nil hdump₂
    have heq := hsame pre hpre _ _ s₁ s₂ c₁ c₂ ⟨hinit, hone, rfl⟩ hrun₁ hrun₂
    rw [hsent₁, hsent₂] at heq
    have hpay := congrArg List.length (List.append_cancel_left heq)
    have hdigits : (natBytes 20).length = (natBytes 39).length := by decide
    simp only [MasterReplication.fullresyncPayload, List.length_append, hlen₁, hlen₂,
      show (Server.init cfg default none none).master.replid = (oneKey cfg).master.replid from rfl,
      show (Server.init cfg default none none).master.offset = (oneKey cfg).master.offset from rfl]
      at hpay
    omega
  · intro hno pre hpre srv₁ srv₂ s₁ s₂ c₁ c₂ htwins hrun₁ hrun₂
    have hmsg : ∀ msg ∈ View.handled cfg (View.start cfg) pre,
        ¬ Presents password msg ∧ ¬ IsPsync msg :=
      fun msg hm =>
        have hmem := View.handled_prefix hpre _ hm
        ⟨hnever msg hmem, hno msg hmem⟩
    obtain ⟨v, hv, rfl, hun⟩ := run_unknown hreq hrun₁ htwins.first hmsg
    obtain ⟨w, hw, rfl, hun'⟩ := run_unknown hreq hrun₂ htwins.second hmsg
    rw [hv] at hw
    cases hw
    rw [sentTo, sentTo, hun.link, hun'.link]

/-- A master with a password. -/
def secretConfig : Config := { requirepass := some "secret".toList }

/-- A stranger sends one command in one chunk. -/
def oneCommand (argv : Command) : List Input := [.recv (encodeCommand argv), .next]

/-- The one command is handled. -/
theorem handled_oneCommand_get :
    View.handled secretConfig (View.start secretConfig) (oneCommand [ascii "GET", ascii "k"]) =
      [.array [.bulk (ascii "GET"), .bulk (ascii "k")]] := rfl

/-- A GET tells a stranger nothing. -/
theorem unauthenticated_get :
    View.handled secretConfig (View.start secretConfig) (oneCommand [ascii "GET", ascii "k"]) =
      [.array [.bulk (ascii "GET"), .bulk (ascii "k")]] ∧
    ∀ pre, pre <+: oneCommand [ascii "GET", ascii "k"] → ∀ srv₁ srv₂ s₁ s₂ c₁ c₂,
      Twins secretConfig 1 srv₁ srv₂ → Run 1 srv₁ (Client.connect secretConfig) pre s₁ c₁ →
      Run 1 srv₂ (Client.connect secretConfig) pre s₂ c₂ → sentTo s₁ 1 c₁ = sentTo s₂ 1 c₂ := by
  refine ⟨handled_oneCommand_get, (@unauthenticated_iff _ "secret".toList rfl rfl 1 _ ?_).mpr ?_⟩
  · rw [handled_oneCommand_get]
    rintro msg hm ⟨name, hargv, -⟩
    cases List.mem_singleton.mp hm
    exact absurd (List.cons.inj (List.cons.inj (Except.ok.inj hargv)).2).1 (by decide)
  · rw [handled_oneCommand_get]
    rintro msg hm ⟨argv, hargv, hname⟩
    cases List.mem_singleton.mp hm
    cases hargv
    exact absurd hname (by decide)

/-- A PSYNC brings a stranger the keyspace: an empty one and one with a key do not look the
same. -/
theorem unauthenticated_psync :
    ∃ srv₁ srv₂ s₁ s₂ c₁ c₂, Twins secretConfig 1 srv₁ srv₂ ∧
      Run 1 srv₁ (Client.connect secretConfig)
        (oneCommand [ascii "PSYNC", ascii "?", ascii "-1"]) s₁ c₁ ∧
      Run 1 srv₂ (Client.connect secretConfig)
        (oneCommand [ascii "PSYNC", ascii "?", ascii "-1"]) s₂ c₂ ∧
      (sentTo s₁ 1 c₁).length = 81 ∧ (sentTo s₂ 1 c₂).length = 100 :=
  ⟨Server.init secretConfig default none none, oneKey secretConfig, _, _, _, _,
    ⟨⟨rfl, List.not_mem_nil, rfl, rfl⟩, ⟨rfl, List.not_mem_nil, rfl, rfl⟩, rfl⟩,
    .own {} [] rfl (.own {} [] rfl (.done _ _)), .own {} [] rfl (.own {} [] rfl (.done _ _)),
    by decide, by decide⟩

end ByoRedis.Analysis
