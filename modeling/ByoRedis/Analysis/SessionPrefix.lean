import ByoRedis.Model.Replica
import ByoRedis.Analysis.RespParsing

/-!
# What a replica's session makes of the bytes it has

A session is a function of the chunks that have arrived. Its parts only ever wait at the end
of them, so what was decided on some chunks is not revised when more arrive: `Online` is this
for one part, and parts in sequence have it again. On the way from the handshake to the
snapshot every part reads on where the one before stopped, so a snapshot that is loaded lies
in the stream in one piece. None of it depends on the stream being that of a master.
-/

set_option autoImplicit false

namespace ByoRedis.Analysis

open ByoRedis.Model ByoRedis.Lib ByoRedis.Lib.Framing

variable {α β : Type}

/-! ## Parts of a session -/

/-- Parts in sequence that succeed. -/
theorem ok_of_andThen {r : Progress α} {g : α → Session → Progress β} {b : β} {s' : Session}
    (h : r.andThen g = .ok b s') : ∃ a s, r = .ok a s ∧ g a s = .ok b s' := by
  cases r with
  | waiting s => cases h
  | failed e s => cases h
  | ok a s => exact ⟨a, s, rfl, h⟩

/-- The session as a part of it leaves it. -/
def endOf : Progress α → Session
  | .waiting s => s
  | .failed _ s => s
  | .ok _ s => s

/-- The part wants more chunks. -/
def Waits : Progress α → Prop
  | .waiting _ => True
  | .failed _ _ => False
  | .ok _ _ => False

/-- The session with chunks that arrive later. -/
def later (late : List Bytes) (s : Session) : Session := { s with chunks := s.chunks ++ late }

/-- The same result with chunks left over that arrive later. -/
def shift (late : List Bytes) : Progress α → Progress α
  | .waiting s => .waiting (later late s)
  | .failed e s => .failed e (later late s)
  | .ok a s => .ok a (later late s)

/-- What was sent, loaded and applied is not taken back. -/
structure Grown (s s' : Session) : Prop where
  sent : s.sent <+: s'.sent
  loaded : ∀ d, s.loaded = some d → s'.loaded = some d
  applied : s.applied <+: s'.applied

/-- A session has not lost what it has. -/
theorem Grown.refl (s : Session) : Grown s s :=
  ⟨List.prefix_refl _, fun _ h => h, List.prefix_refl _⟩

/-- It grows on through one stretch after another. -/
theorem Grown.trans {s s' s'' : Session} (h : Grown s s') (h' : Grown s' s'') : Grown s s'' :=
  ⟨h.sent.trans h'.sent, fun d hd => h'.loaded d (h.loaded d hd), h.applied.trans h'.applied⟩

/-- What was sent, loaded and applied is the same. -/
structure SameRecord (s s' : Session) : Prop where
  sent : s'.sent = s.sent
  loaded : s'.loaded = s.loaded
  applied : s'.applied = s.applied

/-- Nothing was recorded in either of two stretches. -/
theorem SameRecord.trans {s s' s'' : Session} (h : SameRecord s s') (h' : SameRecord s' s'') :
    SameRecord s s'' :=
  ⟨h'.sent.trans h.sent, h'.loaded.trans h.loaded, h'.applied.trans h.applied⟩

/-- A session that recorded nothing has lost nothing. -/
theorem SameRecord.grown {s s' : Session} (h : SameRecord s s') : Grown s s' := by
  refine ⟨h.sent ▸ List.prefix_refl _, ?_, h.applied ▸ List.prefix_refl _⟩
  intro d hd
  rw [h.loaded]
  exact hd

/-- A part of a session that starts with a snapshot as in `P`: what it has decided stands when
more chunks arrive, and what it has done while it waits is not taken back. -/
structure Online (P : Option Entries → Prop) (f : Session → Progress α) : Prop where
  decided : ∀ {s : Session}, P s.loaded → ¬ Waits (f s) →
    ∀ late, f (later late s) = shift late (f s)
  waiting : ∀ {s s' : Session}, P s.loaded → f s = .waiting s' →
    ∀ late, Grown s' (endOf (f (later late s)))
  grown : ∀ {s : Session}, P s.loaded → Grown s (endOf (f s))

/-- A part that only reads. -/
structure Receives (f : Session → Progress α) : Prop where
  decided : ∀ {s : Session}, ¬ Waits (f s) → ∀ late, f (later late s) = shift late (f s)
  kept : ∀ s : Session, SameRecord s (endOf (f s))

/-- A part that only receives works with any snapshot loaded or none. -/
theorem Receives.online {f : Session → Progress α} (h : Receives f) (P : Option Entries → Prop) :
    Online P f := by
  refine ⟨fun _ => h.decided, ?_, fun _ => (h.kept _).grown⟩
  intro s s' _ hw late
  have hnow := h.kept s
  rw [hw] at hnow
  have hthen := h.kept (later late s)
  refine SameRecord.grown ⟨?_, ?_, ?_⟩
  · exact hthen.sent.trans hnow.sent.symm
  · exact hthen.loaded.trans hnow.loaded.symm
  · exact hthen.applied.trans hnow.applied.symm

/-- Parts in sequence: a result of the first that waits, fails or goes on. -/
theorem decided_andThen {f : Session → Progress α} {g : α → Session → Progress β} {s : Session}
    {late : List Bytes} (hf : ¬ Waits (f s) → f (later late s) = shift late (f s))
    (hg : ∀ a s', f s = .ok a s' → ¬ Waits (g a s') → g a (later late s') = shift late (g a s'))
    (hw : ¬ Waits ((f s).andThen g)) :
    (f (later late s)).andThen g = shift late ((f s).andThen g) := by
  cases hr : f s with
  | waiting s' =>
    rw [hr] at hw
    exact absurd trivial hw
  | failed e s' =>
    rw [hr] at hf
    rw [hf id]
    rfl
  | ok a s' =>
    rw [hr] at hf hw
    rw [hf id]
    exact hg a s' hr hw

/-- Two parts that receive, one after the other. -/
theorem Receives.andThen {f : Session → Progress α} {g : α → Session → Progress β} (hf : Receives f)
    (hg : ∀ a, Receives (g a)) : Receives fun s => (f s).andThen g := by
  refine ⟨?_, ?_⟩
  · intro s hw late
    exact decided_andThen (fun h => hf.decided h late) (fun a s' _ h => (hg a).decided h late) hw
  · intro s
    have hs := hf.kept s
    cases hr : f s with
    | waiting s' =>
      rw [hr] at hs
      exact hs
    | failed e s' =>
      rw [hr] at hs
      exact hs
    | ok a s' =>
      rw [hr] at hs
      exact hs.trans ((hg a).kept s')

/-- Two parts one after the other, the second from where the first leaves the snapshot. -/
theorem Online.andThen {P Q : Option Entries → Prop} {f : Session → Progress α}
    {g : α → Session → Progress β} (hf : Online P f)
    (hpost : ∀ {s s' : Session} {a : α}, P s.loaded → f s = .ok a s' → Q s'.loaded)
    (hg : ∀ a, Online Q (g a)) : Online P fun s => (f s).andThen g := by
  have hgrown : ∀ {s : Session}, P s.loaded → Grown (endOf (f s)) (endOf ((f s).andThen g)) := by
    intro s hs
    cases hr : f s with
    | waiting s' => exact Grown.refl s'
    | failed e s' => exact Grown.refl s'
    | ok a s' => exact (hg a).grown (hpost hs hr)
  refine ⟨?_, ?_, fun hs => (hf.grown hs).trans (hgrown hs)⟩
  · intro s hs hw late
    exact decided_andThen (fun h => hf.decided hs h late)
      (fun a s' hr h => (hg a).decided (hpost hs hr) h late) hw
  · intro s s' hs hw late
    cases hr : f s with
    | waiting s₁ =>
      rw [hr] at hw
      cases hw
      exact (hf.waiting hs hr late).trans (hgrown (s := later late s) hs)
    | failed e s₁ =>
      rw [hr] at hw
      cases hw
    | ok a s₁ =>
      rw [hr] at hw
      have hstable := hf.decided hs (by rw [hr]; exact id) late
      rw [hr] at hstable
      rw [hstable]
      exact (hg a).waiting (hpost hs hr) hw late

/-! ## The readers -/

/-- A result that is already there. -/
theorem receives_ok (a : α) : Receives fun s => Progress.ok a s :=
  ⟨fun _ _ => rfl, fun _ => ⟨rfl, rfl, rfl⟩⟩

/-- A failure that is already there. -/
theorem receives_failed (e : ReplicaError) : Receives fun s => (Progress.failed e s : Progress α) :=
  ⟨fun _ _ => rfl, fun _ => ⟨rfl, rfl, rfl⟩⟩

/-- SOURCE: replication/replica.py:108-117 -/
theorem readOneLoop_later (s : Session) (p : RespParser) (chunks late : List Bytes) :
    (¬ Waits (s.readOneLoop p chunks) →
      (later late s).readOneLoop p (chunks ++ late) = shift late (s.readOneLoop p chunks)) ∧
    SameRecord s (endOf (s.readOneLoop p chunks)) := by
  induction chunks generalizing p with
  | nil => exact ⟨fun hw => absurd trivial hw, ⟨rfl, rfl, rfl⟩⟩
  | cons data rest ih =>
    rw [List.cons_append]
    unfold Session.readOneLoop
    split_ifs with hempty
    · exact ⟨fun _ => rfl, ⟨rfl, rfl, rfl⟩⟩
    · cases hfeed : p.feed data with
      | error e => exact ⟨fun _ => rfl, ⟨rfl, rfl, rfl⟩⟩
      | ok r =>
        obtain ⟨messages, p'⟩ := r
        obtain _ | ⟨m, _ | ⟨m', more⟩⟩ := messages
        · exact ih p'
        · exact ⟨fun _ => rfl, ⟨rfl, rfl, rfl⟩⟩
        · exact ⟨fun _ => rfl, ⟨rfl, rfl, rfl⟩⟩

/-- `read_one` only receives. -/
theorem receives_readOne : Receives Session.readOne :=
  ⟨fun hw late => (readOneLoop_later _ _ _ late).1 hw, fun s => (readOneLoop_later s _ _ []).2⟩

/-- SOURCE: replication/replica.py:163-168 -/
theorem ensureLoop_later (s : Session) (n : ℕ) (buf : Bytes) (chunks late : List Bytes) :
    (¬ Waits (s.ensureLoop n buf chunks) →
      (later late s).ensureLoop n buf (chunks ++ late) =
        shift late (s.ensureLoop n buf chunks)) ∧
    SameRecord s (endOf (s.ensureLoop n buf chunks)) := by
  induction chunks generalizing buf with
  | nil =>
    unfold Session.ensureLoop
    split_ifs with hlt
    · exact ⟨fun hw => absurd trivial hw, ⟨rfl, rfl, rfl⟩⟩
    · refine ⟨fun _ => ?_, ⟨rfl, rfl, rfl⟩⟩
      cases late with
      | nil => simp [hlt, shift, later]
      | cons c late => simp [hlt, shift, later]
  | cons chunk rest ih =>
    rw [List.cons_append]
    unfold Session.ensureLoop
    split_ifs with hlt hempty
    · exact ⟨fun _ => rfl, ⟨rfl, rfl, rfl⟩⟩
    · exact ih (buf ++ chunk)
    · exact ⟨fun _ => rfl, ⟨rfl, rfl, rfl⟩⟩

/-- `ensure` only receives. -/
theorem receives_ensure (n : ℕ) (buf : Bytes) : Receives (Session.ensure n buf) :=
  ⟨fun hw late => (ensureLoop_later _ n buf _ late).1 hw,
    fun s => (ensureLoop_later s n buf _ []).2⟩

/-- SOURCE: replication/replica.py:173-177 -/
theorem headerLoop_later (s : Session) (buf : Bytes) (chunks late : List Bytes) :
    (¬ Waits (s.headerLoop buf chunks) →
      (later late s).headerLoop buf (chunks ++ late) = shift late (s.headerLoop buf chunks)) ∧
    SameRecord s (endOf (s.headerLoop buf chunks)) := by
  induction chunks generalizing buf with
  | nil =>
    cases hline : readLine buf with
    | none =>
      have hwaits : s.headerLoop buf [] = .waiting { s with chunks := [] } := by
        unfold Session.headerLoop
        rw [hline]
      rw [hwaits]
      exact ⟨fun hw => absurd trivial hw, ⟨rfl, rfl, rfl⟩⟩
    | some r =>
      unfold Session.headerLoop
      rw [hline]
      exact ⟨fun _ => rfl, ⟨rfl, rfl, rfl⟩⟩
  | cons chunk rest ih =>
    rw [List.cons_append]
    unfold Session.headerLoop
    cases hline : readLine buf with
    | some r => exact ⟨fun _ => rfl, ⟨rfl, rfl, rfl⟩⟩
    | none =>
      dsimp only
      split_ifs with hempty
      · exact ⟨fun _ => rfl, ⟨rfl, rfl, rfl⟩⟩
      · exact ih (buf ++ chunk)

/-- The loop over the bulk header only receives. -/
theorem receives_headerLoop (buf : Bytes) : Receives fun s => s.headerLoop buf s.chunks :=
  ⟨fun hw late => (headerLoop_later _ buf _ late).1 hw,
    fun s => (headerLoop_later s buf _ []).2⟩

/-- SOURCE: replication/replica.py:189-195 -/
theorem receives_readRdbBody (start length : ℕ) (buf : Bytes) :
    Receives (Session.readRdbBody start length buf) := by
  refine (receives_ensure (start + length) buf).andThen fun buf' => ?_
  dsimp only
  split_ifs with hempty
  · exact receives_ok _
  · refine ⟨?_, ?_⟩
    · intro s hw late
      have hparser : (later late s).parser = s.parser := rfl
      rw [hparser]
      cases s.parser.feed (buf'.drop (start + length)) <;> rfl
    · intro s
      cases s.parser.feed (buf'.drop (start + length)) <;> exact ⟨rfl, rfl, rfl⟩

/-- `_read_rdb_bulk` behind what the parser had left over.
SOURCE: replication/replica.py:170-195 -/
def bulkFrom (cfg : ReplicaConfig) (buf : Bytes) (s : Session) : Progress Bytes :=
  (Session.ensure 1 buf s).andThen fun buf s =>
    if buf.head? ≠ some 36 then .failed .expectedBulkHeader s
    else
      (s.headerLoop buf s.chunks).andThen fun (line, buf) s =>
        let header := line.drop 1
        match pyInt header with
        | none => .failed (.badBulkLength header) s
        | some length =>
          if length < 0 then .failed .nullRdb s
          else if (cfg.snapshotMaxBytes : ℤ) < length then .failed (.snapshotTooLarge length) s
          else Session.readRdbBody (line.length + 2) length.toNat buf s

/-- The reader of the snapshot only receives. -/
theorem receives_bulkFrom (cfg : ReplicaConfig) (buf : Bytes) : Receives (bulkFrom cfg buf) := by
  refine (receives_ensure 1 buf).andThen fun buf => ?_
  split_ifs with hdollar
  · exact receives_failed _
  · refine (receives_headerLoop buf).andThen fun found => ?_
    obtain ⟨line, buf⟩ := found
    dsimp only
    cases pyInt (line.drop 1) with
    | none => exact receives_failed _
    | some length =>
      dsimp only
      split_ifs
      · exact receives_failed _
      · exact receives_failed _
      · exact receives_readRdbBody _ _ _

/-- SOURCE: replication/replica.py:156-195 -/
theorem receives_readRdbBulk (cfg : ReplicaConfig) : Receives (Session.readRdbBulk cfg) := by
  refine ⟨fun {s} hw late => (receives_bulkFrom cfg s.parser.buf).decided
    (s := { s with parser := s.parser.reset }) hw late, ?_⟩
  intro s
  have hkept := (receives_bulkFrom cfg s.parser.buf).kept { s with parser := s.parser.reset }
  exact ⟨hkept.sent, hkept.loaded, hkept.applied⟩

/-! ## The handshake -/

/-- Sending a command in front of a part. -/
theorem Online.send {P : Option Entries → Prop} {f : Session → Progress α} (hf : Online P f)
    (cmd : Command) : Online P fun s => f (s.send cmd) := by
  refine ⟨fun {s} hs => hf.decided (s := s.send cmd) hs,
    fun {s} _ hs => hf.waiting (s := s.send cmd) hs, fun {s} hs => ?_⟩
  have hg := hf.grown (s := s.send cmd) hs
  exact ⟨(List.prefix_append _ _).trans hg.sent, hg.loaded, hg.applied⟩

/-- SOURCE: replication/replica.py:119-141 -/
theorem online_exchange (P : Option Entries → Prop) (cmd : Command) (text : String) :
    Online P (Session.exchange cmd text) := by
  refine ((receives_readOne.andThen fun reply => ?_).online P).send cmd
  split_ifs
  · exact receives_ok _
  · exact receives_failed _

/-- A part leaves the snapshot alone. -/
def KeepsLoaded (f : Session → Progress α) : Prop := ∀ s, (endOf (f s)).loaded = s.loaded

/-- A command of the handshake and its answer load nothing. -/
theorem keepsLoaded_exchange (cmd : Command) (text : String) :
    KeepsLoaded (Session.exchange cmd text) := by
  intro s
  have hreads : Receives fun s => (Session.readOne s).andThen fun reply s =>
      if Session.isReply text reply then .ok () s else .failed .unexpectedReply s := by
    refine receives_readOne.andThen fun reply => ?_
    split_ifs
    · exact receives_ok _
    · exact receives_failed _
  exact (hreads.kept (s.send cmd)).loaded

/-- What is loaded stays after a result. -/
theorem KeepsLoaded.ok {f : Session → Progress α} (h : KeepsLoaded f) {s s' : Session} {a : α}
    (hr : f s = .ok a s') : s'.loaded = s.loaded := by
  have hs := h s
  rw [hr] at hs
  exact hs

/-- The snapshot takes the place of the keyspace.
SOURCE: replication/replica.py:150-154 -/
theorem online_load (cfg : ReplicaConfig) (now : ℤ) (rdb : Bytes) :
    Online (· = none) fun s => match loadRdbBytes cfg.snapshotMaxBytes now rdb with
      | .error e => Progress.failed (.rdb e) s
      | .ok entries => .ok () { s with loaded := some entries } := by
  cases loadRdbBytes cfg.snapshotMaxBytes now rdb with
  | error e => exact (receives_failed _).online _
  | ok entries =>
    refine ⟨fun _ _ _ => rfl, fun _ hw => (by cases hw), fun {s} hs => ?_⟩
    refine ⟨List.prefix_refl _, ?_, List.prefix_refl _⟩
    intro d hd
    have hnone : s.loaded = none := hs
    rw [hnone] at hd
    cases hd

/-- SOURCE: replication/replica.py:143-154 -/
theorem online_psync (cfg : ReplicaConfig) (now : ℤ) :
    Online (· = none) (Session.psync cfg now) := by
  refine Online.send ((receives_readOne.online (· = none)).andThen (Q := (· = none)) ?_
    fun full => ?_) _
  · intro s s' full hs hr
    have hk := (receives_readOne.kept s).loaded
    rw [hr] at hk
    exact hk.trans hs
  · split_ifs with hfull
    · refine ((receives_readRdbBulk cfg).online (· = none)).andThen (Q := (· = none)) ?_
        (online_load cfg now)
      intro s s' rdb hs hr
      have hk := ((receives_readRdbBulk cfg).kept s).loaded
      rw [hr] at hk
      exact hk.trans hs
    · exact (receives_failed _).online _

/-- SOURCE: replication/replica.py:98-154 -/
theorem online_handshake (cfg : ReplicaConfig) (now : ℤ) :
    Online (· = none) (Session.handshake cfg now) := by
  have hexchange : ∀ (cmd : Command) (text : String) {g : Unit → Session → Progress Unit},
      (∀ u, Online (· = none) (g u)) →
      Online (· = none) fun s => (Session.exchange cmd text s).andThen g := by
    intro cmd text g hg
    refine (online_exchange (· = none) cmd text).andThen (Q := (· = none)) ?_ hg
    intro s s' u hs hr
    exact ((keepsLoaded_exchange cmd text).ok hr).trans hs
  have hrest := hexchange [ascii "PING"] "PONG" fun _ =>
    hexchange [ascii "REPLCONF", ascii "listening-port", natBytes cfg.listeningPort] "OK" fun _ =>
      hexchange [ascii "REPLCONF", ascii "capa", ascii "eof"] "OK" fun _ => online_psync cfg now
  unfold Session.handshake
  cases cfg.masterauth with
  | none => exact hrest
  | some pw => exact hexchange [ascii "AUTH", encodeUtf8 pw] "OK" fun _ => hrest

/-! ## The stream of commands -/

/-- SOURCE: replication/replica.py:212-227 -/
theorem applyMessages_later (late : List Bytes) (messages : List RespValue) (s : Session) :
    Session.applyMessages messages (later late s) =
      shift late (Session.applyMessages messages s) ∧
    ¬ Waits (Session.applyMessages messages s) ∧
    Grown s (endOf (Session.applyMessages messages s)) := by
  induction messages generalizing s with
  | nil => exact ⟨rfl, id, Grown.refl s⟩
  | cons msg rest ih =>
    cases msg with
    | array items =>
      unfold Session.applyMessages
      split_ifs with hempty
      · exact ih s
      · cases Session.argvOf items with
        | none => exact ⟨rfl, id, Grown.refl s⟩
        | some argv =>
          obtain ⟨hlater, hw, hg⟩ := ih { s with applied := s.applied ++ [argv] }
          exact ⟨hlater, hw, hg.sent, hg.loaded, (List.prefix_append _ _).trans hg.applied⟩
    | null => exact ih s
    | int i => exact ih s
    | bulk b => exact ih s
    | str t => exact ih s
    | err t => exact ih s

/-- Applying the messages of a chunk does not look at the chunks behind it. -/
theorem feedAndApply_later (late : List Bytes) (data : Bytes) (s : Session) :
    Session.feedAndApply data (later late s) = shift late (Session.feedAndApply data s) ∧
    ¬ Waits (Session.feedAndApply data s) ∧ Grown s (endOf (Session.feedAndApply data s)) := by
  have hparser : (later late s).parser = s.parser := rfl
  unfold Session.feedAndApply
  rw [hparser]
  cases s.parser.feed data with
  | error e => exact ⟨rfl, id, Grown.refl s⟩
  | ok r =>
    obtain ⟨hlater, hw, hg⟩ := applyMessages_later late r.1 { s with parser := r.2 }
    exact ⟨hlater, hw, hg.sent, hg.loaded, hg.applied⟩

/-- Applying messages works with any snapshot loaded or none. -/
theorem online_feedAndApply (P : Option Entries → Prop) (data : Bytes) :
    Online P (Session.feedAndApply data) := by
  refine ⟨fun _ _ late => (feedAndApply_later late data _).1, fun {s s'} _ hw => ?_,
    fun {s} _ => (feedAndApply_later [] data s).2.2⟩
  have hno := (feedAndApply_later [] data s).2.1
  rw [hw] at hno
  exact absurd trivial hno

/-- The loop replaces the chunks of its session. -/
theorem readLoop_chunks (s : Session) (chunks rest : List Bytes) :
    ({ s with chunks := chunks } : Session).readLoop rest = s.readLoop rest := by
  cases rest <;> rfl

/-- A turn of the loop of `_read_loop`. -/
theorem readLoop_cons (s : Session) (data : Bytes) (rest : List Bytes) :
    s.readLoop (data :: rest) = if data.isEmpty then .failed .closed { s with chunks := rest }
      else (Session.feedAndApply data { s with chunks := rest }).andThen fun _ s =>
        s.readLoop rest := by
  rw [Session.readLoop]
  cases Session.feedAndApply data { s with chunks := rest } <;> rfl

/-- SOURCE: replication/replica.py:201-210 -/
theorem readLoop_later (s : Session) (chunks late : List Bytes) :
    (¬ Waits (s.readLoop chunks) → s.readLoop (chunks ++ late) = shift late (s.readLoop chunks)) ∧
    (∀ s', s.readLoop chunks = .waiting s' → s.readLoop (chunks ++ late) = s'.readLoop late) ∧
    Grown s (endOf (s.readLoop chunks)) := by
  induction chunks generalizing s with
  | nil =>
    refine ⟨fun hw => absurd trivial hw, ?_, List.prefix_refl _, fun _ h => h,
      List.prefix_refl _⟩
    intro s' hs'
    cases hs'
    exact (readLoop_chunks s [] late).symm
  | cons data rest ih =>
    rw [List.cons_append, readLoop_cons, readLoop_cons]
    split_ifs with hempty
    · exact ⟨fun _ => rfl, fun s' hs' => (by cases hs'), List.prefix_refl _, fun _ h => h,
        List.prefix_refl _⟩
    · obtain ⟨hlater, hw, hg⟩ := feedAndApply_later late data { s with chunks := rest }
      have hsame : later late { s with chunks := rest } = { s with chunks := rest ++ late } := rfl
      rw [hsame] at hlater
      rw [hlater]
      cases hr : Session.feedAndApply data { s with chunks := rest } with
      | waiting s₁ =>
        rw [hr] at hw
        exact absurd trivial hw
      | failed e s₁ =>
        rw [hr] at hg
        exact ⟨fun _ => rfl, fun s' hs' => (by cases hs'), hg.sent, hg.loaded, hg.applied⟩
      | ok u s₁ =>
        rw [hr] at hg
        obtain ⟨hdecided, hwaiting, hgrown⟩ := ih s₁
        have hloop : (later late s₁).readLoop (rest ++ late) = s₁.readLoop (rest ++ late) :=
          readLoop_chunks s₁ _ _
        simp only [shift, Progress.andThen]
        rw [hloop]
        exact ⟨hdecided, hwaiting, hg.sent.trans hgrown.sent,
          fun d hd => hgrown.loaded d (hg.loaded d hd), hg.applied.trans hgrown.applied⟩

/-- So does the loop that reads them. -/
theorem online_readLoop (P : Option Entries → Prop) :
    Online P fun s => s.readLoop s.chunks := by
  refine ⟨?_, ?_, fun {s} _ => (readLoop_later s s.chunks []).2.2⟩
  · intro s _ hw late
    show (later late s).readLoop (s.chunks ++ late) = _
    rw [show (later late s).readLoop (s.chunks ++ late) = s.readLoop (s.chunks ++ late) from
      readLoop_chunks s _ _]
    exact (readLoop_later s s.chunks late).1 hw
  · intro s s' _ hw late
    show Grown s' (endOf ((later late s).readLoop (s.chunks ++ late)))
    rw [show (later late s).readLoop (s.chunks ++ late) = s.readLoop (s.chunks ++ late) from
      readLoop_chunks s _ _, (readLoop_later s s.chunks late).2.1 s' hw]
    exact (readLoop_later s' late []).2.2

/-! ## The whole session -/

/-- A session that has just connected.
SOURCE: replication/replica.py:83-89 -/
def connected (cfg : ReplicaConfig) (chunks : List Bytes) : Session where
  parser := { limits := { maxBulkLen := cfg.maxBulkLen } }
  chunks := chunks

/-- The whole session as a part. -/
def wholeSession (cfg : ReplicaConfig) (now : ℤ) (s : Session) : Progress Unit :=
  (s.handshake cfg now).andThen fun _ s =>
    (s.feedAndApply []).andThen fun _ s => s.readLoop s.chunks

/-- A session starts with nothing loaded. -/
theorem online_wholeSession (cfg : ReplicaConfig) (now : ℤ) :
    Online (· = none) (wholeSession cfg now) :=
  (online_handshake cfg now).andThen (Q := fun _ => True) (fun _ _ => trivial) fun _ =>
    (online_feedAndApply _ []).andThen (Q := fun _ => True) (fun _ _ => trivial) fun _ =>
      online_readLoop _

/-! ## Where a snapshot comes from -/

/-- The bytes of the stream that have been read and not used, or not read. -/
def unread (s : Session) : Bytes := s.parser.buf ++ s.chunks.flatten

/-- A part in front of the stream of commands: it applies nothing, goes on where it stopped, and
a snapshot that is new came whole and in one piece in what was unread. -/
structure Prelude (cfg : ReplicaConfig) (now : ℤ) (f : Session → Progress α) : Prop where
  applied : ∀ s : Session, (endOf (f s)).applied = s.applied
  snapshot : ∀ {s : Session} {d : Entries}, (endOf (f s)).loaded = some d → s.loaded = some d ∨
    ∃ rdb, rdb <:+: unread s ∧ loadRdbBytes cfg.snapshotMaxBytes now rdb = .ok d
  rest : ∀ {s s' : Session} {a : α}, f s = .ok a s' → unread s' <:+ unread s

variable {cfg : ReplicaConfig} {now : ℤ}

/-- A part that receives and takes its chunks from the front belongs to the prelude. -/
theorem Receives.prelude {f : Session → Progress α} (h : Receives f)
    (hrest : ∀ {s s' : Session} {a : α}, f s = .ok a s' → unread s' <:+ unread s) :
    Prelude cfg now f := by
  refine ⟨fun s => (h.kept s).applied, ?_, hrest⟩
  intro s d hd
  rw [(h.kept s).loaded] at hd
  exact Or.inl hd

/-- Two parts of the prelude. -/
theorem Prelude.andThen {f : Session → Progress α} {g : α → Session → Progress β}
    (hf : Prelude cfg now f) (hg : ∀ a, Prelude cfg now (g a)) :
    Prelude cfg now fun s => (f s).andThen g := by
  refine ⟨?_, ?_, ?_⟩
  · intro s
    have happlied := hf.applied s
    cases hr : f s with
    | waiting s' =>
      rw [hr] at happlied
      exact happlied
    | failed e s' =>
      rw [hr] at happlied
      exact happlied
    | ok a s' =>
      rw [hr] at happlied
      exact ((hg a).applied s').trans happlied
  · intro s d hd
    have hsnapshot := @Prelude.snapshot _ _ _ _ hf s d
    cases hr : f s with
    | waiting s' =>
      rw [hr] at hd hsnapshot
      exact hsnapshot hd
    | failed e s' =>
      rw [hr] at hd hsnapshot
      exact hsnapshot hd
    | ok a s' =>
      rw [hr] at hd hsnapshot
      obtain hold | ⟨rdb, hin, hload⟩ := (hg a).snapshot hd
      · exact hsnapshot hold
      · exact Or.inr ⟨rdb, hin.trans (hf.rest hr).isInfix, hload⟩
  · intro s s' b hb
    obtain ⟨a, s₁, hr, hb⟩ := ok_of_andThen hb
    exact ((hg a).rest hb).trans (hf.rest hr)

/-- SOURCE: protocol/parser.py:33-49 -/
theorem feed_rest {p p' : RespParser} {data : Bytes} {messages : List RespValue}
    (h : p.feed data = .ok (messages, p')) : p'.buf <:+ p.buf ++ data := by
  unfold RespParser.feed at h
  split_ifs at h with hroom
  cases hrun : run (RespParser.top p.limits) (p.buf ++ data) with
  | error e =>
    rw [hrun] at h
    cases h
  | ok q =>
    rw [hrun] at h
    cases h
    exact residue_suffix (top_lawful p.limits) hrun

/-- The end of a suffix in front of more. -/
theorem suffix_append_right {a b : Bytes} (h : a <:+ b) (c : Bytes) : a ++ c <:+ b ++ c := by
  obtain ⟨front, rfl⟩ := h
  exact ⟨front, (List.append_assoc _ _ _).symm⟩

/-- SOURCE: replication/replica.py:108-117 -/
theorem readOneLoop_rest {s s' : Session} {p : RespParser} {chunks : List Bytes} {v : RespValue}
    (h : s.readOneLoop p chunks = .ok v s') : unread s' <:+ p.buf ++ chunks.flatten := by
  induction chunks generalizing p with
  | nil => cases h
  | cons data rest ih =>
    rw [List.flatten_cons, ← List.append_assoc]
    unfold Session.readOneLoop at h
    split_ifs at h with hempty
    cases hfeed : p.feed data with
    | error e =>
      rw [hfeed] at h
      cases h
    | ok r =>
      obtain ⟨messages, p'⟩ := r
      have hsuffix : p'.buf ++ rest.flatten <:+ p.buf ++ data ++ rest.flatten :=
        suffix_append_right (feed_rest hfeed) _
      rw [hfeed] at h
      obtain _ | ⟨m, _ | ⟨m', more⟩⟩ := messages
      · exact (ih h).trans hsuffix
      · cases h
        exact hsuffix
      · cases h

/-- SOURCE: replication/replica.py:163-168 -/
theorem ensureLoop_rest {s s' : Session} {n : ℕ} {buf buf' : Bytes} {chunks : List Bytes}
    (h : s.ensureLoop n buf chunks = .ok buf' s') :
    buf' ++ s'.chunks.flatten = buf ++ chunks.flatten ∧ s'.parser = s.parser := by
  induction chunks generalizing buf with
  | nil =>
    unfold Session.ensureLoop at h
    split_ifs at h
    cases h
    exact ⟨rfl, rfl⟩
  | cons chunk rest ih =>
    unfold Session.ensureLoop at h
    split_ifs at h
    · obtain ⟨hflat, hparser⟩ := ih h
      rw [hflat, List.append_assoc, List.flatten_cons]
      exact ⟨rfl, hparser⟩
    · cases h
      exact ⟨rfl, rfl⟩

/-- SOURCE: replication/replica.py:173-177 -/
theorem headerLoop_rest {s s' : Session} {buf buf' line : Bytes} {chunks : List Bytes}
    (h : s.headerLoop buf chunks = .ok (line, buf') s') :
    buf' ++ s'.chunks.flatten = buf ++ chunks.flatten ∧ s'.parser = s.parser := by
  induction chunks generalizing buf with
  | nil =>
    unfold Session.headerLoop at h
    split at h
    · cases h
      exact ⟨rfl, rfl⟩
    · cases h
  | cons chunk rest ih =>
    unfold Session.headerLoop at h
    split at h
    · cases h
      exact ⟨rfl, rfl⟩
    · dsimp only at h
      split_ifs at h
      obtain ⟨hflat, hparser⟩ := ih h
      rw [hflat, List.append_assoc, List.flatten_cons]
      exact ⟨rfl, hparser⟩

/-- The snapshot is a piece of what was unread, and what follows it is left.
SOURCE: replication/replica.py:189-195 -/
theorem readRdbBody_piece {s s' : Session} {start length : ℕ} {buf rdb : Bytes}
    (hempty : s.parser.buf = []) (h : Session.readRdbBody start length buf s = .ok rdb s') :
    rdb <:+: buf ++ s.chunks.flatten ∧ unread s' <:+ buf ++ s.chunks.flatten := by
  unfold Session.readRdbBody at h
  obtain ⟨buf', s₁, hr, h⟩ := ok_of_andThen h
  obtain ⟨hflat, hparser⟩ := ensureLoop_rest hr
  rw [← hparser] at hempty
  rw [← hflat]
  have hpiece : (buf'.drop start).take length <:+: buf' ++ s₁.chunks.flatten :=
    ((List.take_prefix _ _).isInfix.trans (List.drop_suffix _ _).isInfix).trans
      (List.prefix_append _ _).isInfix
  dsimp only at h
  split_ifs at h with hleft
  · cases h
    refine ⟨hpiece, ?_⟩
    rw [unread, hempty, List.nil_append]
    exact List.suffix_append _ _
  · split at h
    · cases h
    · rename_i messages p hfeed
      cases h
      have hrest := feed_rest hfeed
      rw [hempty, List.nil_append] at hrest
      exact ⟨hpiece, suffix_append_right (hrest.trans (List.drop_suffix _ _)) _⟩

/-- SOURCE: replication/replica.py:156-195 -/
theorem readRdbBulk_piece {s s' : Session} {rdb : Bytes}
    (h : Session.readRdbBulk cfg s = .ok rdb s') :
    rdb <:+: unread s ∧ unread s' <:+ unread s := by
  unfold Session.readRdbBulk at h
  obtain ⟨buf, s₁, hr, h⟩ := ok_of_andThen h
  obtain ⟨hflat, hparser⟩ := ensureLoop_rest hr
  split_ifs at h
  obtain ⟨⟨line, buf₂⟩, s₂, hr₂, h⟩ := ok_of_andThen h
  obtain ⟨hflat₂, hparser₂⟩ := headerLoop_rest hr₂
  dsimp only at h
  split at h
  · cases h
  · split_ifs at h
    have hpiece := readRdbBody_piece (by rw [hparser₂, hparser]; rfl) h
    rw [hflat₂, hflat] at hpiece
    exact hpiece

/-- Sending a command in front of a part. -/
theorem Prelude.send {f : Session → Progress α} (hf : Prelude cfg now f) (cmd : Command) :
    Prelude cfg now fun s => f (s.send cmd) :=
  ⟨fun s => hf.applied (s.send cmd), fun {s _} hd => hf.snapshot (s := s.send cmd) hd,
    fun {s _ _} h => hf.rest (s := s.send cmd) h⟩

/-- The snapshot that is loaded was read and accepted.
SOURCE: replication/replica.py:150-154 -/
theorem prelude_load : Prelude cfg now fun s => (Session.readRdbBulk cfg s).andThen fun rdb s =>
    match loadRdbBytes cfg.snapshotMaxBytes now rdb with
    | .error e => .failed (.rdb e) s
    | .ok entries => .ok () { s with loaded := some entries } := by
  have hkept := (receives_readRdbBulk cfg).kept
  refine ⟨?_, ?_, ?_⟩
  · intro s
    have hs := (hkept s).applied
    cases hr : Session.readRdbBulk cfg s with
    | waiting s₁ =>
      rw [hr] at hs
      exact hs
    | failed e s₁ =>
      rw [hr] at hs
      exact hs
    | ok rdb s₁ =>
      rw [hr] at hs
      rw [Progress.andThen]
      cases loadRdbBytes cfg.snapshotMaxBytes now rdb <;> exact hs
  · intro s d hd
    have hs := (hkept s).loaded
    cases hr : Session.readRdbBulk cfg s with
    | waiting s₁ =>
      rw [hr] at hs hd
      exact Or.inl (hs.symm.trans hd)
    | failed e s₁ =>
      rw [hr] at hs hd
      exact Or.inl (hs.symm.trans hd)
    | ok rdb s₁ =>
      rw [hr] at hs hd
      rw [Progress.andThen] at hd
      cases hload : loadRdbBytes cfg.snapshotMaxBytes now rdb with
      | error e =>
        rw [hload] at hd
        exact Or.inl (hs.symm.trans hd)
      | ok entries =>
        rw [hload] at hd
        cases hd
        exact Or.inr ⟨rdb, (readRdbBulk_piece hr).1, hload⟩
  · intro s s' u h
    obtain ⟨rdb, s₁, hr, h⟩ := ok_of_andThen h
    have hrest := (readRdbBulk_piece hr).2
    cases hload : loadRdbBytes cfg.snapshotMaxBytes now rdb with
    | error e =>
      rw [hload] at h
      cases h
    | ok entries =>
      rw [hload] at h
      cases h
      exact hrest

/-- A result that is already there reads nothing. -/
theorem prelude_ok (a : α) : Prelude cfg now fun s => Progress.ok a s :=
  (receives_ok a).prelude fun h => by cases h; exact List.suffix_refl _

/-- Nor does a failure that is already there. -/
theorem prelude_failed (e : ReplicaError) :
    Prelude cfg now fun s => (Progress.failed e s : Progress α) :=
  (receives_failed e).prelude fun h => by cases h

/-- SOURCE: replication/replica.py:119-141 -/
theorem prelude_exchange (cmd : Command) (text : String) :
    Prelude cfg now (Session.exchange cmd text) := by
  refine ((receives_readOne.prelude readOneLoop_rest).andThen fun reply => ?_).send cmd
  split_ifs
  · exact prelude_ok _
  · exact prelude_failed _

/-- SOURCE: replication/replica.py:98-154 -/
theorem prelude_handshake : Prelude cfg now (Session.handshake cfg now) := by
  have hpsync : Prelude cfg now (Session.psync cfg now) := by
    refine ((receives_readOne.prelude readOneLoop_rest).andThen fun full => ?_).send _
    split_ifs
    · exact prelude_load
    · exact prelude_failed _
  have hrest := (prelude_exchange [ascii "PING"] "PONG").andThen fun _ =>
    (prelude_exchange [ascii "REPLCONF", ascii "listening-port", natBytes cfg.listeningPort]
      "OK").andThen fun _ =>
      (prelude_exchange [ascii "REPLCONF", ascii "capa", ascii "eof"] "OK").andThen fun _ => hpsync
  unfold Session.handshake
  cases cfg.masterauth with
  | none => exact hrest
  | some pw => exact (prelude_exchange [ascii "AUTH", encodeUtf8 pw] "OK").andThen fun _ => hrest

/-- The handshake ends with a snapshot.
SOURCE: replication/replica.py:143-154 -/
theorem loaded_of_handshake {s s' : Session} {u : Unit}
    (h : Session.handshake cfg now s = .ok u s') : ∃ d, s'.loaded = some d := by
  unfold Session.handshake at h
  obtain ⟨-, s₁, -, h⟩ := ok_of_andThen h
  obtain ⟨-, s₂, -, h⟩ := ok_of_andThen h
  obtain ⟨-, s₃, -, h⟩ := ok_of_andThen h
  obtain ⟨-, s₄, -, h⟩ := ok_of_andThen h
  unfold Session.psync at h
  obtain ⟨full, s₅, -, h⟩ := ok_of_andThen h
  split_ifs at h
  obtain ⟨rdb, s₆, -, h⟩ := ok_of_andThen h
  cases hload : loadRdbBytes cfg.snapshotMaxBytes now rdb with
  | error e =>
    rw [hload] at h
    cases h
  | ok entries =>
    rw [hload] at h
    cases h
    exact ⟨entries, rfl⟩

/-- A session is its handshake and what it goes on with. -/
theorem run_eq (cfg : ReplicaConfig) (now : ℤ) (chunks : List Bytes) :
    Session.run cfg now chunks = wholeSession cfg now (connected cfg chunks) := rfl

/-- A session that has ended does not see what arrives later. -/
theorem run_decided {early : List Bytes} (h : ¬ Waits (Session.run cfg now early))
    (late : List Bytes) :
    Session.run cfg now (early ++ late) = shift late (Session.run cfg now early) :=
  (online_wholeSession cfg now).decided (s := connected cfg early) rfl h late

/-- A session only gains by later chunks. -/
theorem run_grown (cfg : ReplicaConfig) (now : ℤ) (early late : List Bytes) :
    Grown (endOf (Session.run cfg now early)) (endOf (Session.run cfg now (early ++ late))) := by
  cases hr : Session.run cfg now early with
  | waiting s => exact (online_wholeSession cfg now).waiting (s := connected cfg early) rfl hr late
  | failed e s =>
    rw [run_decided (by rw [hr]; exact id), hr]
    exact ⟨List.prefix_refl _, fun _ h => h, List.prefix_refl _⟩
  | ok u s =>
    rw [run_decided (by rw [hr]; exact id), hr]
    exact ⟨List.prefix_refl _, fun _ h => h, List.prefix_refl _⟩

/-- Either the session is still in its handshake, or it has loaded a snapshot there and keeps
it. -/
theorem run_cases (cfg : ReplicaConfig) (now : ℤ) (chunks : List Bytes) :
    endOf (Session.run cfg now chunks) =
      endOf (Session.handshake cfg now (connected cfg chunks)) ∨
    ∃ d, (endOf (Session.handshake cfg now (connected cfg chunks))).loaded = some d ∧
      (endOf (Session.run cfg now chunks)).loaded = some d := by
  rw [run_eq, wholeSession]
  cases hr : Session.handshake cfg now (connected cfg chunks) with
  | waiting s => exact Or.inl rfl
  | failed e s => exact Or.inl rfl
  | ok u s =>
    obtain ⟨d, hd⟩ := loaded_of_handshake hr
    have hloop := (online_feedAndApply (fun _ => True) []).andThen (Q := fun _ => True)
      (fun _ _ => trivial) fun _ => online_readLoop _
    exact Or.inr ⟨d, hd, (hloop.grown (s := s) trivial).loaded d hd⟩

/-- **What a session has decided stands, and it loads nothing but a snapshot it was sent.** For
every two sequences of chunks, whoever sent them: when more chunks arrive, no command that was
sent or applied and no snapshot that was loaded is taken back, and a session that has failed
has failed. A snapshot that is loaded stands in the stream in one piece and passes all the
checks of the format, and nothing is applied before one is loaded.
SOURCE: replication/replica.py:83-227 -/
theorem session_stands (cfg : ReplicaConfig) (now : ℤ) (early late : List Bytes) :
    Grown (endOf (Session.run cfg now early)) (endOf (Session.run cfg now (early ++ late))) ∧
    (∀ e s, Session.run cfg now early = .failed e s →
      Session.run cfg now (early ++ late) = .failed e (later late s)) ∧
    (∀ d, (endOf (Session.run cfg now early)).loaded = some d →
      ∃ rdb, rdb <:+: early.flatten ∧ loadRdbBytes cfg.snapshotMaxBytes now rdb = .ok d) ∧
    ((endOf (Session.run cfg now early)).loaded = none →
      (endOf (Session.run cfg now early)).applied = []) := by
  have hpre := @prelude_handshake cfg now
  have hsnapshot : ∀ d, (endOf (Session.handshake cfg now (connected cfg early))).loaded = some d →
      ∃ rdb, rdb <:+: early.flatten ∧ loadRdbBytes cfg.snapshotMaxBytes now rdb = .ok d := by
    intro d hd
    obtain hold | hnew := hpre.snapshot hd
    · cases hold
    · exact hnew
  refine ⟨run_grown cfg now early late, ?_, ?_, ?_⟩
  · intro e s hr
    rw [run_decided (by rw [hr]; exact id), hr]
    rfl
  · intro d hd
    obtain hsame | ⟨d', hd', hloaded⟩ := run_cases cfg now early
    · rw [hsame] at hd
      exact hsnapshot d hd
    · cases hloaded.symm.trans hd
      exact hsnapshot d hd'
  · intro hd
    obtain hsame | ⟨d', hd', hloaded⟩ := run_cases cfg now early
    · rw [hsame]
      exact hpre.applied (connected cfg early)
    · rw [hloaded] at hd
      cases hd

end ByoRedis.Analysis
