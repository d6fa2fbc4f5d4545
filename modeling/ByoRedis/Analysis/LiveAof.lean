import ByoRedis.Lib.Trace
import ByoRedis.Analysis.AofRewrite
import ByoRedis.Analysis.SystemSteps

/-!
# The AOF of a running server

`Sound` is the invariant of a master with an AOF and without deadlines, under every schedule
of its tasks: the records in the file, followed by those the lock holder has still to
append, replay to the keyspace; and a rewrite in progress holds commands that do. It is kept
by every action (`Sound.step`), provided that the commands that take effect are within the
limits the AOF is read with. That is not a matter of course: the parser of a connection
bounds bulk strings, but an argument may come as a simple string.

`live_aof` is the invariant where the lock is free, with the order of the records.
-/

set_option autoImplicit false

namespace ByoRedis.Analysis

open ByoRedis.Model ByoRedis.Lib ByoRedis.Interface

/-! ## The invariant -/

/-- A master with an AOF and without a memory limit. -/
structure AofMaster (cfg : Config) : Prop where
  role : cfg.isReplica = false
  enabled : cfg.aofEnabled = true
  unlimited : cfg.maxmemoryBytes = 0
  names : 5 ≤ cfg.protoMaxBulkLen

/-- A command that can stand in the file: a write without TTL that is read back. -/
structure Kept (cfg : Config) (argv : Command) : Prop where
  loggable : Loggable argv
  readable : Readable cfg.protoMaxBulkLen argv

/-- The records of the file and the keyspace belong together, whatever the tasks are at. -/
structure Sound (cfg : Config) (sys : System) : Prop where
  config : sys.server.config = cfg
  unlimited : sys.server.store.maxmemoryBytes = 0
  opened : sys.server.aof.opened = true
  healthy : sys.server.aof.failure = none
  timeless : Timeless sys.server.store.entries
  solid : Solid cfg.protoMaxBulkLen sys.server.store.entries
  file : ∃ cs, sys.server.aof.file = some (cs.flatMap encodeCommand) ∧ (∀ c ∈ cs, Kept cfg c) ∧
    replay (cs ++ unappended sys.holder) Dict.empty = sys.server.store.entries
  pending : ∀ c ∈ unpropagated sys.holder, Kept cfg c
  rewriting : ∀ d, sys.holder = .rewriting d → d = sys.server.store.entries
  replacing : ∀ cs, sys.holder = .replacing cs →
    (∀ c ∈ cs, Kept cfg c) ∧ replay cs Dict.empty = sys.server.store.entries
  rdb : sys.server.rdbFile = none ∨
    ∃ d, Timeless d ∧ sys.server.rdbFile = dumpRdbEntries d
  bgsave : ∀ d, sys.bgsave = some d → Timeless d

/-- What a run is allowed: no deadlines and no failing appends; a command that takes effect,
and a command of a rewrite, is within the limits the AOF is read with. -/
def Allowed (sys : System) : Action → Prop
  | .command _ argv _ => TtlFree argv ∧
    (isWrite argv = true → (effect sys.now argv (sys.server.store.live sys.now)).isSome →
      Readable sys.server.config.protoMaxBulkLen argv)
  | .append fault => fault = .none
  | .rewriteBuild => ∀ d, sys.holder = .rewriting d →
    ∀ cs, rewriteCommands sys.now d = some cs → ∀ c ∈ cs, c.length ≤ 1024
  | _ => True

variable {cfg : Config} {sys sys' : System} {evs : List Event}

/-- The invariant does not see a look at the data. -/
theorem Sound.looked (h : Sound cfg sys) {srv : Server} {bgsave : Option Entries}
    {resyncs : Dict ℕ Resync} {now : ℤ} {closed : Bool} (hcfg : srv.config = sys.server.config)
    (haof : srv.aof = sys.server.aof) (hlooks : Looks sys.now sys.server.store srv.store)
    (hrdb : srv.rdbFile = none ∨ ∃ d, Timeless d ∧ srv.rdbFile = dumpRdbEntries d)
    (hbg : ∀ d, bgsave = some d → Timeless d) :
    Sound cfg ⟨srv, now, sys.holder, bgsave, resyncs, closed⟩ := by
  have hent := hlooks.entries (h.timeless.fresh sys.now)
  refine ⟨hcfg.trans h.config, hlooks.limits.1.trans h.unlimited, ?_, ?_, ?_, ?_, ?_, h.pending,
    ?_, ?_, hrdb, hbg⟩
  · rw [haof]; exact h.opened
  · rw [haof]; exact h.healthy
  · rw [hent]; exact h.timeless
  · rw [hent]; exact h.solid
  · rw [hent, haof]; exact h.file
  · rw [hent]; exact h.rewriting
  · rw [hent]; exact h.replacing

/-- A step beside the log and the store leaves the master sound. -/
theorem Sound.aside (h : Sound cfg sys) (ha : Aside sys sys') : Sound cfg sys' := by
  have hrdb := h.rdb
  have hbgsave := h.bgsave
  rw [← ha.rdb] at hrdb
  rw [← ha.bgsave] at hbgsave
  have hs := @Sound.looked cfg sys h sys'.server sys'.bgsave sys'.resyncs sys'.now
    sys'.handleClosed ha.config ha.aof ha.store hrdb hbgsave
  rw [← ha.holder] at hs
  exact hs

/-! ## The steps of the lock holder -/

/-- SOURCE: server.py:409-498 -/
theorem Sound.command (h : Sound cfg sys) {conn : ℕ} {argv : Command}
    (ht : TtlFree argv)
    (hread : isWrite argv = true → (effect sys.now argv (sys.server.store.live sys.now)).isSome →
      Readable cfg.protoMaxBulkLen argv)
    (hs : CommandStep sys conn argv sys' evs) : Sound cfg sys' := by
  have hlive := live_of_fresh (s := sys.server.store) (h.timeless.fresh sys.now)
  cases hs with
  | answered srv reply hframe =>
    refine h.looked hframe.config hframe.aof hframe.store ?_ h.bgsave
    obtain hr | ⟨-, payload, hdump, hr⟩ := hframe.rdb
    · rw [hr]; exact h.rdb
    · exact Or.inr ⟨_, by rw [hlive]; exact h.timeless, hr.trans hdump.symm⟩
  | accepted d evicted s reply hfree hw heff hlim =>
    have hkept : Kept cfg argv := ⟨⟨hw, ht⟩, hread hw (by rw [heff]; rfl)⟩
    obtain ⟨hent, hsame, -⟩ := handled_spec hw heff
    rw [enforceMemoryLimit_unlimited (by rw [hsame.1]; exact h.unlimited)] at hlim
    cases hlim
    rw [hlive] at heff
    obtain ⟨cs, hfile, hcs, hreplay⟩ := h.file
    have hreplay' : replay cs Dict.empty = sys.server.store.entries := by
      rw [hfree] at hreplay
      simpa [unappended] using hreplay
    refine ⟨h.config, hsame.1.trans h.unlimited, h.opened, h.healthy, ?_, ?_, ?_, ?_, ?_, ?_,
      h.rdb, h.bgsave⟩
    · rw [hent]; exact h.timeless.effect ht heff
    · rw [hent]; exact h.solid.effect hkept.readable.bulk heff
    · refine ⟨cs, hfile, hcs, ?_⟩
      show replay (cs ++ [argv]) Dict.empty = _
      rw [replay_append, hreplay', replay_cons_of_effect
        ((effect_of_ttlFree ht 0 sys.now _).trans heff), hent]
      rfl
    · intro c hc
      rw [show c = argv from List.mem_singleton.mp hc]
      exact hkept
    · intro d' hd'; cases hd'
    · intro cs' hcs'; cases hcs'

/-- What an append without a fault does to a healthy log. -/
theorem Sound.append_eq (hm : AofMaster cfg) (h : Sound cfg sys) (argv : Command) :
    sys.server.aof.append sys.server.config argv .none =
      (.ok (), sys.server.aof.write (encodeCommand argv)) := by
  simp [AofLog.append, h.config, hm.enabled, h.opened, h.healthy]

section LockHolder

variable {conn : ℕ} {argv : Command} {rest : List Command} {reply : Bytes}

/-- SOURCE: server.py:503-509, persistence/aof.py:167-186 -/
theorem Sound.append (h : Sound cfg sys)
    (hhold : sys.holder = .writing conn (argv :: rest) false reply) :
    Sound cfg { sys with
      server := { sys.server with aof := sys.server.aof.write (encodeCommand argv) }
      holder := .writing conn (argv :: rest) true reply } := by
  obtain ⟨cs, hfile, hcs, hreplay⟩ := h.file
  rw [hhold] at hreplay
  have hpend := h.pending
  rw [hhold] at hpend
  refine ⟨h.config, h.unlimited, h.opened, h.healthy, h.timeless, h.solid, ?_, hpend, ?_, ?_,
    h.rdb, h.bgsave⟩
  · refine ⟨cs ++ [argv], ?_, ?_, ?_⟩
    · simp [AofLog.write, hfile, List.flatMap_append]
    · intro c hc
      rcases List.mem_append.mp hc with hc | hc
      · exact hcs c hc
      · rw [List.mem_singleton.mp hc]
        exact hpend argv List.mem_cons_self
    · rw [List.append_assoc]
      exact hreplay
  · intro d hd; cases hd
  · intro cs' hcs'; cases hcs'

/-- SOURCE: server.py:510-535 -/
theorem Sound.propagate (h : Sound cfg sys) (fails : ℕ → Bool)
    (hhold : sys.holder = .writing conn (argv :: rest) true reply) {holder : Holder}
    (hnext : holder = .free ∧ rest = [] ∨ holder = .writing conn rest false reply) :
    Sound cfg { sys.setServer (sys.server.propagateRecord fails argv) with holder := holder } := by
  have hpend := h.pending
  have hfile := h.file
  rw [hhold] at hpend hfile
  obtain ⟨rfl, rfl⟩ | rfl := hnext
  · refine ⟨h.config, h.unlimited, h.opened, h.healthy, h.timeless, h.solid, hfile, ?_, ?_, ?_,
      h.rdb, h.bgsave⟩
    · intro c hc; cases hc
    · intro d hd; cases hd
    · intro cs' hcs'; cases hcs'
  · refine ⟨h.config, h.unlimited, h.opened, h.healthy, h.timeless, h.solid, hfile, ?_, ?_, ?_,
      h.rdb, h.bgsave⟩
    · exact fun c hc => hpend c (List.mem_cons_of_mem _ hc)
    · intro d hd; cases hd
    · intro cs' hcs'; cases hcs'

end LockHolder

/-! ## Background saves and rewrites -/

/-- SOURCE: server.py:591-613 -/
theorem Sound.bgsaveSnapshot (h : Sound cfg sys) :
    Sound cfg { sys.purged with bgsave := some (sys.server.store.live sys.now) } := by
  refine h.looked rfl rfl (looks_purge _ _) h.rdb ?_
  intro d hd
  cases hd
  rw [live_of_fresh (h.timeless.fresh sys.now)]
  exact h.timeless

/-- The lock goes to a rewrite.
SOURCE: server.py:632-637 -/
theorem Sound.rewriteSnapshot (h : Sound cfg sys) (hhold : sys.holder = .free) :
    Sound cfg { sys.purged with holder := .rewriting (sys.server.store.live sys.now) } := by
  have hp := @Sound.looked cfg sys h sys.purged.server sys.bgsave sys.resyncs sys.now
    sys.handleClosed rfl rfl (looks_purge _ _) h.rdb h.bgsave
  rw [hhold] at hp
  refine ⟨hp.config, hp.unlimited, hp.opened, hp.healthy, hp.timeless, hp.solid, hp.file,
    (fun c hc => by cases hc), ?_, (fun cs' hcs' => by cases hcs'), hp.rdb, hp.bgsave⟩
  intro d hd
  cases hd
  show _ = (sys.server.store.purge sys.now).entries
  rw [entries_purge]

/-- The rewrite goes from one stage to the next.
SOURCE: persistence/aof.py:320-345 -/
theorem Sound.rewriteBuilt (hm : AofMaster cfg) (h : Sound cfg sys) {d : Entries}
    {commands : List Command} (hhold : sys.holder = .rewriting d)
    (hbuild : rewriteCommands sys.now d = some commands)
    (hcount : ∀ c ∈ commands, c.length ≤ 1024) :
    Sound cfg { sys with holder := .replacing commands } := by
  have hd := h.rewriting d hhold
  subst hd
  obtain ⟨cs, hcs, hreplay, hall⟩ := rewriteCommands_spec hm.names h.timeless h.solid sys.now
  rw [hbuild] at hcs
  cases hcs
  obtain ⟨cs₀, hfile, hcs₀, hreplay₀⟩ := h.file
  rw [hhold] at hreplay₀
  refine ⟨h.config, h.unlimited, h.opened, h.healthy, h.timeless, h.solid,
    ⟨cs₀, hfile, hcs₀, hreplay₀⟩, (fun c hc => by cases hc), (fun d' hd' => by cases hd'), ?_,
    h.rdb, h.bgsave⟩
  intro cs' hcs'
  cases hcs'
  exact ⟨fun c hc => ⟨(hall c hc).1, (hall c hc).2 (hcount c hc)⟩, hreplay⟩

/-- The new file is in place. -/
theorem Sound.rewriteReplaced (h : Sound cfg sys) {commands : List Command}
    (hhold : sys.holder = .replacing commands) (closed : Bool) :
    Sound cfg { sys.endRewrite (sys.server.aof.replaceFile (commands.flatMap encodeCommand)) with
      handleClosed := closed } := by
  obtain ⟨hcs, hreplay⟩ := h.replacing commands hhold
  exact ⟨h.config, h.unlimited, rfl, h.healthy, h.timeless, h.solid,
    ⟨commands, rfl, hcs, by simpa [unappended, System.endRewrite] using hreplay⟩,
    (fun c hc => by cases hc), (fun d hd => by cases hd), (fun cs' hcs' => by cases hcs'), h.rdb,
    h.bgsave⟩

/-- The end of a rewrite that leaves the file as it was. -/
theorem Sound.endRewrite (h : Sound cfg sys) (hun : unpropagated sys.holder = [])
    (closed : Bool) :
    Sound cfg { sys.endRewrite sys.server.aof with handleClosed := closed } := by
  obtain ⟨cs, hfile, hcs, hreplay⟩ := h.file
  rw [unappended_of_unpropagated hun] at hreplay
  exact ⟨h.config, h.unlimited, h.opened, h.healthy, h.timeless, h.solid,
    ⟨cs, hfile, hcs, hreplay⟩, (fun c hc => nomatch hc), (fun d hd => nomatch hd),
    (fun cs' hcs' => nomatch hcs'), h.rdb, h.bgsave⟩

/-! ## Whole runs -/

/-- The invariant with the history: what took effect has been appended but for what the lock
holder has still to append, and likewise propagated. -/
structure Ledger (cfg : Config) (evs : List Event) (sys : System) : Prop where
  sound : Sound cfg sys
  appended : executedOf evs = appendedOf evs ++ unappended sys.holder
  propagated : executedOf evs = propagatedOf evs ++ unpropagated sys.holder

/-- A step without an event of the log leaves the ledger as it is. -/
theorem Ledger.silent {es : List Event} (h : Ledger cfg evs sys) (hs : Sound cfg sys')
    (hsil : Silent es) (happ : unappended sys'.holder = unappended sys.holder)
    (hprop : unpropagated sys'.holder = unpropagated sys.holder) :
    Ledger cfg (evs ++ es) sys' := by
  obtain ⟨hno, h2, h3⟩ := hsil
  have h1 := executedOf_eq_nil hno
  refine ⟨hs, ?_, ?_⟩
  · rw [executedOf_append, appendedOf_append, h1, h2, happ, List.append_nil, List.append_nil]
    exact h.appended
  · rw [executedOf_append, propagatedOf_append, h1, h3, hprop, List.append_nil, List.append_nil]
    exact h.propagated

/-- A rewrite goes on or ends: there is no record to do, before and after. -/
theorem Ledger.rewrite {es : List Event} (h : Ledger cfg evs sys) (hs : Sound cfg sys')
    (hsil : Silent es) (hold : unpropagated sys.holder = [])
    (hnew : unpropagated sys'.holder = []) : Ledger cfg (evs ++ es) sys' :=
  h.silent hs hsil
    ((unappended_of_unpropagated hnew).trans (unappended_of_unpropagated hold).symm)
    (hnew.trans hold.symm)

/-- **Every action keeps the invariant.** -/
theorem Ledger.step (hm : AofMaster cfg) {a : Action} {es : List Event} (h : Ledger cfg evs sys)
    (hok : Allowed sys a) (hs : sys.step a = some (sys', es)) : Ledger cfg (evs ++ es) sys' := by
  have haside : IsAside a → Ledger cfg (evs ++ es) sys' := by
    intro ha
    obtain ⟨has, hsil⟩ := aside_of_step ha hs
    exact h.silent (h.sound.aside has) hsil (by rw [has.holder]) (by rw [has.holder])
  have hnone : ∀ d, (none : Option Entries) = some d → Timeless d := fun d hd => nomatch hd
  cases stepped_of_step hs with
  | command conn argv env sys' es hc =>
    have hrole : sys.server.config.isReplica = false := by rw [h.sound.config]; exact hm.role
    obtain ⟨-, hc⟩ := command_cases hrole hc
    obtain ⟨hfree, hread⟩ := hok
    rw [h.sound.config] at hread
    have hsound := h.sound.command hfree hread hc
    cases hc with
    | answered srv reply hframe => exact h.silent hsound (silent_replied conn _) rfl rfl
    | accepted d evicted s reply hhold hw heff hlim =>
      have happ := h.appended
      have hprop := h.propagated
      rw [hhold] at happ hprop
      refine ⟨hsound, ?_, ?_⟩
      · rw [executedOf_append, appendedOf_append, happ]
        simp [unappended, executedOf, appendedOf]
      · rw [executedOf_append, propagatedOf_append, hprop]
        simp [unpropagated, executedOf, propagatedOf]
  | appendFailed conn argv rest reply fault text aof hhold hheard happend =>
    obtain rfl : fault = .none := hok
    cases happend.symm.trans (h.sound.append_eq hm argv)
  | appended conn argv rest reply fault aof hhold hheard happend =>
    obtain rfl : fault = .none := hok
    cases happend.symm.trans (h.sound.append_eq hm argv)
    have happ := h.appended
    have hprop := h.propagated
    rw [hhold] at happ hprop
    refine ⟨h.sound.append hhold, ?_, ?_⟩
    · rw [executedOf_append, appendedOf_append, happ]
      simp [unappended, executedOf, appendedOf]
    · rw [executedOf_append, propagatedOf_append, hprop]
      simp [unpropagated, executedOf, propagatedOf]
  | propagatedLast conn argv reply fails hhold =>
    have happ := h.appended
    have hprop := h.propagated
    rw [hhold] at happ hprop
    refine ⟨h.sound.propagate fails hhold (Or.inl ⟨rfl, rfl⟩), ?_, ?_⟩
    · rw [executedOf_append, appendedOf_append, happ]
      simp [unappended, executedOf, appendedOf]
    · rw [executedOf_append, propagatedOf_append, hprop]
      simp [unpropagated, executedOf, propagatedOf]
  | propagated conn argv next rest reply fails hhold =>
    have happ := h.appended
    have hprop := h.propagated
    rw [hhold] at happ hprop
    refine ⟨h.sound.propagate fails hhold (Or.inr rfl), ?_, ?_⟩
    · rw [executedOf_append, appendedOf_append, happ]
      simp [unappended, executedOf, appendedOf]
    · rw [executedOf_append, propagatedOf_append, hprop]
      simp [unpropagated, executedOf, propagatedOf]
  | bgsaveSnapshot hfree hidle hasked =>
    exact h.silent h.sound.bgsaveSnapshot silent_nil rfl rfl
  | bgsaveWritten time d payload hsave hdump =>
    have hrdb : some payload = none ∨ ∃ d, Timeless d ∧ some payload = dumpRdbEntries d :=
      Or.inr ⟨d, h.sound.bgsave d hsave, hdump.symm⟩
    exact h.silent (h.sound.looked rfl rfl (Looks.refl _ _) hrdb hnone) silent_nil rfl rfl
  | bgsaveUnencodable time d hsave hdump =>
    exact h.silent (h.sound.looked rfl rfl (Looks.refl _ _) h.sound.rdb hnone) silent_nil rfl rfl
  | bgsaveFailed d hsave =>
    exact h.silent (h.sound.looked rfl rfl (Looks.refl _ _) h.sound.rdb hnone) silent_nil rfl rfl
  | rewriteSnapshot hfree hasked =>
    exact h.rewrite (h.sound.rewriteSnapshot hfree) silent_nil (by rw [hfree]; rfl) rfl
  | rewriteBuilt d commands hhold hbuild =>
    exact h.rewrite (h.sound.rewriteBuilt hm hhold hbuild (hok d hhold commands hbuild)) silent_nil
      (by rw [hhold]; rfl) rfl
  | rewriteReplaced commands hhold hopen =>
    exact h.rewrite (h.sound.rewriteReplaced hhold _) ⟨by simp, rfl, rfl⟩ (by rw [hhold]; rfl) rfl
  | rewriteReplacedLost commands hhold hopen hopened =>
    exact h.rewrite (h.sound.rewriteReplaced hhold _) ⟨by simp, rfl, rfl⟩ (by rw [hhold]; rfl) rfl
  | rewriteOverflowed d hhold hbuild =>
    have hold : unpropagated sys.holder = [] := by rw [hhold]; rfl
    exact h.rewrite (h.sound.endRewrite hold _) silent_nil hold rfl
  | rewriteFailed hhold =>
    have hold : unpropagated sys.holder = [] := by
      obtain ⟨d, hhold⟩ | ⟨commands, hhold⟩ := hhold <;> rw [hhold] <;> rfl
    exact h.rewrite (h.sound.endRewrite hold _) silent_nil hold rfl
  | rewriteLost commands hhold hopen hopened =>
    have hold : unpropagated sys.holder = [] := by rw [hhold]; rfl
    exact h.rewrite (h.sound.endRewrite hold _) silent_nil hold rfl
  | _ => exact haside trivial


/-- A server that has just started on an empty data directory. -/
theorem ledger_started (hm : AofMaster cfg) (replid : Replid) (t : ℤ) :
    Ledger cfg [] { server := started cfg replid, now := t } := by
  have haof : (started cfg replid).aof = { file := some [], opened := true } := by
    simp [started, AofLog.openLog, hm.enabled]
  refine ⟨⟨rfl, hm.unlimited, ?_, ?_, timeless_empty, solid_empty _, ⟨[], ?_, ?_, rfl⟩, ?_, ?_, ?_,
    Or.inl rfl, ?_⟩, rfl, rfl⟩
  · rw [haof]
  · rw [haof]
  · rw [haof]; rfl
  · intro c hc; cases hc
  · intro c hc; cases hc
  · intro d hd; cases hd
  · intro cs hcs; cases hcs
  · intro d hd; cases hd

/-- A file of kept records is replayed to what the records say.
SOURCE: persistence/aof.py:250-317 -/
theorem entries_replayAof (hm : AofMaster cfg) {cs : List Command} (hcs : ∀ c ∈ cs, Kept cfg c)
    (replid : Replid) (aofFile rdbFile : Option Bytes) (clock : ℕ → ℤ) :
    (Server.replayAof clock cs (Server.init cfg replid aofFile rdbFile)).store.entries =
      replay cs Dict.empty := by
  rw [replayAof_eq_applyLog]
  exact (entries_applyLog (rfl : Flags.loading.isReplicaClient = true) clock cs
    (fun c hc => (hcs c hc).loggable) (Server.init cfg replid aofFile rdbFile) hm.unlimited
    timeless_empty).1

/-- **The AOF of a running server.** From the first start on, under every schedule of the
tasks, whenever the write lock is free: the file is read back as a list of commands that
rebuild the keyspace, and up to then the records were appended in the order in which the
commands took effect, which is also the order in which they were propagated. All commands
that take effect are within the limits the AOF is read with.
SOURCE: server.py:409-535, 632-643, persistence/aof.py:167-216, 320-345 -/
theorem live_aof (hm : AofMaster cfg) (replid : Replid) (t : ℤ)
    (hrun : Runs System.step Allowed { server := started cfg replid, now := t } evs sys)
    (hfree : sys.holder = .free) {maxFileBytes : ℕ}
    (hload : Loadable maxFileBytes (sys.server.aof.file.getD [])) (clock : ℕ → ℤ) :
    (∃ cs, readCommands cfg.protoMaxBulkLen maxFileBytes sys.server.aof.file = .ok cs ∧
      (Server.replayAof clock cs (Server.init cfg replid none none)).store.entries =
        sys.server.store.entries) ∧
    appendedOf evs = executedOf evs ∧ propagatedOf evs = executedOf evs := by
  have hledger : Ledger cfg evs sys :=
    hrun.invariant (ledger_started hm replid t) (fun h hok hs => h.step hm hok hs)
  have happ := hledger.appended
  have hprop := hledger.propagated
  obtain ⟨cs, hfile, hcs, hreplay⟩ := hledger.sound.file
  rw [hfree] at happ hprop hreplay
  rw [hfile, Option.getD_some] at hload
  refine ⟨⟨cs, ?_, ?_⟩, ?_, ?_⟩
  · rw [hfile]
    exact readCommands_records (fun c hc => (hcs c hc).readable) hload
  · rw [entries_replayAof hm hcs]
    simpa [unappended] using hreplay
  · simpa [unappended] using happ.symm
  · simpa [unpropagated] using hprop.symm

/-- The default configuration is that of a master with an AOF. -/
theorem aofMaster_default : AofMaster {} := ⟨rfl, rfl, rfl, by decide⟩

/-- A write up to its reply, when nobody holds the lock. -/
theorem runs_write {s₀ s₁ s₂ s₃ : System} {es₁ es₂ es₃ : List Event} (conn : ℕ)
    (argv : Command) (hrun : Runs System.step Allowed s₀ evs sys) (ht : TtlFree argv)
    (hr : Readable sys.server.config.protoMaxBulkLen argv)
    (h₁ : sys.step (.command conn argv {}) = some (s₁, es₁))
    (h₂ : s₁.step (.append .none) = some (s₂, es₂))
    (h₃ : s₂.step (.propagate fun _ => false) = some (s₃, es₃)) :
    Runs System.step Allowed s₀ (evs ++ es₁ ++ es₂ ++ es₃) s₃ := by
  have hok₁ : Allowed sys (.command conn argv {}) := ⟨ht, fun _ _ => hr⟩
  have hok₂ : Allowed s₁ (.append .none) := Eq.refl WriteFault.none
  have hok₃ : Allowed s₂ (.propagate fun _ => false) := trivial
  exact ((hrun.step hok₁ h₁).step hok₂ h₂).step hok₃ h₃

/-- A write and a rewrite, with the writer and the rewrite running to their ends. -/
theorem live_aof_rewritten :
    ∃ evs sys, Runs System.step Allowed { server := started {} default } evs sys ∧
      sys.holder = .free ∧ executedOf evs = [[ascii "LPUSH", ascii "k", ascii "v"]] ∧
      (∃ cs, readCommands 16777216 1073741824 sys.server.aof.file = .ok cs ∧
        (Server.replayAof (fun _ => 0) cs (Server.init {} default none none)).store.entries =
          sys.server.store.entries) ∧
      appendedOf evs = executedOf evs ∧ propagatedOf evs = executedOf evs := by
  have h₁ := runs_write 1 [ascii "LPUSH", ascii "k", ascii "v"]
    (@Runs.start _ _ _ _ _ { server := started {} default }) (by decide) (by decide) rfl rfl rfl
  have h₂ := h₁.step (a := Action.command 1 [ascii "BGREWRITEAOF"] {})
    ⟨by decide, fun hw => nomatch hw⟩ rfl
  have h₃ := h₂.step (a := Action.rewriteSnapshot) trivial rfl
  have h₄ := h₃.step (a := Action.rewriteBuild) (by
    intro d hd cs hcs c hc
    cases hd
    cases hcs
    cases List.mem_singleton.mp hc
    decide) rfl
  have h₅ := h₄.step (a := Action.rewriteReplace) trivial rfl
  exact ⟨_, _, h₅, rfl, rfl, live_aof aofMaster_default default 0 h₅ rfl
    ⟨by decide, by decide⟩ (fun _ => 0)⟩

/-- The smallest limit the command line accepts. -/
def smallBulkConfig : Config := { protoMaxBulkLen := 1024 }

/-- An argument one byte longer than that. -/
def longArgument : Bytes := List.replicate 1025 120

/-- The first write of a server that has just started, up to its reply. -/
def firstWrite (cfg : Config) (argv : Command) : Option System :=
  (System.step { server := started cfg default } (.command 1 argv {})).bind fun r₁ =>
    (r₁.1.step (.append .none)).bind fun r₂ =>
      (r₂.1.step (.propagate fun _ => false)).map Prod.fst

/-- The long argument as a simple string passes the parser of the connection, the SET takes
effect and is logged, and then the AOF cannot be read. -/
theorem live_aof_simpleString :
    (RespParser.feed { limits := smallBulkConfig.clientLimits }
        (arrayHeader 3 ++ encodeBulkString (ascii "SET") ++ encodeBulkString (ascii "k") ++
          ascii "+" ++ longArgument ++ crlf)).toOption.map
        (fun r => r.1.map fun msg => (normalizeArgv msg).toOption) =
      some [some [ascii "SET", ascii "k", longArgument]] ∧
    (firstWrite smallBulkConfig [ascii "SET", ascii "k", longArgument]).map
        (fun sys => (sys.server.store.entries.keys,
          readCommands 1024 1073741824 sys.server.aof.file)) =
      some ([ascii "k"], .error (.protocol (.bulkTooLong 1025))) := by
  decide +kernel

end ByoRedis.Analysis
