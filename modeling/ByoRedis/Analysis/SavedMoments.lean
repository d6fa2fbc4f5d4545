import ByoRedis.Lib.Trace
import ByoRedis.Analysis.ReplicationSteps
import ByoRedis.Analysis.RdbRoundTrip

/-!
# Snapshots are moments of the run

BGSAVE, BGREWRITEAOF and the full resyncs work on snapshots while commands go on, and SAVE
writes at once. `WasKeyspace` says that a keyspace was the one of the server in an earlier state of
the run. Every snapshot that is being worked on is a moment, so the RDB file is never a
keyspace that did not exist, and a start from it brings back one moment, less what has expired
since (`start_at_moment`). Nor does a snapshot exceed the memory limit, for no state of a run does
once the limit is met.
-/

set_option autoImplicit false

namespace ByoRedis.Analysis

open ByoRedis.Model ByoRedis.Lib

/-! ## Snapshots in hand -/

/-- A snapshot that a task has taken and works on.
SOURCE: server.py:591-613, 632-643, replication/master.py:143-161 -/
def InHand (sys : System) (d : Entries) : Prop :=
  sys.bgsave = some d ∨ sys.holder = .rewriting d ∨
    ∃ c offset, sys.resyncs.get? c = some (.encoding d offset)

variable {sys sys' : System} {a : Action} {es evs : List Event} {d : Entries}

/-- The resyncs with a snapshot in hand: PSYNC takes one, and nothing else starts one.
SOURCE: replication/master.py:143-189 -/
theorem encoding_of_step {c offset : ℕ} (h : sys.step a = some (sys', es))
    (hd : sys'.resyncs.get? c = some (.encoding d offset)) :
    sys.resyncs.get? c = some (.encoding d offset) ∨ d = sys.server.store.live sys.now := by
  have hinsert : ∀ {conn : ℕ} {r : Resync}, (∀ d off, r ≠ .encoding d off) →
      (sys.resyncs.insert conn r).get? c = some (.encoding d offset) →
      sys.resyncs.get? c = some (.encoding d offset) := by
    intro conn r hr hget
    rw [Dict.get?_insert] at hget
    split_ifs at hget
    · cases hget
      exact absurd rfl (hr _ _)
    · exact hget
  have herase : ∀ {conn : ℕ}, (sys.resyncs.erase conn).get? c = some (.encoding d offset) →
      sys.resyncs.get? c = some (.encoding d offset) := by
    intro conn hget
    rw [Dict.get?_erase] at hget
    split_ifs at hget
    exact hget
  cases stepped_of_step h with
  | psync conn hrole hfree hnew =>
    rw [Dict.get?_insert] at hd
    split_ifs at hd
    · cases hd
      exact Or.inr rfl
    · exact Or.inl hd
  | disconnect conn => exact Or.inl (herase hd)
  | resyncSent conn d offset rdb hresync hdump => exact Or.inl (hinsert (by simp) hd)
  | resyncUnencodable conn d offset hresync hdump => exact Or.inl (herase hd)
  | resyncTaken conn hresync =>
    dsimp only at hd
    split_ifs at hd
    · exact Or.inl (herase hd)
    · exact Or.inl (hinsert (by simp) hd)
  | resyncWritten conn batch hbatch hresync => exact Or.inl (hinsert (by simp) hd)
  | resyncFailed conn hresync => exact Or.inl (herase hd)
  | command conn argv env sys' es hc =>
    rw [(commanded_of_command hc).resyncs] at hd
    exact Or.inl hd
  | _ => exact Or.inl hd

/-- The snapshots of BGSAVE and BGREWRITEAOF: each is taken of the keyspace of the moment.
SOURCE: server.py:591-643 -/
theorem task_of_step (hrole : sys.server.config.isReplica = false)
    (h : sys.step a = some (sys', es))
    (hd : sys'.bgsave = some d ∨ sys'.holder = .rewriting d) :
    (sys.bgsave = some d ∨ sys.holder = .rewriting d) ∨
      d = sys.server.store.live sys.now := by
  have hreleased : ∀ holder, sys'.bgsave = sys.bgsave → sys'.holder = holder →
      (∀ d, holder ≠ .rewriting d) → (sys.bgsave = some d ∨ sys.holder = .rewriting d) ∨
        d = sys.server.store.live sys.now := by
    intro holder hb hh hne
    rw [hb, hh] at hd
    exact Or.inl (Or.inl (hd.resolve_right (hne d)))
  cases stepped_of_step h with
  | command conn argv env sys' es hc =>
    obtain ⟨-, hstep⟩ := command_cases hrole hc
    cases hstep with
    | answered srv reply hframe => exact Or.inl hd
    | accepted d' evicted s reply hidle hw heff hlim =>
      exact hreleased _ rfl rfl fun _ hh => by cases hh
  | appendFailed conn argv rest reply fault text aof hhold hheard happend =>
    exact hreleased _ rfl rfl fun _ hh => by cases hh
  | appended conn argv rest reply fault aof hhold hheard happend =>
    exact hreleased _ rfl rfl fun _ hh => by cases hh
  | propagatedLast conn argv reply fails hhold =>
    exact hreleased _ rfl rfl fun _ hh => by cases hh
  | propagated conn argv next rest reply fails hhold =>
    exact hreleased _ rfl rfl fun _ hh => by cases hh
  | bgsaveSnapshot hfree hidle hasked =>
    obtain hb | hw := hd
    · cases hb
      exact Or.inr rfl
    · exact Or.inl (Or.inr hw)
  | bgsaveWritten time d' payload hsave hdump =>
    exact Or.inl (Or.inr (hd.resolve_left (by simp)))
  | bgsaveUnencodable time d' hsave hdump => exact Or.inl (Or.inr (hd.resolve_left (by simp)))
  | bgsaveFailed d' hsave => exact Or.inl (Or.inr (hd.resolve_left (by simp)))
  | rewriteSnapshot hfree hasked =>
    obtain hb | hw := hd
    · exact Or.inl (Or.inl hb)
    · cases hw
      exact Or.inr rfl
  | rewriteBuilt d' commands hhold hbuild =>
    exact hreleased _ rfl rfl fun _ hh => by cases hh
  | rewriteOverflowed d' hhold hbuild => exact hreleased _ rfl rfl fun _ hh => by cases hh
  | rewriteReplaced commands hhold hopen => exact hreleased _ rfl rfl fun _ hh => by cases hh
  | rewriteReplacedLost commands hhold hopen hopened =>
    exact hreleased _ rfl rfl fun _ hh => by cases hh
  | rewriteFailed hhold => exact hreleased _ rfl rfl fun _ hh => by cases hh
  | rewriteLost commands hhold hopen hopened =>
    exact hreleased _ rfl rfl fun _ hh => by cases hh
  | _ => exact Or.inl hd

/-- **A snapshot in hand was in hand before, or is the keyspace of the moment.** -/
theorem inHand_of_step (hrole : sys.server.config.isReplica = false)
    (h : sys.step a = some (sys', es)) (hd : InHand sys' d) :
    InHand sys d ∨ d = sys.server.store.live sys.now := by
  have htask : sys'.bgsave = some d ∨ sys'.holder = .rewriting d →
      InHand sys d ∨ d = sys.server.store.live sys.now := by
    intro hd
    obtain (hb | hw) | hlive := task_of_step hrole h hd
    · exact Or.inl (Or.inl hb)
    · exact Or.inl (Or.inr (Or.inl hw))
    · exact Or.inr hlive
  obtain hb | hw | ⟨c, offset, hc⟩ := hd
  · exact htask (Or.inl hb)
  · exact htask (Or.inr hw)
  · obtain hold | hlive := encoding_of_step h hc
    · exact Or.inl (Or.inr (Or.inr ⟨c, offset, hold⟩))
    · exact Or.inr hlive

/-! ## The RDB file -/

/-- **What an action writes to the RDB file**: a snapshot in hand, or the keyspace of the
moment.
SOURCE: server.py:580-613, commands/server_cmds.py:86-94 -/
theorem rdbFile_of_step (hrole : sys.server.config.isReplica = false)
    (h : sys.step a = some (sys', es)) :
    sys'.server.rdbFile = sys.server.rdbFile ∨
    ∃ d rdb, (InHand sys d ∨ d = sys.server.store.live sys.now) ∧
      dumpRdbEntries d = some rdb ∧ sys'.server.rdbFile = some rdb := by
  cases stepped_of_step h with
  | command conn argv env sys' es hc =>
    obtain ⟨-, hstep⟩ := command_cases hrole hc
    cases hstep with
    | answered srv reply hframe =>
      obtain hkept | ⟨-, rdb, hdump, hsome⟩ := hframe.rdb
      · exact Or.inl hkept
      · exact Or.inr ⟨_, rdb, Or.inr rfl, hdump, hsome⟩
    | accepted d evicted s reply hfree hw heff hlim => exact Or.inl rfl
  | bgsaveWritten time d rdb hsave hdump =>
    exact Or.inr ⟨d, rdb, Or.inl (Or.inl hsave), hdump, rfl⟩
  | _ => exact Or.inl rfl

/-! ## Moments -/

/-- A run of a server, whatever its tasks do and whatever fails. -/
abbrev Reaches (start : System) (evs : List Event) (sys : System) : Prop :=
  Runs System.step (fun _ _ => True) start evs sys

/-- On the way from `start` to `sys`, `d` was the keyspace once. -/
def WasKeyspace (start : System) (evs : List Event) (sys : System) (d : Entries) : Prop :=
  ∃ pre post mid, evs = pre ++ post ∧ Reaches start pre mid ∧ Reaches mid post sys ∧
    d = mid.server.store.live mid.now

variable {start : System}

/-- The keyspace of now is one of the run. -/
theorem wasKeyspace_now (hrun : Reaches start evs sys) :
    WasKeyspace start evs sys (sys.server.store.live sys.now) :=
  ⟨evs, [], sys, (List.append_nil evs).symm, hrun, .start, rfl⟩

/-- A keyspace of the run is one of every longer run. -/
theorem WasKeyspace.later (hd : WasKeyspace start evs sys d) (h : sys.step a = some (sys', es)) :
    WasKeyspace start (evs ++ es) sys' d := by
  obtain ⟨pre, post, mid, rfl, hpre, hpost, hd⟩ := hd
  exact ⟨pre, post ++ es, mid, List.append_assoc pre post es, hpre, hpost.step trivial h, hd⟩

/-- A server that has just been started: no task is at work. -/
structure Unoccupied (sys : System) : Prop where
  role : sys.server.config.isReplica = false
  holder : sys.holder = .free
  bgsave : sys.bgsave = none
  resyncs : sys.resyncs = Dict.empty

/-- A server that does nothing has no snapshot in hand. -/
theorem Unoccupied.inHand (h : Unoccupied sys) : ¬ InHand sys d := by
  rintro (hb | hw | ⟨c, offset, hc⟩)
  · cases h.bgsave.symm.trans hb
  · cases h.holder.symm.trans hw
  · rw [h.resyncs] at hc
    cases hc

/-- Configuration and clock of a master under a run. -/
theorem settings_of_run (hrole : start.server.config.isReplica = false)
    (hrun : Reaches start evs sys) :
    sys.server.config = start.server.config ∧ start.now ≤ sys.now := by
  refine hrun.invariant (I := fun _ s => s.server.config = start.server.config ∧
    start.now ≤ s.now) ⟨rfl, le_rfl⟩ ?_
  rintro evs es s s' a ⟨hcfg, hnow⟩ - hs
  have hr : s.server.config.isReplica = false := hcfg ▸ hrole
  refine ⟨(turn_of_step hr hs).config.trans hcfg, hnow.trans ?_⟩
  by_cases ha : ∃ conn argv env, a = .command conn argv env
  · obtain ⟨conn, argv, env, rfl⟩ := ha
    obtain ⟨-, hstep⟩ := command_cases hr hs
    cases hstep <;> exact le_rfl
  · exact (looks_of_step (fun conn argv env hc => ha ⟨conn, argv, env, hc⟩) hs).1

/-- **Snapshots in hand are moments, and so is what the RDB file holds.** -/
theorem wasKeyspace_of_run (hstart : Unoccupied start) (hrun : Reaches start evs sys) :
    (∀ d, InHand sys d → WasKeyspace start evs sys d) ∧
    (sys.server.rdbFile = start.server.rdbFile ∨ ∃ d rdb, WasKeyspace start evs sys d ∧
      dumpRdbEntries d = some rdb ∧ sys.server.rdbFile = some rdb) := by
  induction hrun with
  | start => exact ⟨fun d hd => absurd hd hstart.inHand, Or.inl rfl⟩
  | @step evs es s s' a hrun hok hs ih =>
    obtain ⟨hhand, hfile⟩ := ih
    have hrole : s.server.config.isReplica = false :=
      (settings_of_run hstart.role hrun).1 ▸ hstart.role
    have hmoment : ∀ d, InHand s d ∨ d = s.server.store.live s.now →
        WasKeyspace start (evs ++ es) s' d := by
      intro d hd
      obtain hold | rfl := hd
      · exact (hhand d hold).later hs
      · exact (wasKeyspace_now hrun).later hs
    constructor
    · intro d hd
      exact hmoment d (inHand_of_step hrole hs hd)
    · obtain hsame | ⟨d, rdb, hd, hdump, hsome⟩ := rdbFile_of_step hrole hs
      · obtain hfirst | ⟨d, rdb, hd, hdump, hsome⟩ := hfile
        · exact Or.inl (hsame.trans hfirst)
        · exact Or.inr ⟨d, rdb, hd.later hs, hdump, hsame.trans hsome⟩
      · exact Or.inr ⟨d, rdb, hmoment d hd, hdump, hsome⟩

/-! ## Starting again from the RDB file -/

/-- The deadlines of live entries lie ahead, so none is negative. -/
theorem nonNegDeadline_live {s : Store} {now : ℤ} (h : 0 ≤ now) :
    ∀ e ∈ (s.live now).entries, NonNegDeadline e.2 := by
  intro e he t ht
  have hlive : isExpired e.2.expireAtMs now = false := by
    have hmem := (List.mem_filter.mp he).2
    simpa using hmem
  rw [ht] at hlive
  simp only [isExpired, decide_eq_false_iff_not] at hlive
  omega

/-- **A start from the dump of a moment brings it back**, less what has expired since, on a server
without an AOF and with a file that is not too large; without a file the server starts empty.
SOURCE: server.py:226-248, persistence/rdb.py:128-210 -/
theorem start_at_moment (hrole : start.server.config.isReplica = false) (hnow : 0 ≤ start.now)
    {cfg : Config} (haof : cfg.aofEnabled = false) {file : Option Bytes}
    (hsize : ∀ rdb, file = some rdb → rdb.length ≤ cfg.persistenceMaxLoadBytes)
    (hfile : file = none ∨ ∃ d rdb, WasKeyspace start evs sys d ∧
      dumpRdbEntries d = some rdb ∧ file = some rdb)
    (replid : Replid) (aofFile : Option Bytes) (clock : ℕ → ℤ) :
    ∃ srv, Server.start cfg replid aofFile file clock = .ok srv ∧
      (file = none ∧ srv.store.entries = Dict.empty ∨
        ∃ d, WasKeyspace start evs sys d ∧ srv.store.entries = liveAt (clock 0) d) := by
  have hskip : ∀ rdbFile b, ((Server.init cfg replid aofFile rdbFile).config.aofEnabled && b) =
      false := by
    intro rdbFile b
    show (cfg.aofEnabled && b) = false
    rw [haof, Bool.false_and]
  obtain rfl | ⟨d, rdb, hd, hdump, rfl⟩ := hfile
  · unfold Server.start Server.loadPersistence
    simp only [hskip, Bool.false_eq_true, if_false]
    exact ⟨{ Server.init cfg replid aofFile none with
      aof := (Server.init cfg replid aofFile none).aof.openLog cfg }, rfl, Or.inl ⟨trivial, rfl⟩⟩
  · obtain ⟨pre, post, mid, heq, hpre, hpost, rfl⟩ := id hd
    have hmid := hnow.trans (settings_of_run hrole hpre).2
    have hread := loadRdbBytes_dumpRdbEntries hdump (hsize rdb rfl)
      (nonNegDeadline_live hmid) (clock 0)
    have hcontent : Server.hasContent (Server.init cfg replid aofFile (some rdb)).rdbFile =
        true := by
      obtain ⟨body, hbody, rfl⟩ := Option.map_eq_some_iff.mp hdump
      obtain ⟨rv, count, records, hv, hcount, hrecords, rfl⟩ := rdbBody_eq_some hbody
      simp [Server.init, Server.hasContent, rdbMagic, ascii]
    have hfile : loadRdbBytes
        (Server.init cfg replid aofFile (some rdb)).config.persistenceMaxLoadBytes (clock 0)
        ((Server.init cfg replid aofFile (some rdb)).rdbFile.getD []) = _ := hread
    unfold Server.start Server.loadPersistence
    simp only [hskip, Bool.false_eq_true, if_false, hcontent, if_true, hfile]
    exact ⟨_, rfl, Or.inr ⟨_, hd, rfl⟩⟩

/-! ## The memory limit -/

/-- One action and the memory in use: nothing but a write adds to it, and a write that takes
effect leaves it within the limit.
SOURCE: server.py:475-498, storage/store.py:293-319 -/
theorem usage_of_step (hrole : sys.server.config.isReplica = false)
    (h : sys.step a = some (sys', es)) :
    sys'.server.store.maxmemoryBytes = sys.server.store.maxmemoryBytes ∧
    (Store.usageOf (sys'.server.store.live sys'.now) ≤
        Store.usageOf (sys.server.store.live sys.now) ∨
      sys.server.store.maxmemoryBytes = 0 ∨
      Store.usageOf (sys'.server.store.live sys'.now) ≤ sys.server.store.maxmemoryBytes) := by
  have hlooks : sys.now ≤ sys'.now → Looks sys.now sys.server.store sys'.server.store →
      sys'.server.store.maxmemoryBytes = sys.server.store.maxmemoryBytes ∧
      (Store.usageOf (sys'.server.store.live sys'.now) ≤
          Store.usageOf (sys.server.store.live sys.now) ∨
        sys.server.store.maxmemoryBytes = 0 ∨
        Store.usageOf (sys'.server.store.live sys'.now) ≤
          sys.server.store.maxmemoryBytes) := by
    intro hnow hl
    refine ⟨hl.limits.1, Or.inl ?_⟩
    have hlive : sys'.server.store.live sys'.now =
        liveAt sys'.now (sys.server.store.live sys.now) := by
      rw [← hl.live]
      exact (liveAt_liveAt hnow _).symm
    rw [hlive]
    exact usageOf_filter_le _ _
  by_cases ha : ∃ conn argv env, a = .command conn argv env
  · obtain ⟨conn, argv, env, rfl⟩ := ha
    obtain ⟨-, hstep⟩ := command_cases hrole h
    cases hstep with
    | answered srv reply hframe => exact hlooks le_rfl hframe.store
    | accepted d evicted s reply hfree hw heff hlim =>
      obtain ⟨hent, hsame, hfresh⟩ := handled_spec hw heff
      obtain ⟨hlimits, hall⟩ := enforceMemoryLimit_spec sys.now
        (s := handled sys.now argv sys.server.store) (by rw [hent]; exact hfresh)
      rw [hlim] at hlimits hall
      obtain ⟨hevicted, -, hwithin⟩ := hall evicted rfl
      have hmax := hsame.1
      rw [hmax] at hwithin
      refine ⟨hlimits.1.trans hmax, Or.inr (hwithin.imp id fun hle => ?_)⟩
      rw [← hevicted] at hle
      exact (usageOf_filter_le _ _).trans hle
  · obtain ⟨hnow, hl⟩ := looks_of_step (fun conn argv env hc => ha ⟨conn, argv, env, hc⟩) h
    exact hlooks hnow hl

/-- **The memory limit holds throughout.** A master that starts within its limit is within it
in every state of every run, also between a write and its records, and whatever a BGSAVE, a
BGREWRITEAOF or a full resync has taken for a snapshot is within the limit too.
SOURCE: server.py:409-535, 591-643, storage/store.py:276-319 -/
theorem memory_bounded (hstart : Unoccupied start) (hlimit : 0 < start.server.store.maxmemoryBytes)
    (hwithin : Store.usageOf (start.server.store.live start.now) ≤
      start.server.store.maxmemoryBytes) (hrun : Reaches start evs sys) :
    Store.usageOf (sys.server.store.live sys.now) ≤ start.server.store.maxmemoryBytes ∧
    ∀ d, InHand sys d → Store.usageOf d ≤ start.server.store.maxmemoryBytes := by
  have hbound : ∀ {evs : List Event} {sys : System}, Reaches start evs sys →
      Store.usageOf (sys.server.store.live sys.now) ≤ start.server.store.maxmemoryBytes := by
    intro evs sys hrun
    have hinv := hrun.invariant (I := fun _ s => s.server.config.isReplica = false ∧
      s.server.store.maxmemoryBytes = start.server.store.maxmemoryBytes ∧
      Store.usageOf (s.server.store.live s.now) ≤ start.server.store.maxmemoryBytes)
      ⟨hstart.role, rfl, hwithin⟩ (by
        rintro evs es s s' a ⟨hrole, hmax, hle⟩ - hs
        obtain ⟨hkept, hless | hzero | hmet⟩ := usage_of_step hrole hs
        · exact ⟨(turn_of_step hrole hs).config ▸ hrole, hkept.trans hmax, hless.trans hle⟩
        · omega
        · exact ⟨(turn_of_step hrole hs).config ▸ hrole, hkept.trans hmax, hmax ▸ hmet⟩)
    exact hinv.2.2
  refine ⟨hbound hrun, fun d hd => ?_⟩
  obtain ⟨pre, post, mid, -, hpre, -, rfl⟩ := (wasKeyspace_of_run hstart hrun).1 d hd
  exact hbound hpre

/-- Room for two small keys. -/
def narrowConfig : Config := { maxmemoryBytes := 140, maxmemoryPolicy := .allkeysLru }

/-- Under a limit of 140 bytes the third key evicts the first, while a BGSAVE is about the
first two. -/
theorem memory_bounded_evicting :
    ∃ evs sys d, Reaches { server := started narrowConfig default } evs sys ∧
      InHand sys d ∧ d.keys = [ascii "a", ascii "b"] ∧
      (sys.server.store.live sys.now).keys = [ascii "b", ascii "c"] ∧
      Store.usageOf (sys.server.store.live sys.now) ≤ 140 ∧ Store.usageOf d ≤ 140 := by
  have h₁ := (@Runs.start _ _ _ System.step (fun _ _ => True)
    { server := started narrowConfig default }).step
    (a := Action.command 1 [ascii "SET", ascii "a", ascii "1"] {}) trivial rfl
  have h₂ := h₁.step (a := Action.append .none) trivial rfl
  have h₃ := h₂.step (a := Action.propagate fun _ => false) trivial rfl
  have h₄ := h₃.step (a := Action.command 1 [ascii "SET", ascii "b", ascii "2"] {}) trivial rfl
  have h₅ := h₄.step (a := Action.append .none) trivial rfl
  have h₆ := h₅.step (a := Action.propagate fun _ => false) trivial rfl
  have h₇ := h₆.step (a := Action.scheduleBgsave) trivial rfl
  have h₈ := h₇.step (a := Action.bgsaveSnapshot) trivial rfl
  have h₉ := h₈.step (a := Action.command 1 [ascii "SET", ascii "c", ascii "3"] {}) trivial rfl
  obtain ⟨hlive, hhand⟩ := memory_bounded ⟨rfl, rfl, rfl, rfl⟩ (by decide) (by decide +kernel) h₉
  exact ⟨_, _, _, h₉, Or.inl rfl, by decide +kernel, by decide +kernel, hlive,
    hhand _ (Or.inl rfl)⟩

end ByoRedis.Analysis
