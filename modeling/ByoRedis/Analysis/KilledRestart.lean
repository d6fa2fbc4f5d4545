import ByoRedis.Analysis.LogAhead
import ByoRedis.Analysis.Restart
import ByoRedis.Analysis.TornTail
import ByoRedis.Analysis.WireReplication

/-!
# A server that is killed

What a master comes up with after it was killed at an arbitrary point of an arbitrary run: in
the middle of a write to the AOF, between a write and its record, during a BGSAVE or a
BGREWRITEAOF. `LeftBehind` says what the AOF can hold then. The invariant is `Rebuilt`: the
records in the file make up the keyspace of the records that were appended, also when a rewrite
has put others in their place. The record that was on its way is there or not.
-/

set_option autoImplicit false

namespace ByoRedis.Analysis

open ByoRedis.Model ByoRedis.Lib ByoRedis.Lib.Framing ByoRedis.Interface

/-! ## What is in the file -/

/-- The record that the writer task has to write. -/
def underway : Holder → List Command
  | .free => []
  | .writing _ [] _ _ => []
  | .writing _ (argv :: _) false _ => [argv]
  | .writing _ (_ :: _) true _ => []
  | .rewriting _ => []
  | .replacing _ => []

/-- The record that is being written is the first that is not appended yet. -/
theorem underway_front (holder : Holder) : underway holder <+: unappended holder := by
  cases holder with
  | writing conn records appended reply =>
    cases records with
    | nil => exact List.nil_prefix
    | cons argv rest =>
      cases appended with
      | false => exact List.prefix_append [argv] rest
      | true => exact List.nil_prefix
  | free => exact List.nil_prefix
  | rewriting d => exact List.nil_prefix
  | replacing cs => exact List.nil_prefix

/-- What is not appended is not propagated either. -/
theorem unappended_back (holder : Holder) : unappended holder <:+ unpropagated holder := by
  cases holder with
  | writing conn records appended reply =>
    cases appended with
    | false => exact List.suffix_refl records
    | true => exact List.tail_suffix records
  | free => exact List.suffix_refl []
  | rewriting d => exact List.suffix_refl []
  | replacing cs => exact List.suffix_refl []

/-- The record on its way is one of the lock holder's. -/
theorem mem_underway {holder : Holder} {argv : Command} (h : argv ∈ underway holder) :
    argv ∈ unpropagated holder :=
  (unappended_back holder).subset ((underway_front holder).subset h)

/-- At most one record is being written. -/
theorem length_underway (holder : Holder) : (underway holder).length ≤ 1 := by
  unfold underway
  split <;> simp

/-- The AOF of a server that was killed: what was written, and any part of the record that was
being written. -/
def LeftBehind (sys : System) (data : Bytes) : Prop :=
  ∃ n, data = sys.server.aof.file.getD [] ++ ((underway sys.holder).flatMap encodeCommand).take n

variable {cfg : Config} {replid : Replid} {sys sys' : System} {a : Action} {es evs : List Event}

/-- What an action does to the log: it puts another one in its place, and then the lock is free;
or it adds records of the lock holder, if any. -/
inductive Logs (sys : System) (es : List Event) (sys' : System) : Prop where
  | rewritten (hfree : sys'.holder = .free)
  | appended (hlogged : ∀ file, logged file es = file ++ (appendedOf es).flatMap encodeCommand)
      (hpending : ∀ c ∈ appendedOf es, c ∈ unpropagated sys.holder)

/-- A step without a record leaves the log as it is. -/
theorem logs_silent (h : ∀ file, logged file es = file) (happended : appendedOf es = []) :
    Logs sys es sys' := by
  refine .appended (fun file => ?_) ?_
  · rw [h, happended, List.flatMap_nil, List.append_nil]
  · rw [happended]
    simp

/-- SOURCE: server.py:503-509, persistence/aof.py:100-211 -/
theorem logs_of_step (hrole : sys.server.config.isReplica = false)
    (hs : sys.step a = some (sys', es)) : Logs sys es sys' := by
  cases stepped_of_step hs with
  | command conn argv env sys' es hc =>
    obtain ⟨hname, hstep⟩ := command_cases hrole hc
    cases hstep with
    | answered srv reply hframe =>
      exact logs_silent (fun file => logged_replied file conn _)
        (silent_replied conn reply.toList).appended
    | accepted d evicted s reply hfree hw heff hlim => exact logs_silent (fun _ => rfl) rfl
  | appended conn argv rest reply fault aof hhold hheard happend =>
    refine .appended (fun file => ?_) ?_
    · simp [logged, appendedOf]
    · rw [hhold]
      simp [appendedOf, unpropagated]
  | rewriteReplaced commands hhold hopen => exact .rewritten rfl
  | rewriteReplacedLost commands hhold hopen hopened => exact .rewritten rfl
  | _ => exact logs_silent (fun _ => rfl) rfl

/-! ## Whole runs -/

/-- The invariant: the history describes the keyspace, and the file what was appended. -/
structure Rebuilt (cfg : Config) (replid : Replid) (evs : List Event) (sys : System) : Prop where
  ledger : Ledger cfg evs sys
  mirrored : Mirrored replid evs sys
  ahead : LogAhead [] evs sys
  log : ∃ cs, sys.server.aof.file = some (cs.flatMap encodeCommand) ∧ (∀ c ∈ cs, Kept cfg c) ∧
    replay cs Dict.empty = replay (appendedOf evs) Dict.empty

/-- A command that a replay takes is one that a stream takes. -/
theorem Allowed.streamed (h : Allowed sys a) : Streamed sys a := by
  cases a with
  | command conn argv env => exact h.1
  | append fault => exact h
  | _ => trivial

/-- The file of a healthy log is what the history says. -/
theorem file_of_ahead (h : LogAhead [] evs sys) (hhealthy : sys.server.aof.failure = none) :
    sys.server.aof.file = some (logged [] evs) := by
  obtain ⟨tail, hfile, hbehind⟩ := h.file
  obtain rfl := hbehind.resolve_right fun hf => hf.1 hhealthy
  rw [List.append_nil] at hfile
  exact hfile

/-- The keyspace is the replay of all that took effect. -/
theorem entries_of_mirrored (h : Mirrored replid evs sys)
    (ht : Timeless sys.server.store.entries) :
    sys.server.store.entries = replay (executedOf evs) Dict.empty := by
  rw [← h.live.1]
  exact (live_of_fresh (ht.fresh _)).symm

/-- **Every action keeps the invariant.** -/
theorem Rebuilt.step (hm : AofMaster cfg) (h : Rebuilt cfg replid evs sys) (hok : Allowed sys a)
    (hs : sys.step a = some (sys', es)) : Rebuilt cfg replid (evs ++ es) sys' := by
  have hledger := h.ledger.step hm hok hs
  have hmirrored := h.mirrored.step hok.streamed hs
  have hahead := h.ahead.step hs
  refine ⟨hledger, hmirrored, hahead, ?_⟩
  cases logs_of_step h.mirrored.role hs with
  | rewritten hfree =>
    obtain ⟨cs, hfile, hcs, hreplay⟩ := hledger.sound.records hfree
    have happended := hledger.appended
    rw [hfree] at happended
    refine ⟨cs, hfile, hcs, ?_⟩
    rw [hreplay, entries_of_mirrored hmirrored hledger.sound.timeless, happended]
    exact congrArg (replay · Dict.empty) (List.append_nil _)
  | appended hlogged hpending =>
    obtain ⟨cs, hfile, hcs, hreplay⟩ := h.log
    have hbefore := file_of_ahead h.ahead h.ledger.sound.healthy
    have hafter := file_of_ahead hahead hledger.sound.healthy
    rw [hfile] at hbefore
    refine ⟨cs ++ appendedOf es, ?_, ?_, ?_⟩
    · rw [hafter, logged_append, hlogged, ← Option.some.inj hbefore, List.flatMap_append]
    · intro c hc
      obtain hc | hc := List.mem_append.mp hc
      · exact hcs c hc
      · exact h.ledger.sound.pending c (hpending c hc)
    · rw [appendedOf_append, replay_append, replay_append, hreplay]

/-- A master on an empty data directory is rebuilt from an empty log. -/
theorem rebuilt_started (hm : AofMaster cfg) (replid : Replid) (t : ℤ) :
    Rebuilt cfg replid [] { server := started cfg replid, now := t } := by
  have hledger := ledger_started hm replid t
  obtain ⟨cs, hfile, hcs, hreplay⟩ := hledger.sound.records rfl
  have haof : (started cfg replid).aof.file = some [] := by
    simp [started, AofLog.openLog, hm.enabled]
  refine ⟨hledger, mirrored_started replid hm.role t, ?_, [], haof, by simp, rfl⟩
  exact ⟨hm.role, hm.enabled, hledger.sound.opened, rfl, List.Sublist.refl _, [], haof, Or.inl rfl⟩

/-! ## The restart -/

/-- A start on a file from which records are read.
SOURCE: server.py:226-240 -/
theorem start_read (hm : AofMaster cfg) {data : Bytes} {cs : List Command} (hne : data ≠ [])
    (hcs : ∀ c ∈ cs, Kept cfg c)
    (hread : readCommands cfg.protoMaxBulkLen cfg.persistenceMaxLoadBytes (some data) = .ok cs)
    (replid : Replid) (rdbFile : Option Bytes) (clock : ℕ → ℤ) :
    ∃ srv, Server.start cfg replid (some data) rdbFile clock = .ok srv ∧
      srv.store.entries = replay cs Dict.empty := by
  have hcontent : Server.hasContent (some data) = true := by
    cases data with
    | nil => exact absurd rfl hne
    | cons b bs => rfl
  have hload : (Server.init cfg replid (some data) rdbFile).loadPersistence clock =
      .ok (Server.replayAof clock cs (Server.init cfg replid (some data) rdbFile)) := by
    unfold Server.loadPersistence
    simp only [Server.init, hm.enabled, hcontent, hread, Bool.and_self, if_true]
  exact ⟨_, start_of_loadPersistence hload, entries_replayAof hm hcs replid _ rdbFile clock⟩

/-- What is read from the first bytes of a file: the records that are there as a whole.
SOURCE: persistence/aof.py:250-299 -/
theorem readCommands_take {maxBulkLen maxFileBytes : ℕ} {cs : List Command}
    (hcs : ∀ c ∈ cs, Readable maxBulkLen c)
    (hload : Loadable maxFileBytes (cs.flatMap encodeCommand)) (n : ℕ) :
    readCommands maxBulkLen maxFileBytes (some ((cs.flatMap encodeCommand).take n)) =
      .ok (kept cs n) := by
  have hcut : Loadable maxFileBytes ((kept cs n).flatMap encodeCommand ++ tornTail cs n) := by
    rw [← take_flatMap]
    exact hload.mono (List.take_prefix n _).length_le
  have hfits := fits_of_loadable hcs (by rwa [List.append_nil])
  have htorn := step_torn (top_lawful (aofLimits maxBulkLen))
    (frames_commands (aofLimits maxBulkLen)) cs hfits (top_nil _) n
  rw [take_flatMap, readCommands_append (fun c hc => hcs c (mem_whole hc)) hcut,
    run_of_more htorn]
  simp

/-- What is read from a file that was left behind: the records in it, and the one that was on its
way if all of it is there.
SOURCE: persistence/aof.py:250-299 -/
theorem read_leftBehind {cs : List Command} (hcs : ∀ c ∈ cs, Kept cfg c)
    (hpending : ∀ c ∈ unpropagated sys.holder, Kept cfg c)
    (hfile : sys.server.aof.file = some (cs.flatMap encodeCommand))
    (hload : Loadable cfg.persistenceMaxLoadBytes
      (sys.server.aof.file.getD [] ++ (underway sys.holder).flatMap encodeCommand))
    {data : Bytes} (hleft : LeftBehind sys data) :
    ∃ more, readCommands cfg.protoMaxBulkLen cfg.persistenceMaxLoadBytes (some data) =
        .ok (cs ++ more) ∧ more <+: underway sys.holder := by
  obtain ⟨n, rfl⟩ := hleft
  rw [hfile, Option.getD_some] at hload ⊢
  rw [← List.flatMap_append] at hload
  have hreadable : ∀ c ∈ cs ++ underway sys.holder, Readable cfg.protoMaxBulkLen c := by
    intro c hc
    obtain hc | hc := List.mem_append.mp hc
    · exact (hcs c hc).readable
    · exact (hpending c (mem_underway hc)).readable
  have hread := readCommands_take hreadable hload ((cs.flatMap encodeCommand).length + n)
  rw [List.flatMap_append, List.take_append, Nat.add_sub_cancel_left,
    List.take_of_length_le (Nat.le_add_right _ _)] at hread
  obtain ⟨more, hmore⟩ := (prefix_whole_iff encodeCommand (cs ++ underway sys.holder)
    ((cs.flatMap encodeCommand).length + n) cs).mpr
      ⟨List.prefix_append _ _, Nat.le_add_right _ _⟩
  have hfront := ((prefix_whole_iff encodeCommand (cs ++ underway sys.holder)
    ((cs.flatMap encodeCommand).length + n) _).mp List.prefix_rfl).1
  rw [← hmore] at hfront
  exact ⟨more, hread.trans (congrArg Except.ok hmore.symm),
    (List.prefix_append_right_inj cs).mp hfront⟩

/-- **A server that is killed comes up with what was acknowledged.** A master with an AOF and
without a memory limit starts on an empty data directory and runs under any schedule in which no
append fails and the commands, also those of a rewrite, are without deadlines and within the
limits of the reader; at some moment nobody holds the write lock, and at some later moment the
process is killed. The next start brings the keyspace that some front of the records makes, and
this front has every record that was there when the lock was free, every record that was
appended, and at most one more.
SOURCE: server.py:226-248, 409-535, persistence/aof.py:100-211, 250-317 -/
theorem killed_restart (hm : AofMaster cfg) (replid : Replid) (t : ℤ) {before after : List Event}
    {s : System} (hbefore : Runs System.step Allowed { server := started cfg replid, now := t }
      before s)
    (hfree : s.holder = .free) (hafter : Runs System.step Allowed s after sys)
    (hload : Loadable cfg.persistenceMaxLoadBytes
      (sys.server.aof.file.getD [] ++ (underway sys.holder).flatMap encodeCommand))
    {data : Bytes} (hleft : LeftBehind sys data) (hne : data ≠ []) (replid' : Replid)
    (clock : ℕ → ℤ) :
    ∃ srv k, Server.start cfg replid' (some data) sys.server.rdbFile clock = .ok srv ∧
      srv.store.entries = replay ((executedOf (before ++ after)).take k) Dict.empty ∧
      k ≤ (executedOf (before ++ after)).length ∧
      (executedOf before).length ≤ (appendedOf (before ++ after)).length ∧
      (appendedOf (before ++ after)).length ≤ k ∧
      k ≤ (appendedOf (before ++ after)).length + 1 := by
  have hinv : Rebuilt cfg replid (before ++ after) sys :=
    (hbefore.trans hafter).invariant (rebuilt_started hm replid t) fun h hok hs => h.step hm hok hs
  have hinv₀ : Rebuilt cfg replid before s :=
    hbefore.invariant (rebuilt_started hm replid t) fun h hok hs => h.step hm hok hs
  obtain ⟨cs, hfile, hcs, hreplay⟩ := hinv.log
  obtain ⟨more, hread, hmore⟩ := read_leftBehind hcs hinv.ledger.sound.pending hfile hload hleft
  have hkept : ∀ c ∈ cs ++ more, Kept cfg c := by
    intro c hc
    obtain hc | hc := List.mem_append.mp hc
    · exact hcs c hc
    · exact hinv.ledger.sound.pending c (mem_underway (hmore.subset hc))
  obtain ⟨srv, hstart, hentries⟩ := start_read hm hne hkept hread replid' sys.server.rdbFile clock
  -- the records that are back are a front of what took effect
  obtain ⟨rest, hrest⟩ := hmore.trans (underway_front sys.holder)
  have hall : executedOf (before ++ after) = appendedOf (before ++ after) ++ more ++ rest := by
    rw [hinv.ledger.appended, ← hrest, List.append_assoc]
  have hacked : executedOf before = appendedOf before := by
    have happended := hinv₀.ledger.appended
    rw [hfree] at happended
    rw [happended]
    exact List.append_nil _
  have hone := hmore.length_le.trans (length_underway sys.holder)
  refine ⟨srv, (appendedOf (before ++ after) ++ more).length, hstart, ?_, ?_, ?_, ?_, ?_⟩
  · rw [hentries, hall, List.take_left', replay_append, replay_append, hreplay]
    rfl
  · rw [hall]
    exact (List.prefix_append _ rest).length_le
  · rw [hacked, appendedOf_append, List.length_append]
    exact Nat.le_add_right _ _
  · rw [List.length_append]
    exact Nat.le_add_right _ _
  · rw [List.length_append]
    omega

/-- One record, and a part of the next. -/
def tornData : Bytes := encodeCommand firstSet ++ (encodeCommand setCommand).take 9

/-- A key is set, and the server is killed while the record of another one is written. -/
theorem killed_restart_torn :
    ∃ before s after sys,
      Runs System.step Allowed { server := started {} default } before s ∧ s.holder = .free ∧
      Runs System.step Allowed s after sys ∧
      executedOf (before ++ after) = [firstSet, setCommand] ∧ LeftBehind sys tornData ∧
      ∃ srv k, Server.start {} default (some tornData) sys.server.rdbFile (fun _ => 0) = .ok srv ∧
        srv.store.entries = replay ((executedOf (before ++ after)).take k) Dict.empty ∧
        k ≤ (executedOf (before ++ after)).length ∧
        (executedOf before).length ≤ (appendedOf (before ++ after)).length ∧
        (appendedOf (before ++ after)).length ≤ k ∧
        k ≤ (appendedOf (before ++ after)).length + 1 := by
  have h₁ := (@Runs.start _ _ _ System.step Allowed { server := started {} default }).step
    (a := Action.command 1 firstSet {}) ⟨by decide, fun _ _ => by decide⟩ rfl
  have h₂ := h₁.step (a := Action.append .none) (Eq.refl WriteFault.none) rfl
  have h₃ := h₂.step (a := Action.propagate fun _ => false) trivial rfl
  have hrest : ∀ {evs sys}, Runs System.step Allowed { server := started {} default } evs sys →
      Runs System.step Allowed sys [] sys := fun _ => .start
  have h₄ := (hrest h₃).step
    (a := Action.command 1 setCommand {}) ⟨by decide, fun _ _ => by decide⟩ rfl
  exact ⟨_, _, _, _, h₃, rfl, h₄, rfl, Exists.intro 9 (by decide +kernel),
    killed_restart aofMaster_default default 0 h₃ rfl h₄ ⟨by decide +kernel, by decide +kernel⟩
      (Exists.intro 9 (by decide +kernel)) (by decide +kernel) default _⟩

end ByoRedis.Analysis
