import ByoRedis.Model.Server
import ByoRedis.Analysis.MemoryLimit

/-!
# What `_execute` does to the keyspace

`prepare_write` says once how a write command that passes the gates can go: refused with
the live entries as they were, rolled back for lack of memory, or accepted, with the
effect of the command less the evicted keys. `prepare_read` says that every other command
leaves the live entries alone. The theorems about logs and replicas build on these two and
never unfold a handler.
-/

set_option autoImplicit false

namespace ByoRedis.Analysis

open ByoRedis.Model ByoRedis.Lib ByoRedis.Interface

/-! ## Deadlines and effects -/

/-- A write that sets no deadline: no EXPIRE, and no SET with EX. -/
def TtlFreeWrite : Write → Prop
  | .set _ _ (some _) => False
  | .expire _ _ => False
  | _ => True

instance (w : Write) : Decidable (TtlFreeWrite w) :=
  match w with
  | .set _ _ (some _) => isFalse id
  | .set _ _ none => isTrue trivial
  | .expire _ _ => isFalse id
  | .lpush _ _ => isTrue trivial
  | .rpop _ => isTrue trivial
  | .hset _ _ => isTrue trivial
  | .del _ => isTrue trivial

/-- A command without TTL. -/
def TtlFree (argv : Command) : Prop := ∀ w, Write.ofCommand argv = some w → TtlFreeWrite w

instance (argv : Command) : Decidable (TtlFree argv) :=
  match h : Write.ofCommand argv with
  | none => isTrue (by simp [TtlFree, h])
  | some w => decidable_of_iff (TtlFreeWrite w) (by simp [TtlFree, h])

/-- The deadline a command sets lies in the future. -/
def FutureDeadline : Write → Prop
  | .set _ _ (some n) => 0 < n
  | _ => True

/-- A SET with a deadline sets it in the future. -/
theorem ofCommand_future {argv : Command} {w : Write} (h : Write.ofCommand argv = some w) :
    FutureDeadline w := by
  unfold Write.ofCommand at h
  split at h
  · split at h
    · rename_i key value options _ ex ho
      cases h
      cases ex with
      | none => trivial
      | some n => exact setOptions_pos (by simp) ho n rfl
    · cases h
  · obtain ⟨n, -, rfl⟩ := Option.map_eq_some_iff.mp h
    trivial
  · cases h; trivial
  · cases h; trivial
  · split_ifs at h
    cases h
    trivial
  · cases h; trivial
  · cases h

/-- Elements go to the left one after the other. -/
theorem appendLeft_eq (dq elements : List Bytes) :
    Store.appendLeft dq elements = elements.reverse ++ dq := by
  unfold Store.appendLeft
  induction elements generalizing dq with
  | nil => rfl
  | cons a elements ih => rw [List.foldl_cons, ih]; simp

/-- A command that adds to a collection brings something to add. -/
def Laden : Write → Prop
  | .lpush _ elements => elements ≠ []
  | .hset _ items => items ≠ []
  | _ => True

/-- SOURCE: commands/list_cmds.py:11-12, commands/hash_cmds.py:12-13 -/
theorem ofCommand_laden {argv : Command} {w : Write} (h : Write.ofCommand argv = some w) :
    Laden w := by
  unfold Write.ofCommand at h
  split at h
  · split at h <;> cases h
    trivial
  · obtain ⟨n, -, rfl⟩ := Option.map_eq_some_iff.mp h
    trivial
  · cases h
    simp [Laden]
  · cases h
    trivial
  · rename_i key pairs _
    split_ifs at h with hp
    cases h
    match pairs, hp with
    | a :: b :: rest, _ => simp [Laden, pairUp]
  · cases h
    trivial
  · cases h

/-- What a command stores has a deadline in the future, or the one it found. -/
theorem deadline_of_store {now : ℤ} {w : Write} {old : Option KeyEntry} {e : KeyEntry}
    (hw : FutureDeadline w) (h : w.change now old = .store e) :
    (∃ d, e.expireAtMs = some d ∧ now < d ∧ ¬ TtlFreeWrite w) ∨ e.expireAtMs = none ∨
      ∃ e', old = some e' ∧ e.expireAtMs = e'.expireAtMs := by
  cases w with
  | set key value ex =>
    cases ex with
    | none => cases h; exact Or.inr (Or.inl rfl)
    | some n =>
      cases h
      have hn : 0 < n := hw
      exact Or.inl ⟨now + n * 1000, rfl, by omega, fun h => h⟩
  | expire key n =>
    cases old with
    | none => cases h
    | some e' =>
      simp only [Write.change] at h
      split_ifs at h with hn
      cases h
      exact Or.inl ⟨now + n * 1000, rfl, by omega, fun h => h⟩
  | lpush key elements =>
    cases old with
    | none => cases h; exact Or.inr (Or.inl rfl)
    | some e' =>
      cases hv : e'.value <;> simp only [Write.change, hv] at h
      · cases h
      · cases h; exact Or.inr (Or.inr ⟨e', rfl, rfl⟩)
      · cases h
  | rpop key =>
    cases old with
    | none => cases h
    | some e' =>
      cases hv : e'.value <;> simp only [Write.change, hv] at h
      · cases h
      · split_ifs at h
        cases h
        exact Or.inr (Or.inr ⟨e', rfl, rfl⟩)
      · cases h
  | hset key items =>
    cases old with
    | none => cases h; exact Or.inr (Or.inl rfl)
    | some e' =>
      cases hv : e'.value <;> simp only [Write.change, hv] at h
      · cases h
      · cases h
      · cases h; exact Or.inr (Or.inr ⟨e', rfl, rfl⟩)
  | del keys => cases h

/-- An entry after a command is the one before it or one the command stored. -/
theorem get?_effect_cases {now : ℤ} {w : Write} {d d' : Entries} {j : Bytes} {e : KeyEntry}
    (h : w.effect now d = some d') (hj : d'.get? j = some e) :
    d.get? j = some e ∨ (j ∈ w.keys ∧ w.change now (d.get? j) = .store e) := by
  rw [Write.get?_effect h j] at hj
  by_cases hk : j ∈ w.keys
  · rw [if_pos hk] at hj
    cases hc : w.change now (d.get? j) with
    | keep => rw [hc] at hj; exact Or.inl hj
    | store e' => rw [hc] at hj; cases hj; exact Or.inr ⟨hk, rfl⟩
    | drop => rw [hc] at hj; cases hj
    | refuse => rw [hc] at hj; exact Or.inl hj
  · rw [if_neg hk] at hj
    exact Or.inl hj

/-- What takes effect is a write. -/
theorem effect_eq_some {now : ℤ} {argv : Command} {d d' : Entries}
    (h : effect now argv d = some d') :
    ∃ w, Write.ofCommand argv = some w ∧ w.effect now d = some d' := by
  obtain ⟨w, hw, he⟩ := Option.bind_eq_some_iff.mp h
  exact ⟨w, hw, he⟩

/-- No entry is expired right after a command.
SOURCE: storage/store.py:97-139 -/
theorem Fresh.effect {now : ℤ} {argv : Command} {d d' : Entries} (hd : Fresh now d)
    (h : effect now argv d = some d') : Fresh now d' := by
  obtain ⟨w, hw, he⟩ := effect_eq_some h
  rintro ⟨j, e⟩ hj
  rcases get?_effect_cases he ((d'.get?_eq_some_iff j e).mpr hj) with hold | ⟨-, hnew⟩
  · exact hd.get? hold
  · rcases deadline_of_store (ofCommand_future hw) hnew with ⟨t, ht, hlt, -⟩ | hn | ⟨e', he', hx⟩
    · simp [ht, isExpired, hlt]
    · simp [hn, isExpired]
    · simpa only [hx] using hd.get? he'

/-- Commands without TTL keep the keyspace free of deadlines. -/
theorem Timeless.effect {now : ℤ} {argv : Command} {d d' : Entries} (hd : Timeless d)
    (ht : TtlFree argv) (h : effect now argv d = some d') : Timeless d' := by
  obtain ⟨w, hw, he⟩ := effect_eq_some h
  rintro ⟨j, e⟩ hj
  rcases get?_effect_cases he ((d'.get?_eq_some_iff j e).mpr hj) with hold | ⟨-, hnew⟩
  · exact hd.get? hold
  · rcases deadline_of_store (ofCommand_future hw) hnew with ⟨t, -, -, hno⟩ | hn | ⟨e', he', hx⟩
    · exact absurd (ht w hw) hno
    · exact hn
    · simpa only [hx] using hd.get? he'

/-- The meaning of a command without TTL does not depend on the clock. -/
theorem effect_of_ttlFree {argv : Command} (ht : TtlFree argv) (now now' : ℤ) (d : Entries) :
    effect now argv d = effect now' argv d := by
  unfold effect
  cases hw : Write.ofCommand argv with
  | none => rfl
  | some w =>
    have hfree := ht w hw
    have hchange : ∀ old, w.change now old = w.change now' old := by
      intro old
      cases w with
      | set key value ex =>
        cases ex with
        | none => rfl
        | some n => exact absurd hfree (fun h => h)
      | expire key n => exact absurd hfree (fun h => h)
      | lpush key elements => rfl
      | rpop key => rfl
      | hset key items => rfl
      | del keys => rfl
    simp only [Option.bind_some, Write.effect, hchange]

/-- The meaning of the record of an eviction. -/
theorem effect_evictionRecord (now : ℤ) (key : Bytes) (d : Entries) :
    effect now (Server.evictionRecord key) d = some (d.erase key) := by
  have hw : Write.ofCommand (Server.evictionRecord key) = some (.del [key]) := rfl
  rw [effect, hw, Option.bind_some, Write.effect_del]
  rfl

/-- The record of an eviction is a write. -/
theorem isWrite_evictionRecord (key : Bytes) : isWrite (Server.evictionRecord key) = true := by
  rfl

/-! ## Dispatch of write commands -/

/-- The commands in `WRITE_COMMANDS`. -/
def IsWriteName (c : CommandName) : Prop :=
  c = .set ∨ c = .expire ∨ c = .lpush ∨ c = .rpop ∨ c = .hset ∨ c = .del

/-- Every write command is registered.
SOURCE: commands/base.py:62-71, commands/registry.py:67-98 -/
theorem lookup_of_isWrite {argv : Command} (h : isWrite argv = true) :
    ∃ name args c, argv = name :: args ∧ CommandName.lookup name = some c ∧ IsWriteName c := by
  cases argv with
  | nil => exact absurd h (by decide)
  | cons name args =>
    simp only [isWrite, upperName, writeCommands, List.mem_cons, List.not_mem_nil, or_false,
      decide_eq_true_eq] at h
    refine ⟨name, args, ?_⟩
    have hl : CommandName.lookup name =
        CommandName.registered.find? fun c => decide (c.text = upper name) := rfl
    rcases h with h | h | h | h | h | h <;> rw [h] at hl
    · exact ⟨.set, rfl, hl, by simp [IsWriteName]⟩
    · exact ⟨.expire, rfl, hl, by simp [IsWriteName]⟩
    · exact ⟨.lpush, rfl, hl, by simp [IsWriteName]⟩
    · exact ⟨.rpop, rfl, hl, by simp [IsWriteName]⟩
    · exact ⟨.hset, rfl, hl, by simp [IsWriteName]⟩
    · exact ⟨.del, rfl, hl, by simp [IsWriteName]⟩

/-- The handler of a write command on the store. -/
def writeHandler (now : ℤ) (argv : Command) (s : Store) : Handled × Store :=
  match argv.head?.bind CommandName.lookup with
  | some .set => cmdSet now argv s
  | some .expire => cmdExpire now argv s
  | some .lpush => cmdLpush now argv s
  | some .rpop => cmdRpop now argv s
  | some .hset => cmdHset now argv s
  | some .del => cmdDel now argv s
  | _ => (.internal, s)

/-- **The handlers carry out the meaning of their commands.** -/
theorem writeHandler_carries {now : ℤ} {argv : Command} {s : Store} (hw : isWrite argv = true)
    (hf : Fresh now s.entries) : Carries now argv s (writeHandler now argv s) := by
  obtain ⟨name, args, c, rfl, hl, hc⟩ := lookup_of_isWrite hw
  simp only [writeHandler, List.head?_cons, Option.bind_some, hl]
  rcases hc with rfl | rfl | rfl | rfl | rfl | rfl
  · exact cmdSet_carries hl
  · exact cmdExpire_carries hl hf
  · exact cmdLpush_carries hl hf
  · exact cmdRpop_carries hl hf
  · exact cmdHset_carries hl hf
  · exact cmdDel_carries hl

/-- A write that the role of the server does not forbid goes to its handler.
SOURCE: commands/registry.py:37-58 -/
theorem dispatch_write (srv : Server) {env : Env} {flags : Flags} {conn : ℕ} {argv : Command}
    (hw : isWrite argv = true)
    (hro : (srv.config.isReplica && !flags.isReplicaClient && !flags.isLoading) = false) :
    srv.dispatch env flags conn argv = srv.onStore (writeHandler env.now argv srv.store) := by
  obtain ⟨name, args, c, rfl, hl, hc⟩ := lookup_of_isWrite hw
  have hcond : (srv.config.isReplica && isWrite (name :: args) && !flags.isReplicaClient &&
      !flags.isLoading) = false := by
    rw [hw, Bool.and_true]
    exact hro
  simp only [Server.dispatch, hl, hcond, writeHandler, List.head?_cons, Option.bind_some]
  rcases hc with rfl | rfl | rfl | rfl | rfl | rfl <;> rfl

/-! ## The synchronous part of a write -/

/-- The gates a write passes: authentication, the health of the AOF, and the role. -/
structure Admitted (srv : Server) (flags : Flags) (conn : ℕ) (argv : Command) : Prop where
  auth : srv.noauth flags conn argv = false
  aof : srv.misconf flags argv = false
  role : (srv.config.isReplica && !flags.isReplicaClient && !flags.isLoading) = false

/-- The store a write command leaves before the memory limit is looked at. -/
def handled (now : ℤ) (argv : Command) (s : Store) : Store :=
  (writeHandler now argv (s.purge now)).2

/-- The keys that `enforce_memory_limit` evicts when `argv` is executed on the store. -/
def localVictims (now : ℤ) (argv : Command) (s : Store) : List Bytes :=
  ((handled now argv s).enforceMemoryLimit now).1.getD []

/-- How an admitted write can go. -/
inductive WriteOutcome (srv : Server) (env : Env) (flags : Flags) (argv : Command) :
    Server.Prepared × Server → Prop where
  | refused (m : Str)
      (heff : effect env.now argv (srv.store.live env.now) = none)
      (herr : (writeHandler env.now argv (srv.store.purge env.now)).1 = .error m)
      (hent : (handled env.now argv srv.store).entries = srv.store.live env.now) :
      WriteOutcome srv env flags argv
        (({ srv with store := handled env.now argv srv.store } : Server).fail m)
  | oom (d : Entries) (s : Store)
      (heff : effect env.now argv (srv.store.live env.now) = some d)
      (hlim : (handled env.now argv srv.store).enforceMemoryLimit env.now = (none, s)) :
      WriteOutcome srv env flags argv
        (({ srv with store := s.loadEntries (srv.store.live env.now) } : Server).fail
          Server.oomError)
  | accepted (d : Entries) (evicted : List Bytes) (v : PyValue) (s : Store)
      (heff : effect env.now argv (srv.store.live env.now) = some d)
      (hlim : (handled env.now argv srv.store).enforceMemoryLimit env.now = (some evicted, s)) :
      WriteOutcome srv env flags argv
        (srv.hooks flags argv evicted v, { srv with store := s })

/-- **The synchronous part of an admitted write.**
SOURCE: server.py:436-498 -/
theorem prepare_write {srv : Server} (env : Env) {flags : Flags} {conn : ℕ} {argv : Command}
    (hw : isWrite argv = true) (ha : Admitted srv flags conn argv) :
    WriteOutcome srv env flags argv (srv.prepare env flags conn argv) := by
  have hfresh : Fresh env.now (srv.store.purge env.now).entries := by
    rw [entries_purge]
    exact fresh_live _ _
  have hc := writeHandler_carries hw hfresh
  rw [Carries, entries_purge] at hc
  unfold Server.prepare
  rw [ha.auth, ha.aof, hw]
  simp only [Bool.false_eq_true, if_false, if_true]
  rw [dispatch_write { srv with store := srv.store.purge env.now } hw ha.role]
  simp only [Server.onStore]
  cases heff : effect env.now argv (srv.store.live env.now) with
  | none =>
    rw [heff] at hc
    obtain ⟨-, ⟨m, hm⟩, hent⟩ := hc
    rw [hm]
    exact .refused m heff hm hent
  | some d =>
    rw [heff] at hc
    obtain ⟨-, ⟨v, hv⟩, -⟩ := hc
    rw [hv]
    simp only [Server.settle, hw, if_true]
    rcases hl : (handled env.now argv srv.store).enforceMemoryLimit env.now with ⟨o, s⟩
    have hl' : (writeHandler env.now argv (srv.store.purge env.now)).2.enforceMemoryLimit
        env.now = (o, s) := hl
    rw [hl']
    cases o with
    | none => exact .oom d s heff hl
    | some evicted => exact .accepted d evicted v s heff hl

/-- The store of an accepted write before the memory limit: the effect of the command.
SOURCE: server.py:466-479 -/
theorem handled_spec {now : ℤ} {argv : Command} {s : Store} {d : Entries}
    (hw : isWrite argv = true) (heff : effect now argv (s.live now) = some d) :
    (handled now argv s).entries = d ∧ SameLimits s (handled now argv s) ∧ Fresh now d := by
  have hfresh : Fresh now (s.purge now).entries := by
    rw [entries_purge]
    exact fresh_live _ _
  have hc := writeHandler_carries hw hfresh
  rw [Carries, entries_purge, heff] at hc
  obtain ⟨hsame, -, hent⟩ := hc
  exact ⟨hent, (sameLimits_purge s now).trans hsame, (fresh_live s now).effect heff⟩

/-- The entries an accepted write leaves: its effect less the evicted keys, which are keys
of the effect.
SOURCE: server.py:475-479 -/
theorem accepted_spec {now : ℤ} {argv : Command} {s s' : Store} {d : Entries}
    {evicted : List Bytes} (hw : isWrite argv = true)
    (heff : effect now argv (s.live now) = some d)
    (hlim : (handled now argv s).enforceMemoryLimit now = (some evicted, s')) :
    s'.entries = d.eraseMany evicted ∧ (∀ k ∈ evicted, k ∈ d.keys) ∧ SameLimits s s' := by
  obtain ⟨hent, hsame, hfresh⟩ := handled_spec hw heff
  have hspec := enforceMemoryLimit_spec now (s := handled now argv s)
    (by rw [hent]; exact hfresh)
  rw [hlim] at hspec
  obtain ⟨hsame', hall⟩ := hspec
  obtain ⟨h1, h2, -⟩ := hall evicted rfl
  rw [hent] at h1 h2
  exact ⟨h1, h2, hsame.trans hsame'⟩

/-! ## Commands that are not writes -/

/-- What looking at a store may do to it: expired entries go, accesses are noted. -/
structure Looks (now : ℤ) (s s' : Store) : Prop where
  limits : SameLimits s s'
  live : s'.live now = s.live now
  entries : Fresh now s.entries → s'.entries = s.entries

/-- Not looking is looking. -/
theorem Looks.refl (now : ℤ) (s : Store) : Looks now s s := ⟨SameLimits.refl s, rfl, fun _ => rfl⟩

/-- Two looks are a look. -/
theorem Looks.trans {now : ℤ} {s s' s'' : Store} (h : Looks now s s') (h' : Looks now s' s'') :
    Looks now s s'' :=
  ⟨h.limits.trans h'.limits, h'.live.trans h.live, fun hf => by
    have hs := h.entries hf
    rw [h'.entries (by rw [hs]; exact hf), hs]⟩

/-- SOURCE: storage/store.py:240-247 -/
theorem looks_purge (s : Store) (now : ℤ) : Looks now s (s.purge now) := by
  refine ⟨sameLimits_purge s now, ?_, fun hf => by rw [purge_of_fresh hf]⟩
  rw [live_of_fresh (by rw [entries_purge]; exact fresh_live s now), entries_purge]

/-- Deleting an entry that has expired. -/
theorem looks_remove {s : Store} {now : ℤ} {key : Bytes} {e : KeyEntry}
    (hk : s.entries.get? key = some e) (hx : isExpired e.expireAtMs now = true) :
    Looks now s (s.remove key) := by
  refine ⟨⟨rfl, rfl⟩, ?_, fun hf => ?_⟩
  · show (s.entries.erase key).filter _ = s.entries.filter _
    rw [Dict.erase, Dict.filter_filter]
    apply Dict.ext
    rw [Dict.entries_filter, Dict.entries_filter]
    apply List.filter_congr
    intro f hf
    by_cases hkey : f.1 = key
    · have hget := (s.entries.get?_eq_some_iff f.1 f.2).mpr hf
      rw [hkey, hk] at hget
      cases hget
      simp [hx]
    · simp [hkey]
  · rw [hf.get? hk] at hx
    cases hx

/-- SOURCE: storage/store.py:249-258 -/
theorem looks_touch (s : Store) (now : ℤ) (key : Bytes) : Looks now s (s.touch now key).2 := by
  unfold Store.touch
  cases hk : s.entries.get? key with
  | none => exact Looks.refl now s
  | some e =>
    by_cases hx : isExpired e.expireAtMs now = true
    · simp only [hx, if_true]
      exact looks_remove hk hx
    · simp only [hx]
      exact ⟨⟨rfl, rfl⟩, rfl, fun _ => rfl⟩

/-- SOURCE: storage/store.py:220-238 -/
theorem looks_activeExpireCycle (s : Store) (now : ℤ) (sample : List Bytes) :
    Looks now s (s.activeExpireCycle now sample).2 := by
  unfold Store.activeExpireCycle
  generalize (0 : ℤ) = n
  induction sample generalizing s n with
  | nil => exact Looks.refl now s
  | cons key sample ih =>
    rw [List.foldl_cons]
    unfold Store.expireSampled
    dsimp only
    cases hk : s.entries.get? key with
    | none => exact ih s n
    | some e =>
      by_cases hx : isExpired e.expireAtMs now = true
      · simp only [hx, if_true]
        exact (looks_remove hk hx).trans (ih (s.remove key) (n + 1))
      · simp only [hx]
        exact ih s n

/-- What a command outside `WRITE_COMMANDS` may change: neither the configuration nor the
AOF, the store only by looking at it, the RDB file only by SAVE and a snapshot of it, the replicas
only by PSYNC, and only BGREWRITEAOF schedules a rewrite. -/
structure ReadFrame (now : ℤ) (argv : Command) (srv srv' : Server) : Prop where
  config : srv'.config = srv.config
  aof : srv'.aof = srv.aof
  store : Looks now srv.store srv'.store
  rdb : srv'.rdbFile = srv.rdbFile ∨ upperName argv = ascii "SAVE" ∧
    ∃ payload, dumpRdbEntries (srv.store.live now) = some payload ∧ srv'.rdbFile = some payload
  master : upperName argv ≠ ascii "PSYNC" → srv'.master = srv.master
  unregisters : srv'.unregisters = srv.unregisters
  rewrite : upperName argv ≠ ascii "BGREWRITEAOF" →
    srv'.aofRewriteInProgress = srv.aofRewriteInProgress

/-- A command that changes nothing. -/
theorem ReadFrame.refl (now : ℤ) (argv : Command) (srv : Server) : ReadFrame now argv srv srv :=
  ⟨rfl, rfl, Looks.refl now _, Or.inl rfl, fun _ => rfl, rfl, fun _ => rfl⟩

/-- A failure is counted and nothing else. -/
theorem ReadFrame.fail {now : ℤ} {argv : Command} {srv srv' : Server}
    (h : ReadFrame now argv srv srv') (m : Str) : ReadFrame now argv srv (srv'.fail m).2 :=
  ⟨h.config, h.aof, h.store, h.rdb, h.master, h.unregisters, h.rewrite⟩

/-- The frame of a handler that changes nothing but the store. -/
theorem readFrame_onStore {now : ℤ} {argv : Command} {srv : Server} {r : Handled × Store}
    (h : Looks now srv.store r.2) : ReadFrame now argv srv (srv.onStore r).2 :=
  ⟨rfl, rfl, h, Or.inl rfl, fun _ => rfl, rfl, fun _ => rfl⟩

/-- GET looks at a key. -/
theorem looks_cmdGet (now : ℤ) (argv : Command) (s : Store) :
    Looks now s (cmdGet now argv s).2 := by
  unfold cmdGet
  split
  · rename_i key
    have h := looks_touch s now key
    simp only [Store.getString]
    rcases ht : s.touch now key with ⟨o, s'⟩
    rw [ht] at h
    cases o with
    | none => exact h
    | some e => cases hv : e.value <;> simpa only [hv] using h
  · exact Looks.refl now s

/-- HGETALL looks at a key. -/
theorem looks_cmdHgetall (now : ℤ) (argv : Command) (s : Store) :
    Looks now s (cmdHgetall now argv s).2 := by
  unfold cmdHgetall
  split
  · rename_i key
    have h := looks_touch s now key
    simp only [Store.hgetall]
    rcases ht : s.touch now key with ⟨o, s'⟩
    rw [ht] at h
    cases o with
    | none => exact h
    | some e => cases hv : e.value <;> simpa only [hv] using h
  · exact Looks.refl now s

/-- TTL removes the key if it has expired. -/
theorem looks_cmdTtl (now : ℤ) (argv : Command) (s : Store) :
    Looks now s (cmdTtl now argv s).2 := by
  unfold cmdTtl
  split
  · rename_i key
    simp only [Store.ttl]
    cases hk : s.entries.get? key with
    | none => exact Looks.refl now s
    | some e =>
      by_cases hx : isExpired e.expireAtMs now = true
      · simp only [hx, if_true]
        exact looks_remove hk hx
      · simp only [hx]
        exact Looks.refl now s
  · exact Looks.refl now s

/-- DBSIZE purges the store. -/
theorem looks_cmdDbsize (now : ℤ) (argv : Command) (s : Store) :
    Looks now s (cmdDbsize now argv s).2 := by
  unfold cmdDbsize
  split
  · exact looks_purge s now
  · exact Looks.refl now s

/-- AUTH changes who is authenticated. -/
theorem cmdAuth_frame (now : ℤ) (argv : Command) (srv : Server) (conn : ℕ) :
    ReadFrame now argv srv (srv.cmdAuth conn argv).2 := by
  unfold Server.cmdAuth
  split
  · rename_i password
    split_ifs
    · exact ReadFrame.refl now _ srv
    · cases hp : srv.config.requirepass with
      | none => simp only [Server.authenticate, hp]; exact ReadFrame.refl now _ srv
      | some configured =>
        simp only [Server.authenticate, hp]
        by_cases hne : encodeUtf8 configured ≠ password
        · simp only [if_pos hne]
          exact ⟨rfl, rfl, Looks.refl now _, Or.inl rfl, fun _ => rfl, rfl, fun _ => rfl⟩
        · simp only [if_neg hne]
          exact ⟨rfl, rfl, Looks.refl now _, Or.inl rfl, fun _ => rfl, rfl, fun _ => rfl⟩
  · exact ReadFrame.refl now _ srv

/-- INFO purges the store. -/
theorem cmdInfo_frame (env : Env) (argv : Command) (srv : Server) :
    ReadFrame env.now argv srv (srv.cmdInfo env argv).2 := by
  have hlooks := (looks_purge srv.store env.now).trans (looks_purge _ env.now)
  unfold Server.cmdInfo
  by_cases h : 2 < argv.length
  · rw [if_pos h]
    exact ReadFrame.refl _ _ srv
  · rw [if_neg h]
    -- `keyspace_stats` and `memory_usage` purge the store one after the other
    dsimp only
    split_ifs
    · exact ⟨rfl, rfl, hlooks, Or.inl rfl, fun _ => rfl, rfl, fun _ => rfl⟩
    · exact ⟨rfl, rfl, hlooks, Or.inl rfl, fun _ => rfl, rfl, fun _ => rfl⟩

/-- SAVE writes the snapshot it takes. -/
theorem cmdSave_frame (env : Env) (argv : Command) (srv : Server)
    (hname : upperName argv = ascii "SAVE") :
    ReadFrame env.now argv srv (srv.cmdSave env argv).2 := by
  have hlooks := looks_purge srv.store env.now
  unfold Server.cmdSave
  split_ifs
  · exact ReadFrame.refl _ _ srv
  · simp only [Store.snapshot]
    split
    · exact ⟨rfl, rfl, hlooks, Or.inl rfl, fun _ => rfl, rfl, fun _ => rfl⟩
    · rename_i payload hdump
      split
      · exact ⟨rfl, rfl, hlooks, Or.inl rfl, fun _ => rfl, rfl, fun _ => rfl⟩
      · exact ⟨rfl, rfl, hlooks, Or.inr ⟨hname, payload, hdump, rfl⟩, fun _ => rfl, rfl,
          fun _ => rfl⟩

/-- PSYNC registers a replica. -/
theorem cmdPsync_frame (env : Env) (conn : ℕ) (argv : Command) (srv : Server)
    (hname : upperName argv = ascii "PSYNC") :
    ReadFrame env.now argv srv (srv.cmdPsync env conn argv).2 := by
  have hlooks := looks_purge srv.store env.now
  have hfull : ReadFrame env.now argv srv (srv.fullResync env.now conn).2 := by
    unfold Server.fullResync
    simp only [Store.snapshot]
    cases dumpRdbEntries (srv.store.live env.now) with
    | none => exact ⟨rfl, rfl, hlooks, Or.inl rfl, fun h => absurd hname h, rfl, fun _ => rfl⟩
    | some rdb => exact ⟨rfl, rfl, hlooks, Or.inl rfl, fun h => absurd hname h, rfl, fun _ => rfl⟩
  unfold Server.cmdPsync
  by_cases h1 : argv.length ≠ 3
  · rw [if_pos h1]
    exact ReadFrame.refl _ _ srv
  rw [if_neg h1]
  by_cases h2 : conn ∉ srv.connections
  · rw [if_pos h2]
    exact ReadFrame.refl _ _ srv
  rw [if_neg h2]
  rcases hr : srv.fullResync env.now conn with ⟨b, srv'⟩
  rw [hr] at hfull
  cases b <;> exact hfull

/-- The name a command is registered under is the upper-cased name it was called by. -/
theorem text_of_lookup {name : Bytes} {c : CommandName} (h : CommandName.lookup name = some c) :
    c.text = upper name := by
  have := List.find?_some h
  simpa using this

/-- The handlers outside `WRITE_COMMANDS`. -/
theorem handle_frame {srv : Server} {env : Env} {conn : ℕ} {name : Bytes} {args : List Bytes}
    {c : CommandName} (hl : CommandName.lookup name = some c)
    (hr : isWrite (name :: args) = false) :
    ReadFrame env.now (name :: args) srv (srv.handle env conn (name :: args) c).2 := by
  have htext := text_of_lookup hl
  have hnot : ∀ w ∈ writeCommands, upper name ≠ w := by
    intro w hw he
    have hmem : upper name ∉ writeCommands := of_decide_eq_false hr
    exact hmem (he ▸ hw)
  cases c with
  | set => exact absurd htext.symm (hnot _ (by decide))
  | expire => exact absurd htext.symm (hnot _ (by decide))
  | lpush => exact absurd htext.symm (hnot _ (by decide))
  | rpop => exact absurd htext.symm (hnot _ (by decide))
  | hset => exact absurd htext.symm (hnot _ (by decide))
  | del => exact absurd htext.symm (hnot _ (by decide))
  | get => exact readFrame_onStore (looks_cmdGet _ _ _)
  | ttl => exact readFrame_onStore (looks_cmdTtl _ _ _)
  | hgetall => exact readFrame_onStore (looks_cmdHgetall _ _ _)
  | dbsize => exact readFrame_onStore (looks_cmdDbsize _ _ _)
  | auth => exact cmdAuth_frame _ _ srv conn
  | info => exact cmdInfo_frame env _ srv
  | save => exact cmdSave_frame env _ srv htext.symm
  | bgsave =>
    simp only [Server.handle, Server.cmdBgsave]
    split_ifs <;> exact ⟨rfl, rfl, Looks.refl _ _, Or.inl rfl, fun _ => rfl, rfl, fun _ => rfl⟩
  | bgrewriteaof =>
    simp only [Server.handle, Server.cmdBgrewriteaof]
    split_ifs <;> exact ⟨rfl, rfl, Looks.refl _ _, Or.inl rfl, fun _ => rfl, rfl,
      fun hname => absurd htext.symm hname⟩
  | psync => exact cmdPsync_frame env conn _ srv htext.symm
  | ping => exact ReadFrame.refl _ _ srv
  | echo => exact ReadFrame.refl _ _ srv
  | select => exact ReadFrame.refl _ _ srv
  | command => exact ReadFrame.refl _ _ srv
  | config => exact ReadFrame.refl _ _ srv
  | replconf => exact ReadFrame.refl _ _ srv

/-- The handlers behind the dispatch. -/
theorem dispatch_frame (srv : Server) (env : Env) (flags : Flags) (conn : ℕ) {argv : Command}
    (hr : isWrite argv = false) :
    ReadFrame env.now argv srv (srv.dispatch env flags conn argv).2 := by
  cases argv with
  | nil => exact ReadFrame.refl _ _ srv
  | cons name args =>
    simp only [Server.dispatch]
    cases hl : CommandName.lookup name with
    | none => exact ReadFrame.refl _ _ srv
    | some c =>
      simp only [hr, Bool.and_false, Bool.false_and]
      exact handle_frame hl hr

/-- **A command outside `WRITE_COMMANDS` is answered at once**, logs nothing and leaves the
entries alone.
SOURCE: server.py:436-535 -/
theorem prepare_read (srv : Server) (env : Env) (flags : Flags) (conn : ℕ) {argv : Command}
    (hr : isWrite argv = false) :
    ∃ reply srv', srv.prepare env flags conn argv = (.done reply, srv') ∧
      ReadFrame env.now argv srv srv' := by
  have hframe := dispatch_frame srv env flags conn hr
  unfold Server.prepare
  by_cases h1 : srv.noauth flags conn argv = true
  · rw [if_pos h1]
    exact ⟨_, _, rfl, (ReadFrame.refl _ _ srv).fail []⟩
  rw [if_neg h1]
  by_cases h2 : srv.misconf flags argv = true
  · rw [if_pos h2]
    exact ⟨_, _, rfl, (ReadFrame.refl _ _ srv).fail []⟩
  rw [if_neg h2]
  simp only [hr, Bool.false_eq_true, if_false]
  rcases hd : srv.dispatch env flags conn argv with ⟨r, srv'⟩
  rw [hd] at hframe
  cases r with
  | error m => exact ⟨_, _, rfl, hframe.fail m⟩
  | internal => exact ⟨_, _, rfl, hframe.fail []⟩
  | noReply =>
    simp only [Server.settle, hr, Bool.false_eq_true, if_false]
    exact ⟨_, _, rfl, hframe⟩
  | value v =>
    simp only [Server.settle, Server.hooks, hr, Bool.false_and, Bool.false_eq_true, if_false]
    exact ⟨_, _, rfl, hframe⟩

/-- A command that a gate stops changes nothing but the failure count.
SOURCE: server.py:437-454 -/
theorem prepare_gated {srv : Server} (env : Env) {flags : Flags} {conn : ℕ} {argv : Command}
    (h : srv.noauth flags conn argv = true ∨ srv.misconf flags argv = true) :
    ∃ m, srv.prepare env flags conn argv = srv.fail m := by
  unfold Server.prepare
  by_cases h1 : srv.noauth flags conn argv = true
  · exact ⟨_, by rw [if_pos h1]⟩
  · rcases h with h | h
    · exact absurd h h1
    · exact ⟨_, by rw [if_neg h1, if_pos h]⟩

/-- A write of a client is refused on a replica.
SOURCE: commands/registry.py:45-50 -/
theorem prepare_readonly {srv : Server} (env : Env) {flags : Flags} {conn : ℕ} {argv : Command}
    (hw : isWrite argv = true)
    (hro : (srv.config.isReplica && !flags.isReplicaClient && !flags.isLoading) = true) :
    ∃ m s, srv.prepare env flags conn argv = ({ srv with store := s } : Server).fail m ∧
      Looks env.now srv.store s := by
  by_cases hgate : srv.noauth flags conn argv = true ∨ srv.misconf flags argv = true
  · obtain ⟨m, hm⟩ := prepare_gated env hgate
    exact ⟨m, srv.store, hm, Looks.refl _ _⟩
  · rw [not_or, Bool.not_eq_true, Bool.not_eq_true] at hgate
    obtain ⟨name, args, c, rfl, hl, -⟩ := lookup_of_isWrite hw
    have hcond : (srv.config.isReplica && isWrite (name :: args) && !flags.isReplicaClient &&
        !flags.isLoading) = true := by
      rw [hw, Bool.and_true]
      exact hro
    refine ⟨readonlyError, srv.store.purge env.now, ?_, looks_purge _ _⟩
    unfold Server.prepare
    rw [hgate.1, hgate.2, hw]
    simp only [Bool.false_eq_true, if_false, if_true, Server.dispatch, hl, hcond]

end ByoRedis.Analysis
