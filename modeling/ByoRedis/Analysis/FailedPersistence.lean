import ByoRedis.Analysis.LogReplay
import ByoRedis.Analysis.Propagation

/-!
# A write whose record cannot be stored

The store changes before the record is appended, and the path of a failed append returns
`MISCONF` without going back, where the path of a memory limit restores the snapshot it
took. `misconf_consistent_iff` says exactly when a `MISCONF` reply leaves the server as it
was: the AOF had failed before the command came, or the command changed nothing that
lasts and no replica was given it.
-/

set_option autoImplicit false

namespace ByoRedis.Analysis

open ByoRedis.Model ByoRedis.Lib ByoRedis.Interface

/-! ## Commands that change nothing -/

/-- The command leaves the entries `d` as they are. -/
def Inert (now : ℤ) (d : Entries) : Write → Prop
  | .set key value ex =>
    d.get? key = some { type := .string, value := .bytes value,
                        expireAtMs := ex.map fun n => now + n * 1000 }
  | .expire key n =>
    ∀ e, d.get? key = some e → 0 < n ∧ e.expireAtMs = some (now + n * 1000)
  | .lpush _ _ => False
  | .rpop key => d.get? key = none
  | .hset key items =>
    ∃ e mapping, d.get? key = some e ∧ e.value = .dict mapping ∧
      (Store.hsetLoop mapping items).2 = mapping
  | .del keys => ∀ k ∈ keys, d.get? k = none

/-- A list command that is not refused finds a list.
SOURCE: storage/store.py:151-183 -/
theorem exists_deque {now : ℤ} {w : Write} {e : KeyEntry}
    (hw : (∃ key elements, w = .lpush key elements) ∨ ∃ key, w = .rpop key)
    (hr : w.change now (some e) ≠ .refuse) : ∃ items, e.value = .deque items := by
  cases hv : e.value with
  | deque items => exact ⟨items, rfl⟩
  | bytes b =>
    rcases hw with ⟨key, elements, rfl⟩ | ⟨key, rfl⟩
    · exact absurd (by simp [Write.change, hv]) hr
    · exact absurd (by simp [Write.change, hv]) hr
  | dict m =>
    rcases hw with ⟨key, elements, rfl⟩ | ⟨key, rfl⟩
    · exact absurd (by simp [Write.change, hv]) hr
    · exact absurd (by simp [Write.change, hv]) hr

/-- LPUSH of at least one element always leaves a trace. -/
theorem lpush_result_ne {now : ℤ} {key : Bytes} {elements : List Bytes} {a : Option KeyEntry}
    (hne : elements ≠ []) (hr : (Write.lpush key elements).change now a ≠ .refuse) :
    ((Write.lpush key elements).change now a).result a ≠ a := by
  cases a with
  | none => simp [Write.change, Change.result]
  | some e =>
    obtain ⟨items, hv⟩ := exists_deque (Or.inl ⟨key, elements, rfl⟩) hr
    simp only [Write.change, hv, Change.result, ne_eq, Option.some.injEq]
    intro h
    have hval := congrArg KeyEntry.value h
    rw [hv] at hval
    have hlen := congrArg List.length (RedisValue.deque.inj hval)
    rw [appendLeft_eq, List.length_append, List.length_reverse] at hlen
    have hpos := List.length_pos_iff.mpr hne
    omega

/-- RPOP leaves no trace only where there is nothing. -/
theorem rpop_result_eq_iff {now : ℤ} {key : Bytes} {a : Option KeyEntry}
    (hr : (Write.rpop key).change now a ≠ .refuse) :
    ((Write.rpop key).change now a).result a = a ↔ a = none := by
  cases a with
  | none => simp [Write.change, Change.result]
  | some e =>
    obtain ⟨items, hv⟩ := exists_deque (Or.inr ⟨key, rfl⟩) hr
    simp only [Write.change, hv, reduceCtorEq, iff_false]
    by_cases hd : items.dropLast.isEmpty = true
    · simp [hd, Change.result]
    · simp only [if_neg hd, Change.result, Option.some.injEq]
      intro h
      have hval := congrArg KeyEntry.value h
      rw [hv] at hval
      have hlen := congrArg List.length (RedisValue.deque.inj hval)
      rw [List.length_dropLast] at hlen
      have hnil : items = [] := List.length_eq_zero_iff.mp (by omega)
      exact hd (by rw [hnil]; rfl)

/-- HSET leaves no trace only on a hash that already holds the fields. -/
theorem hset_result_eq_iff {now : ℤ} {key : Bytes} {items : List (Bytes × Bytes)}
    {a : Option KeyEntry} (hr : (Write.hset key items).change now a ≠ .refuse) :
    ((Write.hset key items).change now a).result a = a ↔
      ∃ e mapping, a = some e ∧ e.value = .dict mapping ∧
        (Store.hsetLoop mapping items).2 = mapping := by
  cases a with
  | none => simp [Write.change, Change.result]
  | some e =>
    cases hv : e.value with
    | bytes b => exact absurd (by simp [Write.change, hv]) hr
    | deque l => exact absurd (by simp [Write.change, hv]) hr
    | dict m =>
      simp only [Write.change, hv, Change.result, Option.some.injEq]
      constructor
      · intro h
        have hval := congrArg KeyEntry.value h
        rw [hv] at hval
        exact ⟨e, m, rfl, hv, RedisValue.dict.inj hval⟩
      · rintro ⟨e', m', rfl, hv', hm⟩
        rw [hv] at hv'
        cases hv'
        exact KeyEntry.ext' (by rw [hv, hm]) rfl

/-- EXPIRE leaves no trace only where there is nothing, or the same deadline. -/
theorem expire_result_eq_iff {now : ℤ} {key : Bytes} {n : ℤ} {a : Option KeyEntry} :
    ((Write.expire key n).change now a).result a = a ↔
      ∀ e, a = some e → 0 < n ∧ e.expireAtMs = some (now + n * 1000) := by
  cases a with
  | none => simp [Write.change, Change.result]
  | some e =>
    by_cases hn : n ≤ 0
    · simp [Write.change, Change.result, hn, Int.not_lt.mpr hn]
    · simp only [Write.change, if_neg hn, Change.result, Option.some.injEq, forall_eq']
      constructor
      · intro h
        exact ⟨by omega, (congrArg KeyEntry.expireAtMs h).symm⟩
      · rintro ⟨-, h⟩
        exact KeyEntry.ext' rfl h.symm

/-- The result of every change equals what was there exactly for inert commands. -/
theorem result_eq_self_iff {now : ℤ} {argv : Command} {w : Write} {d : Entries}
    (hof : Write.ofCommand argv = some w)
    (hr : ∀ k ∈ w.keys, w.change now (d.get? k) ≠ .refuse) :
    (∀ k ∈ w.keys, (w.change now (d.get? k)).result (d.get? k) = d.get? k) ↔ Inert now d w := by
  cases w with
  | set key value ex =>
    simp only [Write.keys, List.mem_singleton, forall_eq, Write.change, Change.result, Inert]
    exact eq_comm
  | expire key n =>
    simp only [Write.keys, List.mem_singleton, forall_eq, Inert]
    exact expire_result_eq_iff
  | lpush key elements =>
    simp only [Write.keys, List.mem_singleton, forall_eq, Inert, iff_false] at hr ⊢
    exact lpush_result_ne (ofCommand_laden hof) hr
  | rpop key =>
    simp only [Write.keys, List.mem_singleton, forall_eq, Inert] at hr ⊢
    exact rpop_result_eq_iff hr
  | hset key items =>
    simp only [Write.keys, List.mem_singleton, forall_eq, Inert] at hr ⊢
    exact hset_result_eq_iff hr
  | del keys =>
    simp only [Write.keys, Write.change, Change.result, Inert]
    exact ⟨fun h k hk => (h k hk).symm, fun h k hk => (h k hk).symm⟩

/-- The command on `d` leaves nothing behind: it changes nothing and evicts nothing, or all
it evicts are keys that were not there before. -/
def NoTrace (now : ℤ) (argv : Command) (d : Entries) (evicted : List Bytes) : Prop :=
  (evicted = [] ∧ ∃ w, Write.ofCommand argv = some w ∧ Inert now d w) ∨
    (evicted ≠ [] ∧ ∀ k ∈ evicted, d.get? k = none)

/-- **When an accepted command with its evictions restores the entries.**
SOURCE: server.py:475-479 -/
theorem restored_iff {now : ℤ} {argv : Command} {d d' : Entries} {evicted : List Bytes}
    (heff : effect now argv d = some d') (hev : ∀ k ∈ evicted, k ∈ d'.keys) :
    (∀ k, (d'.eraseMany evicted).get? k = d.get? k) ↔ NoTrace now argv d evicted := by
  obtain ⟨w, hof, hw⟩ := effect_eq_some heff
  have hnot : ∀ k ∈ w.keys, w.change now (d.get? k) ≠ .refuse :=
    fun k hk => Write.change_ne_refuse hw hk
  have hget : ∀ k, (d'.eraseMany evicted).get? k = if k ∈ evicted then none else d'.get? k := by
    intro k
    rw [Dict.eraseMany_eq_filter, Dict.get?_filter]
    by_cases hk : k ∈ evicted <;> cases d'.get? k <;> simp [Option.filter, hk]
  constructor
  · intro h
    by_cases hnil : evicted = []
    · subst hnil
      refine Or.inl ⟨rfl, w, hof, (result_eq_self_iff hof hnot).mp ?_⟩
      intro k hk
      have := h k
      rw [Dict.eraseMany_nil, Write.get?_effect hw, if_pos hk] at this
      exact this
    · refine Or.inr ⟨hnil, ?_⟩
      intro k hk
      rw [← h k, hget, if_pos hk]
  · rintro (⟨rfl, w', hof', hinert⟩ | ⟨hne, hnew⟩) k
    · rw [hof] at hof'
      cases hof'
      rw [Dict.eraseMany_nil, Write.get?_effect hw]
      split_ifs with hk
      · exact (result_eq_self_iff hof hnot).mpr hinert k hk
      · rfl
    · -- an evicted key that was absent is the one key the command created
      have hcreated : ∀ j ∈ evicted, j ∈ w.keys := by
        intro j hj
        obtain ⟨v, hv⟩ := (d'.mem_keys_iff j).mp (hev j hj)
        by_contra hno
        rw [Write.get?_effect hw, if_neg hno, hnew j hj] at hv
        cases hv
      rw [hget]
      split_ifs with hk
      · exact (hnew k hk).symm
      · rw [Write.get?_effect hw, if_neg]
        obtain ⟨j, hj⟩ := List.exists_mem_of_ne_nil _ hne
        rcases w.keys_cases with ⟨key, hkey⟩ | ⟨keys, rfl⟩
        · intro hmem
          have hjk := hcreated j hj
          rw [hkey, List.mem_singleton] at hmem hjk
          rw [hmem, ← hjk] at hk
          exact hk hj
        · obtain ⟨v, hv⟩ := (d'.mem_keys_iff j).mp (hev j hj)
          rw [Write.get?_effect hw, if_pos (hcreated j hj)] at hv
          cases hv

/-! ## The reply -/

/-- A `MISCONF` error reply. -/
def IsMisconf (reply : Option Bytes) : Prop := ∃ r, reply = some r ∧ ascii "-MISCONF" <+: r

/-- The second byte of an error reply is the first of its text. -/
theorem not_misconf_of_head {m rest : Str} {c : Char} (hm : m = c :: rest)
    (hc : c = 'E' ∨ c = 'W' ∨ c = 'O' ∨ c = 'N') : ¬ IsMisconf (some (encodeError m)) := by
  rintro ⟨r, hr, hpre⟩
  cases hr
  subst hm
  rcases hc with rfl | rfl | rfl | rfl <;>
    exact absurd (List.cons_prefix_cons.mp (List.cons_prefix_cons.mp hpre).2).1 (by decide)

/-- A value is never encoded as an error.
SOURCE: protocol/encoder.py:47-79 -/
theorem not_misconf_of_value (v : PyValue) : ¬ IsMisconf (some (encodeValue v)) := by
  rintro ⟨r, hr, hpre⟩
  cases hr
  cases v with
  | simple s =>
    have hs : encodeSimpleString s.text = some (ascii "+" ++ s.text ++ crlf) := by
      rw [encodeSimpleString, if_neg]
      exact fun h => h.elim s.noCr s.noLf
    rw [encodeValue, hs] at hpre
    exact absurd (List.cons_prefix_cons.mp hpre).1 (by decide)
  | none => exact absurd (List.cons_prefix_cons.mp hpre).1 (by decide)
  | bool b => exact absurd (List.cons_prefix_cons.mp hpre).1 (by decide)
  | int i => exact absurd (List.cons_prefix_cons.mp hpre).1 (by decide)
  | bytes b => exact absurd (List.cons_prefix_cons.mp hpre).1 (by decide)
  | str t => exact absurd (List.cons_prefix_cons.mp hpre).1 (by decide)
  | list items => exact absurd (List.cons_prefix_cons.mp hpre).1 (by decide)

/-- SOURCE: commands/string_cmds.py:18-34 -/
theorem setOptions_error {options : List Bytes} {init : Option ℤ} {m : Str}
    (h : setOptions options init = .error m) : ∃ rest, m = 'E' :: rest := by
  induction options, init using setOptions.induct with
  | case1 init => cases h
  | case2 opt init hopt =>
    simp only [setOptions, if_pos hopt] at h
    cases h
    exact ⟨_, rfl⟩
  | case3 opt init hopt seconds rest hp =>
    simp only [setOptions, if_pos hopt, hp] at h
    cases h
    exact ⟨_, rfl⟩
  | case4 opt init hopt seconds rest n hp hn =>
    simp only [setOptions, if_pos hopt, hp, if_pos hn] at h
    cases h
    exact ⟨_, rfl⟩
  | case5 opt init hopt seconds rest n hp hn ih =>
    simp only [setOptions, if_pos hopt, hp, if_neg hn] at h
    exact ih h
  | case6 opt args init hopt =>
    cases args <;> simp only [setOptions, if_neg hopt] at h <;> cases h <;> exact ⟨_, rfl⟩

/-- An error of the store is WRONGTYPE, which begins with `W`. -/
theorem ofStore_error {α : Type} {reply : α → PyValue} {r : Except StoreError α} {m : Str}
    (h : Handled.ofStore reply r = .error m) : ∃ rest, m = 'W' :: rest := by
  cases r with
  | ok a => cases h
  | error e =>
    cases e
    cases h
    exact ⟨_, rfl⟩

/-- The errors of the write handlers are `ERR` or `WRONGTYPE`.
SOURCE: commands/base.py:29-34 -/
theorem writeHandler_error {now : ℤ} {argv : Command} {s : Store} {m : Str}
    (h : (writeHandler now argv s).1 = .error m) :
    ∃ c rest, m = c :: rest ∧ (c = 'E' ∨ c = 'W') := by
  unfold writeHandler at h
  split at h
  · unfold cmdSet at h
    split at h
    · split at h
      · rename_i ho
        cases h
        obtain ⟨rest, hr⟩ := setOptions_error ho
        exact ⟨_, rest, hr, Or.inl rfl⟩
      · cases h
    · cases h
      exact ⟨_, _, rfl, Or.inl rfl⟩
  · unfold cmdExpire at h
    split at h
    · split at h
      · cases h
        exact ⟨_, _, rfl, Or.inl rfl⟩
      · cases h
    · cases h
      exact ⟨_, _, rfl, Or.inl rfl⟩
  · unfold cmdLpush at h
    split at h
    · obtain ⟨rest, hr⟩ := ofStore_error h
      exact ⟨_, rest, hr, Or.inr rfl⟩
    · cases h
      exact ⟨_, _, rfl, Or.inl rfl⟩
  · unfold cmdRpop at h
    split at h
    · obtain ⟨rest, hr⟩ := ofStore_error h
      exact ⟨_, rest, hr, Or.inr rfl⟩
    · cases h
      exact ⟨_, _, rfl, Or.inl rfl⟩
  · unfold cmdHset at h
    split at h
    · cases h
      exact ⟨_, _, rfl, Or.inl rfl⟩
    · split at h
      · split at h
        · cases h
          exact ⟨_, _, rfl, Or.inl rfl⟩
        · obtain ⟨rest, hr⟩ := ofStore_error h
          exact ⟨_, rest, hr, Or.inr rfl⟩
      · cases h
        exact ⟨_, _, rfl, Or.inl rfl⟩
  · unfold cmdDel at h
    split at h
    · cases h
    · cases h
      exact ⟨_, _, rfl, Or.inl rfl⟩
  · cases h

/-! ## The records -/

/-- The fate makes the append of a healthy AOF raise.
SOURCE: persistence/aof.py:100-122, 182-186 -/
def Raises (cfg : Config) : WriteFault → Prop
  | .none => False
  | .writeFails _ => True
  | .fsyncFails _ => cfg.aofFsync = .always
  | .dropped _ => cfg.aofFsync = .everysec
  | .degraded _ => False
  | .queueFull => True

/-- SOURCE: persistence/aof.py:167-186 -/
theorem append_error_iff {cfg : Config} {a : AofLog} (hen : cfg.aofEnabled = true)
    (hop : a.opened = true) (hh : a.failure = none) (argv : Command) (fault : WriteFault) :
    (∃ t a', a.append cfg argv fault = (.error t, a')) ↔ Raises cfg fault := by
  have hc : ¬ (!cfg.aofEnabled || !a.opened) = true := by simp [hen, hop]
  unfold AofLog.append
  rw [if_neg hc, hh]
  cases fault with
  | none => simp [Raises]
  | writeFails t => simp [Raises]
  | fsyncFails t => by_cases hp : cfg.aofFsync = .always <;> simp [Raises, hp]
  | dropped t => by_cases hp : cfg.aofFsync = .everysec <;> simp [Raises, hp]
  | degraded t => by_cases hp : cfg.aofFsync = .everysec <;> simp [Raises, hp]
  | queueFull => simp [Raises]

/-- A record adds to what the links were given. -/
theorem grows_commit (srv : Server) (p : Bool) (argv : Command) (io : RecordIO) :
    Grows srv.master (srv.commit p argv io).2.master := by
  unfold Server.commit
  split
  · exact Grows.refl _
  · cases p
    · exact Grows.refl _
    · exact grows_propagate _ _ _

/-- SOURCE: server.py:499-522 -/
theorem grows_commitAll (p : Bool) (cs : List Command) (ios : List RecordIO) (srv : Server) :
    Grows srv.master (Server.commitAll p cs ios srv).2.2.master := by
  induction cs generalizing ios srv with
  | nil => exact Grows.refl _
  | cons argv cs ih =>
    have h := grows_commit srv p argv (ios.headD {})
    simp only [Server.commitAll]
    rcases hc : srv.commit p argv (ios.headD {}) with ⟨r, srv'⟩
    rw [hc] at h
    cases r with
    | error t => exact h
    | ok u => exact h.trans (ih ios.tail srv')

/-- No link has been given anything. -/
def Unsent (m m' : MasterReplication) : Prop :=
  ∀ c, (m'.links.get? c).map given = (m.links.get? c).map given

/-- No registered link accepts the command. -/
def NoTaker (m : MasterReplication) (argv : Command) (fails : ℕ → Bool) : Prop :=
  ∀ c ∈ m.replicas, ∀ l, m.links.get? c = some l →
    ¬ Accepts m (encodeCommand argv) (fails c) l

/-- **Whether a replica has been given anything** is decided by the command's own record:
it failed, or no link took it.
SOURCE: server.py:499-522 -/
theorem unsent_commitAll_iff (srv : Server) (hen : srv.config.aofEnabled = true)
    (hop : srv.aof.opened = true) (hh : srv.aof.failure = none) (argv : Command)
    (rest : List Command) (ios : List RecordIO) :
    Unsent srv.master (Server.commitAll true (argv :: rest) ios srv).2.2.master ↔
      Raises srv.config (ios.headD {}).fault ∨ NoTaker srv.master argv (ios.headD {}).fails := by
  have hap := append_error_iff hen hop hh argv (ios.headD {}).fault
  simp only [Server.commitAll, Server.commit]
  rcases ha : srv.aof.append srv.config argv (ios.headD {}).fault with ⟨r, a'⟩
  cases r with
  | error t =>
    have hraise : Raises srv.config (ios.headD {}).fault := hap.mp ⟨t, a', ha⟩
    exact ⟨fun _ => Or.inl hraise, fun _ _ => rfl⟩
  | ok u =>
    have hraise : ¬ Raises srv.config (ios.headD {}).fault := by
      intro h
      obtain ⟨t, a'', ha''⟩ := hap.mpr h
      rw [ha] at ha''
      cases ha''
    simp only [if_true, hraise, false_or]
    have hgrow := grows_commitAll true rest ios.tail
      (({ srv with aof := a' } : Server).propagateRecord (ios.headD {}).fails argv)
    generalize Server.commitAll true rest ios.tail
      (({ srv with aof := a' } : Server).propagateRecord (ios.headD {}).fails argv) = r at hgrow ⊢
    have hfirst : (({ srv with aof := a' } : Server).propagateRecord (ios.headD {}).fails
        argv).master = (srv.master.propagate argv (ios.headD {}).fails).1 := rfl
    rw [hfirst] at hgrow
    constructor
    · intro hun c hc l hl hacc
      obtain ⟨l', hl', hlt⟩ := propagate_of_accepts hc hl hacc
      obtain ⟨l'', hl'', hle, -⟩ := hgrow.present c l' hl'
      have hsame := hun c
      rw [hl'', hl] at hsame
      have hg : given l'' = given l := Option.some.inj hsame
      have hsize : givenSize l'' = givenSize l := by
        have h1 := congrArg (fun g : Bytes × List Bytes => g.1.length) hg
        have h2 := congrArg (fun g : Bytes × List Bytes => g.2.length) hg
        simp only [given] at h1 h2
        rw [givenSize, givenSize, h1, h2]
      omega
    · intro hno c
      cases hl : srv.master.links.get? c with
      | none =>
        have h1 : (srv.master.propagate argv (ios.headD {}).fails).1.links.get? c = none :=
          (grows_propagate _ _ _).absent c hl
        rw [hgrow.absent c h1]
      | some l =>
        by_cases hc : c ∈ srv.master.replicas
        · have h1 := propagate_of_not_accepts hc hl (hno c hc l hl)
          obtain ⟨l', hl', -, hkeep⟩ := hgrow.present c _ h1
          rw [hl', hkeep (Or.inr rfl)]
          rfl
        · obtain ⟨l', hl', -, hkeep⟩ := (grows_propagate srv.master argv
            (ios.headD {}).fails).present c l hl
          obtain ⟨l'', hl'', -, hkeep'⟩ := hgrow.present c l' hl'
          rw [hl'', hkeep' (Or.inl (by rw [(propagate_frame _ _ _).1]; exact hc)),
            hkeep (Or.inl hc)]

/-- Without an open AOF no record fails.
SOURCE: persistence/aof.py:167-171 -/
theorem commitAll_of_off (p : Bool) (cs : List Command) (ios : List RecordIO) (srv : Server)
    (hoff : (!srv.config.aofEnabled || !srv.aof.opened) = true) :
    (Server.commitAll p cs ios srv).1 = none := by
  induction cs generalizing ios srv with
  | nil => rfl
  | cons argv cs ih =>
    have ha : srv.aof.append srv.config argv (ios.headD {}).fault = (.ok (), srv.aof) := by
      unfold AofLog.append
      rw [if_pos hoff]
    simp only [Server.commitAll, Server.commit, ha]
    cases p
    · exact ih ios.tail srv hoff
    · exact ih ios.tail _ hoff

/-! ## The command as a whole -/

/-- After the command the keyspace is the one before it, and no replica has been given
anything. -/
def Undone (now : ℤ) (srv srv' : Server) : Prop :=
  (∀ k, (srv'.store.live now).get? k = (srv.store.live now).get? k) ∧
    Unsent srv.master srv'.master

/-- The command would leave nothing behind on this server, and its own record fails or finds
no replica that takes it. -/
def Harmless (srv : Server) (now : ℤ) (argv : Command) (io : RecordIO) : Prop :=
  NoTrace now argv (srv.store.live now) (localVictims now argv srv.store) ∧
    (Raises srv.config io.fault ∨ NoTaker srv.master argv io.fails)

/-- A gate answers and leaves the keyspace and the replicas alone. -/
theorem undone_of_gated {srv : Server} {env : Env} {conn : ℕ} {argv : Command}
    (h : srv.noauth .client conn argv = true ∨ srv.misconf .client argv = true)
    (ios : List RecordIO) :
    Undone env.now srv (srv.execute env .client conn argv ios).server := by
  obtain ⟨m, hm⟩ := prepare_gated env h
  rw [execute_of_done hm]
  exact ⟨fun _ => rfl, fun _ => rfl⟩

/-- **When a `MISCONF` reply leaves the keyspace and the replicas as they were:** the AOF had
failed before the command came, or the command would leave nothing behind and no replica
was given it.
SOURCE: server.py:446-454, 499-529 -/
theorem misconf_consistent_iff {srv : Server} {env : Env} {conn : ℕ} {argv : Command}
    {ios : List RecordIO} (hrole : srv.config.isReplica = false) (hw : isWrite argv = true)
    (hmis : IsMisconf (srv.execute env .client conn argv ios).reply) :
    Undone env.now srv (srv.execute env .client conn argv ios).server ↔
      srv.aof.failure ≠ none ∨ Harmless srv env.now argv (ios.headD {}) := by
  have hauth : srv.noauth .client conn argv = false := by
    by_contra hno
    rw [Bool.not_eq_false] at hno
    have hp : srv.prepare env .client conn argv =
        srv.fail "NOAUTH Authentication required.".toList := by
      unfold Server.prepare
      rw [if_pos hno]
    rw [execute_of_done hp] at hmis
    exact not_misconf_of_head rfl (Or.inr (Or.inr (Or.inr rfl))) hmis
  cases hgate : srv.misconf .client argv with
  | true =>
    have hfail : srv.aof.failure ≠ none := by
      intro hnone
      simp [Server.misconf, AofLog.healthy, hnone] at hgate
    exact ⟨fun _ => Or.inl hfail, fun _ => undone_of_gated (Or.inr hgate) ios⟩
  | false =>
    have hout := prepare_write env hw
      ⟨hauth, hgate, by rw [hrole]; rfl⟩
    generalize hr : srv.prepare env .client conn argv = r at hout
    cases hout with
    | refused m heff herr hent =>
      rw [execute_of_done hr] at hmis
      obtain ⟨c, rest, hm, hc⟩ := writeHandler_error herr
      exact absurd hmis (not_misconf_of_head hm (hc.imp_right Or.inl))
    | oom d s heff hl =>
      rw [execute_of_done hr] at hmis
      exact absurd hmis (not_misconf_of_head rfl (Or.inr (Or.inr (Or.inl rfl))))
    | accepted d evicted v s heff hl =>
      have hhooks : srv.hooks .client argv evicted v =
          .records (argv :: evicted.map Server.evictionRecord) true (encodeValue v) := by
        simp [Server.hooks, hw, hrole, Flags.client]
      rw [hhooks] at hr
      obtain ⟨hent, hev, -⟩ := accepted_spec hw heff hl
      have hlive : s.live env.now = s.entries := by
        apply live_of_fresh
        rw [hent]
        exact (handled_spec hw heff).2.2.eraseMany evicted
      have hvictims : localVictims env.now argv srv.store = evicted := by
        rw [localVictims, hl]
        rfl
      have hx : (srv.execute env .client conn argv ios).server =
          (Server.commitAll true (argv :: evicted.map Server.evictionRecord) ios
            { srv with store := s }).2.2 ∧
          ((Server.commitAll true (argv :: evicted.map Server.evictionRecord) ios
            { srv with store := s }).1 = none →
              (srv.execute env .client conn argv ios).reply = some (encodeValue v)) := by
        unfold Server.execute
        rw [hr]
        dsimp only
        rcases Server.commitAll true (argv :: evicted.map Server.evictionRecord) ios
          { srv with store := s } with ⟨o, committed, srv''⟩
        cases o with
        | none => exact ⟨rfl, fun _ => rfl⟩
        | some t => exact ⟨rfl, fun h => by cases h⟩
      have hopen : ¬ (!srv.config.aofEnabled || !srv.aof.opened) = true := by
        intro hoff
        rw [hx.2 (commitAll_of_off true _ ios { srv with store := s } hoff)] at hmis
        exact not_misconf_of_value v hmis
      simp only [Bool.or_eq_true, Bool.not_eq_true', not_or, Bool.not_eq_false] at hopen
      have hhealthy : srv.aof.failure = none := by
        cases hf : srv.aof.failure with
        | none => rfl
        | some t => simp [Server.misconf, AofLog.healthy, hf, hw, hopen.1, Flags.client] at hgate
      have hstore : (srv.execute env .client conn argv ios).server.store = s := by
        rw [store_execute, hr]
      have hsent := unsent_commitAll_iff { srv with store := s } hopen.1 hopen.2
        hhealthy argv (evicted.map Server.evictionRecord) ios
      rw [← hx.1] at hsent
      rw [Undone, Harmless, hstore, hlive, hent, hvictims, restored_iff heff hev]
      simp only [hhealthy, ne_eq, not_true_eq_false, false_or]
      exact and_congr_right fun _ => hsent

/-- A server whose AOF writes every record at once and syncs it. -/
def alwaysConfig : Config := { aofEnabled := true, aofFsync := .always }

/-- A record that the file system refuses. -/
def refusedRecord : RecordIO := { fault := .writeFails "No space left on device".toList }

/-- The deletion of a key that is not there can fail without harm. -/
theorem misconf_consistent_absentKey :
    Undone 0 (started alwaysConfig default)
      ((started alwaysConfig default).execute {} .client 0 [ascii "DEL", ascii "k"]
        [refusedRecord]).server :=
  (@misconf_consistent_iff (started alwaysConfig default) {} 0 _ _ rfl (by decide)
    ⟨_, rfl, by decide⟩).mpr
    (Or.inr ⟨Or.inl ⟨by decide, .del [ascii "k"], by decide,
      fun k _ => rfl⟩, Or.inl trivial⟩)

/-- A SET whose record the file system refuses is answered with `MISCONF`, and the key is
there. -/
theorem misconf_consistent_newKey :
    IsMisconf ((started alwaysConfig default).execute {} .client 0
      [ascii "SET", ascii "k", ascii "v"] [refusedRecord]).reply ∧
    ((started alwaysConfig default).store.live 0).get? (ascii "k") = none ∧
    (((started alwaysConfig default).execute {} .client 0
      [ascii "SET", ascii "k", ascii "v"] [refusedRecord]).server.store.live 0).get?
        (ascii "k") = some { type := .string, value := .bytes (ascii "v"), expireAtMs := none } :=
  ⟨⟨_, rfl, by decide⟩, by decide, by decide⟩

end ByoRedis.Analysis
