import ByoRedis.Analysis.RdbRoundTrip
import ByoRedis.Analysis.ReplicationSteps
import ByoRedis.Lib.Trace
import Mathlib.Algebra.Order.Field.Power
import Mathlib.Tactic.Linarith
import Mathlib.Tactic.NormNum

/-!
# Which keyspaces can be saved

A deadline is an integer of any size in the store, a signed 64-bit number in a snapshot, and
a quotient of two integers in a rewrite. `exists_dumpRdbEntries` and
`exists_buildRewritePayload` say what a keyspace needs to be written out. EXPIRE and SET with
EX check no upper bound, so a client can store a deadline for which neither works.
`saveable` says that this is the only way: as long as no command sets a deadline of 2^63 ms
or more, every keyspace that a run reaches can be saved.
-/

set_option autoImplicit false

namespace ByoRedis.Analysis

open ByoRedis.Model ByoRedis.Lib ByoRedis.Interface

/-! ## Seconds in a rewrite -/

/-- Rounding adds at most one. -/
theorem roundHalfEven_le (x : ℚ) : (roundHalfEven x : ℚ) ≤ x + 1 := by
  have hfloor : (⌊x⌋ : ℚ) ≤ x := Int.floor_le x
  unfold roundHalfEven
  dsimp only
  split_ifs <;> push_cast <;> linarith

/-- Python's `/` by 1000 overflows on no number below 2^1030.
SOURCE: persistence/aof.py:343 -/
theorem exists_trueDivide {n : ℕ} (hpos : 0 < n) (h : n < 2 ^ 1030) :
    ∃ x, trueDivide n 1000 = some x := by
  have hlog : (2 : ℚ) ^ ((Nat.log2 n : ℕ) : ℤ) ≤ n := by
    rw [zpow_natCast]
    exact_mod_cast Nat.log2_self_le (by omega)
  have hn : (n : ℚ) < 2 ^ 1030 := by exact_mod_cast h
  unfold trueDivide
  dsimp only
  set q : ℚ := (n : ℚ) / (1000 : ℕ) with hq
  set e0 : ℤ := (Nat.log2 n : ℤ) - (Nat.log2 1000 : ℕ) - 52 with he0
  set e : ℤ := if q / 2 ^ e0 < 2 ^ 52 then e0 - 1 else e0 with he
  have hle : e ≤ e0 := by
    rw [he]
    split_ifs <;> omega
  have hpow : (0 : ℚ) < 2 ^ e := zpow_pos (by norm_num) e
  -- one unit in the last place
  have hunit : (2 : ℚ) ^ e ≤ n / 2 ^ 61 := by
    have h61 : e0 = (Nat.log2 n : ℤ) - 61 := by
      rw [he0, show Nat.log2 1000 = 9 from by decide]
      norm_num
      omega
    calc (2 : ℚ) ^ e ≤ 2 ^ e0 := zpow_le_zpow_right₀ (by norm_num) hle
      _ = 2 ^ ((Nat.log2 n : ℕ) : ℤ) / 2 ^ 61 := by
        rw [h61, zpow_sub₀ (by norm_num)]
        norm_num
      _ ≤ n / 2 ^ 61 := by gcongr
  have hvalue : (roundHalfEven (q / 2 ^ e) : ℚ) * 2 ^ e ≤ q + n / 2 ^ 61 := by
    calc (roundHalfEven (q / 2 ^ e) : ℚ) * 2 ^ e ≤ (q / 2 ^ e + 1) * 2 ^ e := by
          gcongr
          exact roundHalfEven_le _
      _ = q + 2 ^ e := by rw [add_mul, div_mul_cancel₀ _ hpow.ne', one_mul]
      _ ≤ q + n / 2 ^ 61 := by gcongr
  have hsum : q + n / 2 ^ 61 ≤ n / 500 := by
    have hnonneg : (0 : ℚ) ≤ n := Nat.cast_nonneg n
    rw [hq]
    push_cast
    linarith
  have hbound : (n : ℚ) / 500 < 2 ^ 1024 := by
    rw [div_lt_iff₀ (by norm_num)]
    calc (n : ℚ) < 2 ^ 1030 := hn
      _ = 2 ^ 1024 * 2 ^ 6 := by rw [← pow_add]
      _ < 2 ^ 1024 * 500 := by gcongr; norm_num
  exact ⟨_, if_pos (hvalue.trans_lt (hsum.trans_lt hbound))⟩

/-- What `int(time.time() * 1000)` can be: the integer part of a double. -/
def ClockValue (now : ℤ) : Prop := |now| < 2 ^ 1024

/-- SOURCE: persistence/aof.py:340-344 -/
theorem exists_deadlineCommand {now : ℤ} (hnow : ClockValue now) (key : Bytes)
    {entry : KeyEntry} (hd : StorableDeadline entry) :
    ∃ cs, deadlineCommand now key entry = some cs := by
  unfold deadlineCommand
  cases hx : entry.expireAtMs with
  | none => exact ⟨[], rfl⟩
  | some d =>
    dsimp only
    by_cases hpos : 0 < d - now
    · have hrange := hd d hx
      have hlow : -now < 2 ^ 1024 := neg_lt.mp (abs_lt.mp hnow).1
      have hnat : (d - now).toNat < 2 ^ 1030 := by
        zify
        rw [Int.toNat_of_nonneg hpos.le]
        calc d - now = d + -now := sub_eq_add_neg d now
          _ < 2 ^ 63 + 2 ^ 1024 := add_lt_add hrange.2 hlow
          _ ≤ 2 ^ 1024 + 2 ^ 1024 := by
            apply add_le_add _ le_rfl
            exact pow_le_pow_right₀ (by decide) (by decide)
          _ = 2 ^ 1025 := by rw [← two_mul, ← pow_succ']
          _ ≤ 2 ^ 1030 := pow_le_pow_right₀ (by decide) (by decide)
      obtain ⟨x, hquotient⟩ := exists_trueDivide (by omega) hnat
      rw [if_pos hpos, rewriteSeconds, hquotient]
      exact ⟨_, rfl⟩
    · rw [if_neg hpos]
      exact ⟨[], rfl⟩

/-- **A keyspace with 64-bit deadlines can be rewritten.**
SOURCE: persistence/aof.py:320-345 -/
theorem exists_buildRewritePayload {now : ℤ} (hnow : ClockValue now) {entries : Entries}
    (hd : ∀ e ∈ entries.entries, StorableDeadline e.2) :
    ∃ payload, buildRewritePayload now entries = some payload := by
  obtain ⟨cs, hcs⟩ : ∃ cs, entries.entries.mapM (fun e =>
      (deadlineCommand now e.1 e.2).map fun d => rebuildCommand e.1 e.2 ++ d) = some cs := by
    refine exists_mapM fun e he => ?_
    obtain ⟨d, hdead⟩ := exists_deadlineCommand hnow e.1 (hd e he)
    exact ⟨_, by rw [hdead]; rfl⟩
  exact ⟨_, by rw [buildRewritePayload, rewriteCommands, hcs]; rfl⟩

/-! ## What a step does to the entries -/

variable {sys sys' : System} {es : List Event}

/-- What a client's command does to the store, on a master or a replica: it looks at it, or
it is a write that is accepted.
SOURCE: server.py:409-498 -/
theorem command_store {conn : ℕ} {argv : Command} {env : Env}
    (h : sys.command conn argv env = some (sys', es)) :
    sys'.now = sys.now ∧ (Looks sys.now sys.server.store sys'.server.store ∨
      ∃ d evicted, isWrite argv = true ∧
        effect sys.now argv (sys.server.store.live sys.now) = some d ∧
        (handled sys.now argv sys.server.store).enforceMemoryLimit sys.now =
          (some evicted, sys'.server.store)) := by
  cases hrole : sys.server.config.isReplica with
  | false =>
    obtain ⟨-, hstep⟩ := command_cases hrole h
    cases hstep with
    | answered srv reply hframe => exact ⟨rfl, Or.inl hframe.store⟩
    | accepted d evicted s reply hfree hw heff hlim =>
      exact ⟨rfl, Or.inr ⟨d, evicted, hw, heff, hlim⟩⟩
  | true =>
    have hdone : ∃ reply srv', sys.server.prepare { env with now := sys.now } .client conn argv =
        (.done reply, srv') ∧ Looks sys.now sys.server.store srv'.store := by
      cases hw : isWrite argv with
      | false =>
        obtain ⟨reply, srv', hp, hframe⟩ :=
          prepare_read sys.server { env with now := sys.now } .client conn hw
        exact ⟨reply, srv', hp, hframe.store⟩
      | true =>
        have hro : (sys.server.config.isReplica && !Flags.client.isReplicaClient &&
            !Flags.client.isLoading) = true := by
          rw [hrole]
          rfl
        obtain ⟨m, s, hp, hlooks⟩ := prepare_readonly { env with now := sys.now } hw hro
        exact ⟨_, _, hp, hlooks⟩
    obtain ⟨reply, srv', hp, hlooks⟩ := hdone
    unfold System.command at h
    split_ifs at h
    split at h
    · cases h
    · cases h
    · cases h
    · rw [hp] at h
      cases h
      exact ⟨rfl, Or.inl hlooks⟩

/-! ## Deadlines along a run -/

/-- The deadline that a write gives to a key of the live entries `d`, if it gives one, fits
the 64-bit field of a snapshot. -/
def DeadlineFits (now : ℤ) (d : Entries) : Write → Prop
  | .set _ _ (some n) => -2 ^ 63 ≤ now + n * 1000 ∧ now + n * 1000 < 2 ^ 63
  | .expire key n => (d.get? key).isSome → 0 < n →
    -2 ^ 63 ≤ now + n * 1000 ∧ now + n * 1000 < 2 ^ 63
  | _ => True

/-- The condition on a step: a command that sets a deadline sets one that fits. -/
def Modest (sys : System) : Action → Prop
  | .command _ argv _ => ∀ w, Write.ofCommand argv = some w →
    DeadlineFits sys.now (sys.server.store.live sys.now) w
  | _ => True

/-- Every live entry has a deadline that a snapshot can hold. -/
def Saveable (sys : System) : Prop :=
  ∀ e ∈ (sys.server.store.live sys.now).entries, StorableDeadline e.2

/-- What a write stores keeps the bound.
SOURCE: storage/store.py:97-203 -/
theorem storable_of_store {now : ℤ} {w : Write} {d : Entries} {key : Bytes} {e : KeyEntry}
    (hw : DeadlineFits now d w) (hkey : key ∈ w.keys)
    (hold : ∀ f, d.get? key = some f → StorableDeadline f)
    (hfuture : FutureDeadline w) (h : w.change now (d.get? key) = .store e) :
    StorableDeadline e := by
  intro x hx
  rcases deadline_of_store hfuture h with ⟨x', hx', -, httl⟩ | hnone | ⟨f, hf, hsame⟩
  · -- a new deadline: the command is a SET with EX or an EXPIRE of a live key
    cases w with
    | set key' value ex =>
      cases ex with
      | none => exact absurd trivial httl
      | some n =>
        cases h
        cases hx
        exact hw
    | expire key' n =>
      rw [List.mem_singleton.mp hkey] at h
      cases hget : d.get? key' with
      | none =>
        rw [hget] at h
        cases h
      | some f =>
        rw [hget] at h
        simp only [Write.change] at h
        split_ifs at h with hn
        cases h
        cases hx
        exact hw (by rw [hget]; rfl) (by omega)
    | lpush key' elements => exact absurd trivial httl
    | rpop key' => exact absurd trivial httl
    | hset key' items => exact absurd trivial httl
    | del keys => exact absurd trivial httl
  · rw [hnone] at hx
    cases hx
  · exact hold f hf x (hsame ▸ hx)

/-- An accepted command keeps the bound. -/
theorem storable_of_effect {now : ℤ} {argv : Command} {d d' : Entries}
    (hw : ∀ w, Write.ofCommand argv = some w → DeadlineFits now d w)
    (hd : ∀ e ∈ d.entries, StorableDeadline e.2) (h : effect now argv d = some d') :
    ∀ e ∈ d'.entries, StorableDeadline e.2 := by
  obtain ⟨w, hof, heff⟩ := effect_eq_some h
  intro e he
  have hget := (d'.get?_eq_some_iff e.1 e.2).mpr he
  have hold : ∀ f, d.get? e.1 = some f → StorableDeadline f := fun f hf =>
    hd (e.1, f) ((d.get?_eq_some_iff e.1 f).mp hf)
  rcases get?_effect_cases heff hget with hsame | ⟨hkey, hstore⟩
  · exact hold e.2 hsame
  · exact storable_of_store (hw w hof) hkey hold (ofCommand_future hof) hstore

/-- What is live later was live before. -/
theorem mem_live_of_le {s : Store} {t t' : ℤ} (h : t ≤ t') {e : Bytes × KeyEntry}
    (he : e ∈ (s.live t').entries) : e ∈ (s.live t).entries := by
  have hlive := liveAt_liveAt h s.entries
  have hmem : e ∈ (liveAt t' (liveAt t s.entries)).entries := by
    rw [hlive]
    exact he
  rw [liveAt, Dict.entries_filter] at hmem
  exact (List.mem_filter.mp hmem).1

/-- What holds of every live entry holds after an action, if it does after an accepted
command. -/
theorem forall_live_step {P : Bytes × KeyEntry → Prop} {a : Action}
    (h : ∀ e ∈ (sys.server.store.live sys.now).entries, P e)
    (hcommand : ∀ conn argv env, a = .command conn argv env → ∀ d,
      effect sys.now argv (sys.server.store.live sys.now) = some d → ∀ e ∈ d.entries, P e)
    (hs : sys.step a = some (sys', es)) :
    ∀ e ∈ (sys'.server.store.live sys'.now).entries, P e := by
  have hlooks : sys.now ≤ sys'.now → Looks sys.now sys.server.store sys'.server.store →
      ∀ e ∈ (sys'.server.store.live sys'.now).entries, P e := by
    intro hnow hl e he
    apply h e
    rw [← hl.live]
    exact mem_live_of_le hnow he
  by_cases ha : ∃ conn argv env, a = .command conn argv env
  · obtain ⟨conn, argv, env, rfl⟩ := ha
    obtain ⟨hnow, hl | ⟨d, evicted, hw, heff, hlim⟩⟩ := command_store hs
    · exact hlooks hnow.ge hl
    · obtain ⟨hent, -, -⟩ := accepted_spec hw heff hlim
      intro e he
      apply hcommand conn argv env rfl d heff e
      have hmem : e ∈ sys'.server.store.entries.entries := by
        rw [Store.live, Dict.entries_filter] at he
        exact (List.mem_filter.mp he).1
      rw [hent, Dict.eraseMany_eq_filter, Dict.entries_filter] at hmem
      exact (List.mem_filter.mp hmem).1
  · obtain ⟨hnow, hl⟩ := looks_of_step (fun conn argv env heq => ha ⟨conn, argv, env, heq⟩) hs
    exact hlooks hnow hl

/-- **The bound survives every action.** -/
theorem Saveable.step {a : Action} (h : Saveable sys) (hok : Modest sys a)
    (hs : sys.step a = some (sys', es)) : Saveable sys' := by
  refine forall_live_step h ?_ hs
  rintro conn argv env rfl d heff
  exact storable_of_effect hok h heff

/-- **Every keyspace a run reaches can be saved**, in a run from the first start in which no
command sets a deadline beyond the 64-bit field: at every later time the snapshot has a dump
and a rewrite, whatever the clock of the rewrite reads. Lengths and counts are assumed to be
below 2^32.
SOURCE: storage/store.py:97-139, persistence/rdb.py:79-113, persistence/aof.py:320-345 -/
theorem saveable {cfg : Config} {replid : Replid} {t₀ : ℤ} {evs : List Event} {sys : System}
    (hrun : Runs System.step Modest { server := started cfg replid, now := t₀ } evs sys)
    {t t' : ℤ} (ht : sys.now ≤ t) (ht' : ClockValue t')
    (hsized : Sized (sys.server.store.snapshot t).1) :
    (∃ rdb, dumpRdbEntries (sys.server.store.snapshot t).1 = some rdb) ∧
      ∃ payload, buildRewritePayload t' (sys.server.store.snapshot t).1 = some payload := by
  have hsave : Saveable sys := by
    refine hrun.invariant (I := fun _ s => Saveable s) ?_ fun hs hok hstep => hs.step hok hstep
    intro e he
    cases he
  have hd : ∀ e ∈ (sys.server.store.snapshot t).1.entries, StorableDeadline e.2 :=
    fun e he => hsave e (mem_live_of_le ht he)
  exact ⟨exists_dumpRdbEntries hsized hd, exists_buildRewritePayload ht' hd⟩

/-- A server at its first start. -/
def freshSystem : System := { server := started {} default, now := 0 }

/-- A client's SET with EX on it. -/
def setEx (seconds : ℕ) : Action :=
  .command 1 [ascii "SET", ascii "k", ascii "v", ascii "EX", natBytes seconds] {}

/-- The entry it leaves. -/
def setExEntry (seconds : ℕ) : Entries :=
  Dict.empty.insert (ascii "k")
    { type := .string, value := .bytes (ascii "v"), expireAtMs := some (seconds * 1000) }

/-- What a snapshot takes after the SET. -/
theorem step_setEx {seconds : ℕ}
    (h : (freshSystem.step (setEx seconds)).map
      (fun r => (r.1.now, (r.1.server.store.snapshot 0).1)) = some (0, setExEntry seconds)) :
    ∃ es sys, freshSystem.step (setEx seconds) = some (sys, es) ∧ sys.now = 0 ∧
      (sys.server.store.snapshot 0).1 = setExEntry seconds := by
  cases hs : freshSystem.step (setEx seconds) with
  | none =>
    rw [hs] at h
    cases h
  | some r =>
    rw [hs] at h
    obtain ⟨hnow, hlive⟩ := Prod.mk.inj (Option.some.inj h)
    exact ⟨r.2, r.1, rfl, hnow, hlive⟩

/-- A key with ten seconds to live can be saved and rewritten. -/
theorem saveable_tenSeconds :
    ∃ evs sys, Runs System.step Modest freshSystem evs sys ∧
      (sys.server.store.snapshot 0).1 = setExEntry 10 ∧
      (∃ rdb, dumpRdbEntries (sys.server.store.snapshot 0).1 = some rdb) ∧
      ∃ payload, buildRewritePayload 0 (sys.server.store.snapshot 0).1 = some payload := by
  obtain ⟨es, sys, hs, hnow, hlive⟩ := @step_setEx 10 (by decide +kernel)
  have hmodest : Modest freshSystem (setEx 10) := by
    intro w hw
    have hof : Write.ofCommand [ascii "SET", ascii "k", ascii "v", ascii "EX", natBytes 10] =
        some (.set (ascii "k") (ascii "v") (some 10)) := by decide +kernel
    rw [hof] at hw
    cases hw
    exact ⟨by decide, by decide⟩
  have hrun : Runs System.step Modest freshSystem ([] ++ es) sys := .step .start hmodest hs
  have hsized : Sized (sys.server.store.snapshot 0).1 := by
    rw [hlive]
    exact ⟨by decide, by decide, by decide⟩
  exact ⟨_, _, hrun, hlive, saveable hrun hnow.le (by norm_num [ClockValue]) hsized⟩

/-- A SET with the greatest signed 64-bit number of seconds is accepted, and from then on the
keyspace has no dump. -/
theorem saveable_maxSeconds :
    ∃ es sys, freshSystem.step (setEx 9223372036854775807) = some (sys, es) ∧
      Sized (sys.server.store.snapshot 0).1 ∧
      dumpRdbEntries (sys.server.store.snapshot 0).1 = none := by
  obtain ⟨es, sys, hs, -, hlive⟩ := @step_setEx 9223372036854775807 (by decide +kernel)
  refine ⟨es, sys, hs, ?_⟩
  rw [hlive]
  exact ⟨⟨by decide, by decide, by decide⟩, by decide +kernel⟩

end ByoRedis.Analysis
