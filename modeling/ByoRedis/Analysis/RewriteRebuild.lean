import ByoRedis.Analysis.LiveAof
import ByoRedis.Analysis.ParserLimits
import ByoRedis.Analysis.Saving
import ByoRedis.Analysis.StoreInvariant

/-!
# What a rewritten log is read back to

`_build_rewrite_payload` writes a keyspace out as commands, one for the value of a key and
an EXPIRE for its deadline, in whole seconds from the time of the replay. `replay_rewrite` is
what the handlers make of these commands. Read back and applied, they rebuild the keyspace:
values and orders as they were, and between nothing and a second more to live than at the
rewrite (`rewrite_rebuilds_iff`). The one thing in the way is the bulk length of the
reader's parser, which an argument sent as a simple string may exceed.
-/

set_option autoImplicit false

namespace ByoRedis.Analysis

open ByoRedis.Model ByoRedis.Lib ByoRedis.Interface

/-! ## Whole seconds -/

/-- Rounding takes off at most a half. -/
theorem le_roundHalfEven (x : ℚ) : x - 1 / 2 ≤ roundHalfEven x := by
  have hlt := Int.lt_floor_add_one x
  unfold roundHalfEven
  dsimp only
  split_ifs <;> push_cast <;> linarith

/-- Rounding does not go beyond an integer. -/
theorem roundHalfEven_le_of_le {x : ℚ} {m : ℤ} (h : x ≤ m) : roundHalfEven x ≤ m := by
  have hfloor : ⌊x⌋ ≤ m := by
    have := Int.floor_le_floor h
    rwa [Int.floor_intCast] at this
  have hsucc : ∀ r : ℚ, r = x - ⌊x⌋ → 0 < r → ⌊x⌋ + 1 ≤ m := by
    intro r hr hpos
    have hlt : (⌊x⌋ : ℚ) < m := by linarith
    exact Int.add_one_le_of_lt (by exact_mod_cast hlt)
  unfold roundHalfEven
  dsimp only
  split_ifs with h1 h2 h3
  · exact hfloor
  · exact hsucc _ rfl (by linarith)
  · exact hfloor
  · exact hsucc _ rfl (by linarith)

/-- Below 2^53 the rounding of the quotient does not move it across an integer, so its
ceiling is the exact one.
SOURCE: persistence/aof.py:343 -/
theorem ceil_trueDivide {n : ℕ} {c : ℤ} {x : ℚ} (h : n < 2 ^ 53)
    (hlow : 1000 * (c - 1) < n) (hhigh : (n : ℤ) ≤ 1000 * c)
    (hx : trueDivide n 1000 = some x) : ⌈x⌉ = c := by
  have hlog : Nat.log2 n ≤ 52 := by
    by_cases hn : n = 0
    · rw [hn]
      decide
    · have := (Nat.log2_lt hn).mpr h
      omega
  unfold trueDivide at hx
  dsimp only at hx
  set q : ℚ := (n : ℚ) / (1000 : ℕ) with hq
  set e0 : ℤ := (Nat.log2 n : ℤ) - (Nat.log2 1000 : ℕ) - 52 with he0
  set e : ℤ := if q / 2 ^ e0 < 2 ^ 52 then e0 - 1 else e0 with he
  have hexp : e ≤ -9 := by
    have h9 : Nat.log2 1000 = 9 := by decide
    rw [h9] at he0
    have : e ≤ e0 := by
      rw [he]
      split_ifs <;> omega
    omega
  split_ifs at hx with hlt
  cases hx
  obtain ⟨k, hk⟩ : ∃ k : ℕ, e = -(k : ℤ) := ⟨(-e).toNat, by omega⟩
  have hpow : (2 : ℚ) ^ e = (2 ^ k)⁻¹ := by rw [hk, zpow_neg, zpow_natCast]
  have hbig : (512 : ℚ) ≤ 2 ^ k := by
    calc (512 : ℚ) = 2 ^ 9 := by norm_num
      _ ≤ 2 ^ k := pow_le_pow_right₀ (by norm_num) (by omega)
  have hpos : (0 : ℚ) < 2 ^ k := by positivity
  have hqc : q ≤ c := by
    rw [hq, div_le_iff₀ (by norm_num)]
    push_cast
    have : (n : ℚ) ≤ 1000 * c := by exact_mod_cast hhigh
    linarith
  have hcq : (c : ℚ) - 1 + 1 / 1000 ≤ q := by
    have hstep : 1000 * (c - 1) + 1 ≤ (n : ℤ) := hlow
    have : (1000 : ℚ) * (c - 1) + 1 ≤ n := by exact_mod_cast hstep
    rw [hq, le_div_iff₀ (by norm_num)]
    push_cast
    linarith
  rw [hpow, div_inv_eq_mul, Int.ceil_eq_iff, ← div_eq_mul_inv]
  constructor
  · have hround := le_roundHalfEven (q * 2 ^ k)
    rw [lt_div_iff₀ hpos]
    nlinarith
  · have hround : roundHalfEven (q * 2 ^ k) ≤ c * 2 ^ k := by
      apply roundHalfEven_le_of_le
      push_cast
      gcongr
    rw [div_le_iff₀ hpos]
    exact_mod_cast hround

/-- The seconds of a rewrite: enough for the time that is left, by less than one.
SOURCE: persistence/aof.py:343 -/
theorem rewriteSeconds_exact {r : ℤ} (hpos : 0 < r) (h : r < 2 ^ 53) :
    ∃ s, rewriteSeconds r = some s ∧ r ≤ s * 1000 ∧ s * 1000 < r + 1000 := by
  obtain ⟨x, hx⟩ := exists_trueDivide (n := r.toNat) (by omega) (by omega)
  have hceil : ⌈x⌉ = (r + 999) / 1000 := by
    apply ceil_trueDivide (by omega) _ _ hx
    · omega
    · omega
  refine ⟨max 1 ⌈x⌉, by rw [rewriteSeconds, hx]; rfl, ?_, ?_⟩
  · rw [hceil]
    omega
  · rw [hceil]
    omega

/-- A quotient that is a float is below 2 to the 1024. -/
theorem trueDivide_lt {num den : ℕ} {x : ℚ} (h : trueDivide num den = some x) : x < 2 ^ 1024 := by
  unfold trueDivide at h
  obtain ⟨hlt, hx⟩ := Option.ite_none_right_eq_some.mp h
  rw [← Option.some.inj hx]
  exact hlt

/-- However far the deadline is, the seconds are positive and have few digits.
SOURCE: persistence/aof.py:343 -/
theorem rewriteSeconds_bounds {r s : ℤ} (h : rewriteSeconds r = some s) : 0 < s ∧ s ≤ 2 ^ 1024 := by
  obtain ⟨x, hx, rfl⟩ := Option.map_eq_some_iff.mp h
  have hceil : ⌈x⌉ ≤ 2 ^ 1024 := by
    apply Int.ceil_le.mpr
    rw [Int.cast_pow]
    exact (trueDivide_lt hx).le
  exact ⟨zero_lt_one.trans_le (le_max_left _ _), max_le (one_le_pow₀ (by decide)) hceil⟩

/-! ## The commands of a rewrite -/

variable {t₁ t₂ : ℤ} {d : Entries} {cs : List Command}

/-- The commands of one key. -/
def keyCommands (t₁ : ℤ) (p : Bytes × KeyEntry) : List Command :=
  rebuildCommand p.1 p.2 ++ (deadlineCommand t₁ p.1 p.2).getD []

/-- SOURCE: persistence/aof.py:320-345 -/
theorem rewriteCommands_eq (h : rewriteCommands t₁ d = some cs) :
    cs = d.entries.flatMap (keyCommands t₁) ∧
      ∀ p ∈ d.entries, ∃ ds, deadlineCommand t₁ p.1 p.2 = some ds := by
  obtain ⟨css, hmap, rfl⟩ := Option.map_eq_some_iff.mp h
  rw [List.flatMap_def]
  clear h
  generalize d.entries = l at hmap
  induction l generalizing css with
  | nil =>
    cases hmap
    exact ⟨rfl, by simp⟩
  | cons p l ih =>
    rw [List.mapM_cons] at hmap
    obtain ⟨c, hc, hmap⟩ := Option.bind_eq_some_iff.mp hmap
    obtain ⟨rest, hrest, heq⟩ := Option.bind_eq_some_iff.mp hmap
    obtain ⟨ds, hds, rfl⟩ := Option.map_eq_some_iff.mp hc
    cases heq
    obtain ⟨hflat, hall⟩ := ih rest hrest
    refine ⟨?_, ?_⟩
    · rw [List.flatten_cons, hflat, List.map_cons, List.flatten_cons, keyCommands, hds]
      rfl
    · intro q hq
      rcases List.mem_cons.mp hq with rfl | hq
      · exact ⟨ds, hds⟩
      · exact hall q hq

/-- A value that holds something has parts. -/
theorem valueParts_ne_nil {v : RedisValue} (h : Holding v) : valueParts v ≠ [] := by
  cases v with
  | bytes b => simp [valueParts]
  | deque items => exact h
  | dict mapping =>
    obtain ⟨p, l, hp⟩ := List.exists_cons_of_ne_nil h
    simp [valueParts, hp]

/-- The command for a value names the key and holds the parts of the value.
SOURCE: persistence/aof.py:325-339 -/
theorem rebuildCommand_shape (k : Bytes) {e : KeyEntry} (h : Holding e.value) :
    ∃ name args, rebuildCommand k e = [name :: k :: args] ∧ name.length ≤ 5 ∧
      args.Perm (valueParts e.value) := by
  cases hv : e.value with
  | bytes b =>
    refine ⟨ascii "SET", [b], ?_, by decide, List.Perm.refl _⟩
    rw [rebuildCommand, hv]
  | deque items =>
    rw [hv] at h
    have hempty : ¬ items.isEmpty = true := by simpa [Holding] using h
    refine ⟨ascii "LPUSH", items.reverse, ?_, by decide, List.reverse_perm items⟩
    rw [rebuildCommand, hv]
    simp [hempty]
  | dict mapping =>
    rw [hv] at h
    have hempty : ¬ mapping.entries.isEmpty = true := by simpa [Holding] using h
    refine ⟨ascii "HSET", _, ?_, by decide, List.Perm.refl _⟩
    rw [rebuildCommand, hv]
    simp [hempty, valueParts]

/-- A number below a power of ten has no more digits than the exponent. -/
theorem length_natBytes_le {n k : ℕ} (hk : 0 < k) (h : n < 10 ^ k) : (natBytes n).length ≤ k := by
  rw [natBytes, List.length_map, natText, Nat.length_toDigits_le_iff (by decide) hk]
  exact h

/-- The number of an EXPIRE of a rewrite is short and read back as it was. -/
theorem rewriteSeconds_text {r s : ℤ} (h : rewriteSeconds r = some s) :
    (intBytes s).length ≤ 1024 ∧ pyInt (intBytes s) = some s := by
  obtain ⟨hpos, hle⟩ := rewriteSeconds_bounds h
  have hlt : s.natAbs < 10 ^ 1024 := by
    have h2 : (s.natAbs : ℤ) ≤ ((2 ^ 1024 : ℕ) : ℤ) := by
      rw [Int.natAbs_of_nonneg hpos.le, Nat.cast_pow]
      exact hle
    have h10 : ∀ n : ℕ, 0 < n → 2 ^ n < 10 ^ n :=
      fun n hn => Nat.pow_lt_pow_left (by decide) (Nat.pos_iff_ne_zero.mp hn)
    exact (Int.ofNat_le.mp h2).trans_lt (h10 1024 (by decide))
  have htext := intBytes_of_nonneg (i := s) (by omega)
  refine ⟨?_, ?_⟩
  · rw [htext]
    exact length_natBytes_le (by decide) hlt
  · apply pyInt_intBytes
    exact (length_natBytes_le (by decide) hlt).trans (by decide)

/-- SOURCE: persistence/aof.py:340-344 -/
theorem deadlineCommand_cases {k : Bytes} {e : KeyEntry} {ds : List Command}
    (h : deadlineCommand t₁ k e = some ds) :
    (ds = [] ∧ ∀ x, e.expireAtMs = some x → x ≤ t₁) ∨
    ∃ x s, e.expireAtMs = some x ∧ t₁ < x ∧ rewriteSeconds (x - t₁) = some s ∧
      ds = [[ascii "EXPIRE", k, intBytes s]] := by
  unfold deadlineCommand at h
  cases hx : e.expireAtMs with
  | none =>
    rw [hx] at h
    cases h
    exact Or.inl ⟨rfl, by simp⟩
  | some x =>
    rw [hx] at h
    dsimp only at h
    split_ifs at h with hpos
    · obtain ⟨s, hs, rfl⟩ := Option.map_eq_some_iff.mp h
      exact Or.inr ⟨x, s, rfl, by omega, hs, rfl⟩
    · cases h
      refine Or.inl ⟨rfl, ?_⟩
      intro y hy
      cases hy
      omega

/-! ## Replaying them -/

/-- Commands applied by their handlers one after the other, all at time `now`. -/
def applyAll (now : ℤ) (cs : List Command) (srv : Server) : Server :=
  cs.foldl (fun srv argv => (srv.dispatch { now := now } .loading 0 argv).2) srv

/-- The meaning of a list of commands at one time; `none` when one of them is refused. -/
def effectAll (now : ℤ) (cs : List Command) (d : Entries) : Option Entries :=
  cs.foldlM (fun d c => effect now c d) d

/-- The handlers carry out the commands.
SOURCE: commands/registry.py:37-58 -/
theorem entries_applyAll {now : ℤ} {srv : Server} {r : Entries}
    (hw : ∀ c ∈ cs, isWrite c = true) (hf : Fresh now srv.store.entries)
    (h : effectAll now cs srv.store.entries = some r) :
    (applyAll now cs srv).store.entries = r := by
  induction cs generalizing srv with
  | nil =>
    cases h
    rfl
  | cons c cs ih =>
    rw [effectAll, List.foldlM_cons] at h
    obtain ⟨d', heff, hrest⟩ := Option.bind_eq_some_iff.mp h
    have hc := hw c (by simp)
    have hro : (srv.config.isReplica && !Flags.loading.isReplicaClient &&
        !Flags.loading.isLoading) = false := by
      simp [Flags.loading]
    obtain ⟨-, hcarries⟩ := writeHandler_carries hc hf
    rw [heff] at hcarries
    have hentries : (srv.dispatch { now := now } .loading 0 c).2.store.entries = d' := by
      rw [dispatch_write srv hc hro]
      exact hcarries.2
    refine ih (fun b hb => hw b (List.mem_cons_of_mem _ hb)) ?_ ?_
    · rw [hentries]
      exact hf.effect heff
    · rw [hentries]
      exact hrest

/-- So does `replay_aof` on a server without a memory limit.
SOURCE: persistence/aof.py:302-317, server.py:231-232 -/
theorem entries_replayAof_effectAll {now : ℤ} {srv : Server} {r : Entries}
    (hw : ∀ c ∈ cs, isWrite c = true) (h0 : srv.store.maxmemoryBytes = 0)
    (hf : Fresh now srv.store.entries) (h : effectAll now cs srv.store.entries = some r) :
    (Server.replayAof (fun _ => now) cs srv).store.entries = r := by
  induction cs generalizing srv with
  | nil =>
    cases h
    rfl
  | cons c cs ih =>
    rw [effectAll, List.foldlM_cons] at h
    obtain ⟨d', heff, hrest⟩ := Option.bind_eq_some_iff.mp h
    have hc := hw c (by simp)
    have hentries : (srv.replayOne now c).store.entries = d' := by
      have hent := @entries_execute_applied srv { now := now } .loading 0 c rfl hc h0 []
      dsimp only at hent
      rw [live_of_fresh hf, heff] at hent
      exact hent
    obtain ⟨-, -, -, hlim⟩ := @execute_applied srv { now := now } .loading 0 c rfl hc []
    refine ih (fun b hb => hw b (List.mem_cons_of_mem _ hb)) (hlim.1.trans h0) ?_ ?_
    · rw [hentries]
      exact hf.effect heff
    · rw [hentries]
      exact hrest

/-- The deadline that a replay at `t₂` gives to a key of a rewrite at `t₁`. -/
def revivedDeadline (t₁ t₂ : ℤ) : Option ℤ → Option ℤ
  | none => none
  | some x =>
    if 0 < x - t₁ then (rewriteSeconds (x - t₁)).map fun s => t₂ + s * 1000 else none

/-- The entry of such a key after the replay. -/
def revived (t₁ t₂ : ℤ) (e : KeyEntry) : KeyEntry :=
  e.withDeadline (revivedDeadline t₁ t₂ e.expireAtMs)

/-- The commands of one key store its entry with the revived deadline.
SOURCE: persistence/aof.py:324-344, storage/store.py:97-106 -/
theorem effectAll_keyCommands (t₂ : ℤ) {p : Bytes × KeyEntry} {ds : List Command}
    (hp : Holding p.2.value) (hds : deadlineCommand t₁ p.1 p.2 = some ds) (hk : p.1 ∉ d.keys) :
    effectAll t₂ (keyCommands t₁ p) d = some (d.insert p.1 (revived t₁ t₂ p.2)) ∧
      ∀ c ∈ keyCommands t₁ p, isWrite c = true := by
  obtain ⟨k, e⟩ := p
  obtain ⟨c, hc, hreb⟩ := rebuildCommand_spec (k := k) (e := e.withDeadline none) rfl
    (valueParts_ne_nil hp)
  have hcommands : keyCommands t₁ (k, e) = c :: ds := by
    rw [keyCommands, hds]
    show rebuildCommand k (e.withDeadline none) ++ ds = c :: ds
    rw [hc]
    rfl
  have hstore : effect t₂ c d = some (d.insert k (e.withDeadline none)) := by
    rw [effect_of_ttlFree hreb.loggable.ttlFree t₂ 0]
    exact hreb.stores d hk
  rw [hcommands]
  rcases deadlineCommand_cases hds with ⟨rfl, hpast⟩ | ⟨x, s, hx, hlt, hs, rfl⟩
  · have hnone : revivedDeadline t₁ t₂ e.expireAtMs = none := by
      cases hx : e.expireAtMs with
      | none => rfl
      | some x =>
        have := hpast x hx
        rw [revivedDeadline, if_neg (by omega)]
    refine ⟨?_, by simpa using hreb.loggable.write⟩
    rw [effectAll, List.foldlM_cons, hstore, revived, hnone]
    rfl
  · have hsome : revivedDeadline t₁ t₂ e.expireAtMs = some (t₂ + s * 1000) := by
      rw [hx, revivedDeadline, if_pos (by omega), hs]
      rfl
    obtain ⟨-, hparse⟩ := rewriteSeconds_text hs
    have hof : Write.ofCommand [ascii "EXPIRE", k, intBytes s] = some (.expire k s) := by
      show (pyInt (intBytes s)).map (Write.expire k) = _
      rw [hparse]
      rfl
    have hexpire : effect t₂ [ascii "EXPIRE", k, intBytes s] (d.insert k (e.withDeadline none)) =
        some (d.insert k (revived t₁ t₂ e)) := by
      have hpos : ¬ s ≤ 0 := not_le.mpr (rewriteSeconds_bounds hs).1
      have hchange : (Write.expire k s).change t₂ (some (e.withDeadline none)) =
          .store (revived t₁ t₂ e) := by
        rw [revived, hsome]
        exact if_neg hpos
      rw [effect, hof, Option.bind_some, Write.effect_single t₂ (w := .expire k s) rfl,
        Dict.get?_insert_self, hchange]
      exact congrArg some (Dict.insert_insert_of_notMem d _ _ hk)
    refine ⟨?_, ?_⟩
    · rw [effectAll, List.foldlM_cons, hstore]
      show effectAll t₂ [_] _ = _
      rw [effectAll, List.foldlM_cons, hexpire]
      rfl
    · intro b hb
      rcases List.mem_cons.mp hb with rfl | hb
      · exact hreb.loggable.write
      · rw [List.mem_singleton.mp hb]
        rfl

/-- The commands of entries with fresh, distinct keys store them one after the other. -/
theorem effectAll_rewrite (l : List (Bytes × KeyEntry)) (hl : (l.map Prod.fst).Nodup)
    (hd : ∀ p ∈ l, p.1 ∉ d.keys) (hold : ∀ p ∈ l, Holding p.2.value)
    (hds : ∀ p ∈ l, ∃ ds, deadlineCommand t₁ p.1 p.2 = some ds) :
    effectAll t₂ (l.flatMap (keyCommands t₁)) d =
      some (d.insertMany (l.map fun p => (p.1, revived t₁ t₂ p.2))) := by
  induction l generalizing d with
  | nil => rfl
  | cons p l ih =>
    obtain ⟨ds, hp⟩ := hds p (by simp)
    have hk := hd p (by simp)
    obtain ⟨hfirst, -⟩ := effectAll_keyCommands t₂ (hold p (by simp)) hp hk
    simp only [List.map_cons, List.nodup_cons] at hl
    rw [effectAll] at hfirst
    rw [List.flatMap_cons, effectAll, List.foldlM_append, hfirst, List.map_cons,
      Dict.insertMany_cons]
    refine ih hl.2 ?_ (fun q hq => hold q (List.mem_cons_of_mem _ hq))
      (fun q hq => hds q (List.mem_cons_of_mem _ hq))
    intro q hq
    rw [Dict.keys_insert_of_notMem d _ hk, List.mem_append, not_or, List.mem_singleton]
    refine ⟨hd q (List.mem_cons_of_mem _ hq), ?_⟩
    intro heq
    exact hl.1 (heq ▸ List.mem_map.mpr ⟨q, hq, rfl⟩)

/-- The commands of a rewrite are accepted one after the other, from an empty keyspace on.
SOURCE: persistence/aof.py:320-345 -/
theorem effectAll_rewriteCommands (t₂ : ℤ) (hold : ∀ p ∈ d.entries, Holding p.2.value)
    (h : rewriteCommands t₁ d = some cs) :
    (∀ c ∈ cs, isWrite c = true) ∧ effectAll t₂ cs Dict.empty =
      some (Dict.empty.insertMany (d.entries.map fun p => (p.1, revived t₁ t₂ p.2))) := by
  obtain ⟨rfl, hds⟩ := rewriteCommands_eq h
  refine ⟨?_, effectAll_rewrite d.entries d.nodup (by simp [Dict.keys]) hold hds⟩
  intro c hc
  obtain ⟨p, hp, hcp⟩ := List.mem_flatMap.mp hc
  obtain ⟨ds, hpd⟩ := hds p hp
  have hfresh : p.1 ∉ (Dict.empty : Entries).keys := by simp [Dict.keys]
  exact (effectAll_keyCommands t₂ (hold p hp) hpd hfresh).2 c hcp

/-- **What the commands of a rewrite are replayed to:** the same keys in the same order, with
the values they had and the deadlines that the rewrite kept.
SOURCE: persistence/aof.py:320-345 -/
theorem replay_rewrite (t₂ : ℤ) (hold : ∀ p ∈ d.entries, Holding p.2.value)
    (h : rewriteCommands t₁ d = some cs) {srv : Server} (hempty : srv.store.entries = Dict.empty) :
    (applyAll t₂ cs srv).store.entries.entries =
      d.entries.map fun p => (p.1, revived t₁ t₂ p.2) := by
  obtain ⟨hw, heff⟩ := effectAll_rewriteCommands t₂ hold h
  have hfresh : Fresh t₂ srv.store.entries := by
    rw [hempty]
    exact timeless_empty.fresh t₂
  rw [← hempty] at heff
  rw [entries_applyAll hw hfresh heff, hempty, Dict.entries_insertMany]
  · rfl
  · rw [List.map_map]
    exact d.nodup
  · simp [Dict.keys]

/-- `replay_aof` without a memory limit comes to the same.
SOURCE: persistence/aof.py:302-317, server.py:231-232 -/
theorem replayAof_rewrite (hold : ∀ p ∈ d.entries, Holding p.2.value)
    (h : rewriteCommands t₁ d = some cs) {srv : Server} (hempty : srv.store.entries = Dict.empty)
    (h0 : srv.store.maxmemoryBytes = 0) :
    (Server.replayAof (fun _ => t₂) cs srv).store.entries =
      (applyAll t₂ cs srv).store.entries := by
  obtain ⟨hw, heff⟩ := effectAll_rewriteCommands t₂ hold h
  have hfresh : Fresh t₂ srv.store.entries := by
    rw [hempty]
    exact timeless_empty.fresh t₂
  rw [← hempty] at heff
  rw [entries_applyAll hw hfresh heff, entries_replayAof_effectAll hw h0 hfresh heff]

/-! ## Reading them -/

/-- SOURCE: config.py:237-238 -/
theorem bulkLimit_of_accepted {cfg : Config} (h : cfg.accepted = true) :
    1024 ≤ cfg.protoMaxBulkLen := by
  simp only [Config.accepted, Bool.decide_and, Bool.and_eq_true, decide_eq_true_eq] at h
  exact h.2.1

/-- What a rewrite of an entry needs to be read back: no more parts than fit one command
beside its name and the key, and none longer than the limit. -/
structure Rewritable (limit : ℕ) (p : Bytes × KeyEntry) : Prop where
  key : p.1.length ≤ limit
  count : (valueParts p.2.value).length ≤ 1022
  parts : ∀ b ∈ valueParts p.2.value, b.length ≤ limit

/-- Which entries have commands that are read back.
SOURCE: persistence/aof.py:320-345, protocol/parser.py:98-104, 124-128 -/
theorem readable_keyCommands_iff {limit : ℕ} (hlimit : 1024 ≤ limit) {p : Bytes × KeyEntry}
    {ds : List Command} (hp : Holding p.2.value) (hds : deadlineCommand t₁ p.1 p.2 = some ds) :
    (∀ c ∈ keyCommands t₁ p, Readable limit c) ↔ Rewritable limit p := by
  obtain ⟨k, e⟩ := p
  obtain ⟨name, args, hshape, hname, hperm⟩ := rebuildCommand_shape k hp
  have hcommands : keyCommands t₁ (k, e) = (name :: k :: args) :: ds := by
    rw [keyCommands, hds, hshape]
    rfl
  rw [hcommands]
  constructor
  · intro h
    have hread := h _ List.mem_cons_self
    have hcount := hread.count
    rw [List.length_cons, List.length_cons, hperm.length_eq] at hcount
    refine ⟨hread.bulk k (by simp), by omega, fun b hb => hread.bulk b ?_⟩
    exact List.mem_cons_of_mem _ (List.mem_cons_of_mem _ (hperm.mem_iff.mpr hb))
  · intro h c hc
    rcases List.mem_cons.mp hc with rfl | hc
    · refine ⟨List.cons_ne_nil _ _, ?_, ?_⟩
      · have := h.count
        rw [List.length_cons, List.length_cons, hperm.length_eq]
        omega
      · intro a ha
        rcases List.mem_cons.mp ha with rfl | ha
        · omega
        · rcases List.mem_cons.mp ha with rfl | ha
          · exact h.key
          · exact h.parts a (hperm.mem_iff.mp ha)
    · obtain ⟨rfl, -⟩ | ⟨x, s, -, -, hs, rfl⟩ := deadlineCommand_cases hds
      · cases hc
      · rw [List.mem_singleton.mp hc]
        refine ⟨List.cons_ne_nil _ _, by simp, ?_⟩
        intro a ha
        simp only [List.mem_cons, List.not_mem_nil, or_false] at ha
        rcases ha with rfl | rfl | rfl
        · exact (show (ascii "EXPIRE").length ≤ 1024 by decide).trans hlimit
        · exact h.key
        · exact (rewriteSeconds_text hs).1.trans hlimit

/-- **Which rewrites are read back:** those of entries that are all rewritable, and then the
commands come back as they were emitted.
SOURCE: persistence/aof.py:250-299, 320-345 -/
theorem readCommands_rewrite_iff {limit maxFileBytes : ℕ} (hlimit : 1024 ≤ limit)
    (hold : ∀ p ∈ d.entries, Holding p.2.value) (h : rewriteCommands t₁ d = some cs)
    (hload : Loadable maxFileBytes (cs.flatMap encodeCommand)) {read : List Command} :
    readCommands limit maxFileBytes (some (cs.flatMap encodeCommand)) = .ok read ↔
      (∀ p ∈ d.entries, Rewritable limit p) ∧ read = cs := by
  obtain ⟨rfl, hds⟩ := rewriteCommands_eq h
  have hreadable : (∀ c ∈ d.entries.flatMap (keyCommands t₁), Readable limit c) ↔
      ∀ p ∈ d.entries, Rewritable limit p := by
    simp only [List.mem_flatMap]
    constructor
    · intro hall p hp
      obtain ⟨ds, hpd⟩ := hds p hp
      exact (readable_keyCommands_iff hlimit (hold p hp) hpd).mp fun c hc => hall c ⟨p, hp, hc⟩
    · rintro hall c ⟨p, hp, hc⟩
      obtain ⟨ds, hpd⟩ := hds p hp
      exact (readable_keyCommands_iff hlimit (hold p hp) hpd).mpr (hall p hp) c hc
  have hne : ∀ c ∈ d.entries.flatMap (keyCommands t₁), c ≠ [] := by
    rintro c hc rfl
    exact absurd ((effectAll_rewriteCommands t₁ hold h).1 [] hc) (by decide)
  rw [readCommands_iff hne hload, hreadable]

/-! ## The keyspace that comes back -/

/-- The keyspace `r` at time `t₂` is what `d` was at `t₁`, up to less than a second of
lifetime: the same keys in the same order, types and values, no deadline where there was
none, and where `x - t₁` was left, at least that and less than a second more. -/
structure SameUpToSecond (t₁ t₂ : ℤ) (d r : Entries) : Prop where
  keys : r.keys = d.keys
  values : ∀ k e, d.get? k = some e →
    ∃ e', r.get? k = some e' ∧ e'.type = e.type ∧ e'.value = e.value ∧
      (e.expireAtMs = none → e'.expireAtMs = none) ∧
      ∀ x, e.expireAtMs = some x →
        ∃ x', e'.expireAtMs = some x' ∧ x - t₁ ≤ x' - t₂ ∧ x' - t₂ < x - t₁ + 1000

/-- The payload of a rewrite of `d` at `t₁`, read back within any limit on files that admits
it and applied at any later time to an empty store, gives the keyspace. -/
def RebuiltByRewrite (maxBulkLen : ℕ) (t₁ : ℤ) (d : Entries) : Prop :=
  ∃ payload, buildRewritePayload t₁ d = some payload ∧
    ∀ maxFileBytes, payload.length ≤ maxFileBytes →
      ∃ read, readCommands maxBulkLen maxFileBytes (some payload) = .ok read ∧
        ∀ t₂, t₁ ≤ t₂ → ∀ srv : Server, srv.store.entries = Dict.empty →
          SameUpToSecond t₁ t₂ d (applyAll t₂ read srv).store.entries

/-- With deadlines ahead and near enough, the replay gives the keyspace back.
SOURCE: persistence/aof.py:340-344, storage/store.py:97-106 -/
theorem sameUpToSecond_replay (hold : ∀ p ∈ d.entries, Holding p.2.value) (hfresh : Fresh t₁ d)
    (hnear : ∀ p ∈ d.entries, ∀ x, p.2.expireAtMs = some x → x - t₁ < 2 ^ 53)
    (h : rewriteCommands t₁ d = some cs) {srv : Server} (hempty : srv.store.entries = Dict.empty) :
    SameUpToSecond t₁ t₂ d (applyAll t₂ cs srv).store.entries := by
  have hentries := replay_rewrite t₂ hold h hempty
  constructor
  · rw [Dict.keys, hentries, List.map_map]
    rfl
  · intro k e hk
    have hmem := (d.get?_eq_some_iff k e).mp hk
    refine ⟨revived t₁ t₂ e, ?_, rfl, rfl, ?_, ?_⟩
    · rw [Dict.get?_eq_some_iff, hentries]
      exact List.mem_map.mpr ⟨(k, e), hmem, rfl⟩
    · intro hx
      rw [revived, hx]
      rfl
    · intro x hx
      have hahead : t₁ < x := by
        have := hfresh (k, e) hmem
        simp only [hx, isExpired, decide_eq_false_iff_not] at this
        omega
      obtain ⟨s, hs, hlow, hhigh⟩ := rewriteSeconds_exact (r := x - t₁) (by omega)
        (hnear (k, e) hmem x hx)
      refine ⟨t₂ + s * 1000, ?_, by omega, by omega⟩
      show revivedDeadline t₁ t₂ e.expireAtMs = _
      rw [hx, revivedDeadline, if_pos (by omega), hs]
      rfl

/-- Deadlines that are near enough can be rewritten. -/
theorem exists_rewriteCommands
    (hnear : ∀ p ∈ d.entries, ∀ x, p.2.expireAtMs = some x → x - t₁ < 2 ^ 53) :
    ∃ cs, rewriteCommands t₁ d = some cs := by
  obtain ⟨css, hcss⟩ : ∃ css, d.entries.mapM (fun e =>
      (deadlineCommand t₁ e.1 e.2).map fun d => rebuildCommand e.1 e.2 ++ d) = some css := by
    refine exists_mapM fun p hp => ?_
    unfold deadlineCommand
    cases hx : p.2.expireAtMs with
    | none => exact ⟨_, rfl⟩
    | some x =>
      dsimp only
      split_ifs with hpos
      · obtain ⟨s, hs, -, -⟩ := rewriteSeconds_exact hpos (hnear p hp x hx)
        rw [hs]
        exact ⟨_, rfl⟩
      · exact ⟨_, rfl⟩
  exact ⟨_, by rw [rewriteCommands, hcss]; rfl⟩

/-- **A rewrite rebuilds the keyspace** of every store the server reaches, as long as every
deadline is ahead and less than 2^53 ms away, every command has at most 1024 elements and
all of them together at most 32,000,000 bytes, exactly when no key and no part of a value is
longer than the bulk length the AOF is read with.
SOURCE: persistence/aof.py:250-299, 320-345, storage/store.py:97-203 -/
theorem rewrite_rebuilds_iff {cfg : Config} (hcfg : cfg.accepted = true) {s : Store}
    (hs : Reachable s) (t₀ t₁ : ℤ) (hfresh : Fresh t₁ (s.snapshot t₀).1)
    (hnear : ∀ p ∈ (s.snapshot t₀).1.entries, ∀ x, p.2.expireAtMs = some x → x - t₁ < 2 ^ 53)
    (hcount : ∀ cs, rewriteCommands t₁ (s.snapshot t₀).1 = some cs → ∀ c ∈ cs, c.length ≤ 1024)
    (hsize : ∀ payload, buildRewritePayload t₁ (s.snapshot t₀).1 = some payload →
      payload.length ≤ 32000000) :
    RebuiltByRewrite cfg.protoMaxBulkLen t₁ (s.snapshot t₀).1 ↔
      ∀ p ∈ (s.snapshot t₀).1.entries, p.1.length ≤ cfg.protoMaxBulkLen ∧
        ∀ b ∈ valueParts p.2.value, b.length ≤ cfg.protoMaxBulkLen := by
  have hlimit := bulkLimit_of_accepted hcfg
  have hold : ∀ p ∈ (s.snapshot t₀).1.entries, Holding p.2.value := fun p hp =>
    (reachable_coherent hs).holding_live t₀ ((Dict.get?_eq_some_iff _ _ _).mpr hp)
  generalize (s.snapshot t₀).1 = d at *
  obtain ⟨cs, hcs⟩ := exists_rewriteCommands hnear
  have hpayload : buildRewritePayload t₁ d = some (cs.flatMap encodeCommand) := by
    rw [buildRewritePayload, hcs]
    rfl
  have hbuffer := hsize _ hpayload
  constructor
  · rintro ⟨payload, hbuilt, hread⟩
    rw [hpayload] at hbuilt
    cases hbuilt
    obtain ⟨read, hok, -⟩ := hread _ le_rfl
    obtain ⟨hall, -⟩ := (readCommands_rewrite_iff hlimit hold hcs ⟨le_rfl, hbuffer⟩).mp hok
    exact fun p hp => ⟨(hall p hp).key, (hall p hp).parts⟩
  · intro hshort
    have hall : ∀ p ∈ d.entries, Rewritable cfg.protoMaxBulkLen p := by
      intro p hp
      refine ⟨(hshort p hp).1, ?_, (hshort p hp).2⟩
      obtain ⟨name, args, hshape, -, hperm⟩ := rebuildCommand_shape p.1 (hold p hp)
      obtain ⟨rfl, -⟩ := rewriteCommands_eq hcs
      have hle := hcount _ hcs (name :: p.1 :: args) (List.mem_flatMap.mpr ⟨p, hp, by
        rw [keyCommands, hshape]
        exact List.mem_cons_self⟩)
      rw [List.length_cons, List.length_cons, hperm.length_eq] at hle
      omega
    refine ⟨_, hpayload, fun maxFileBytes hfile => ⟨cs, ?_, ?_⟩⟩
    · exact (readCommands_rewrite_iff hlimit hold hcs ⟨hfile, hbuffer⟩).mpr ⟨hall, rfl⟩
    · intro t₂ ht srv hempty
      exact sameUpToSecond_replay hold hfresh hnear hcs hempty

/-- A list of two elements with ten seconds to live. -/
def expiringList : Store :=
  (((Server.init {} default none none).execute {} .client 0
    [ascii "LPUSH", ascii "k", ascii "a", ascii "b"] []).server.execute {} .client 0
    [ascii "EXPIRE", ascii "k", ascii "10"] []).server.store

/-- The store with the list is reachable. -/
theorem reachable_expiringList : Reachable expiringList :=
  ((Reachable.empty 0 .noeviction).execute {} .client 0 _ []).execute {} .client 0 _ []

/-- What a snapshot takes of it. -/
def expiringListEntries : Entries :=
  Dict.empty.insert (ascii "k")
    { type := .list, value := .deque [ascii "b", ascii "a"], expireAtMs := some 10000 }

/-- Rewritten a second and a half after its snapshot, the list keeps its order and gets four seconds
to live. -/
theorem rewrite_rebuilds_expiringList :
    RebuiltByRewrite 16777216 6500 (expiringList.snapshot 5000).1 := by
  have hsnap : (expiringList.snapshot 5000).1 = expiringListEntries := by decide +kernel
  have hcommands : rewriteCommands 6500 expiringListEntries =
      some [[ascii "LPUSH", ascii "k", ascii "a", ascii "b"],
        [ascii "EXPIRE", ascii "k", ascii "4"]] := by decide +kernel
  refine (@rewrite_rebuilds_iff {} rfl expiringList reachable_expiringList 5000 6500
    ?_ ?_ ?_ ?_).mpr ?_
  · rw [hsnap]
    unfold Fresh
    decide
  · rw [hsnap]
    intro p hp x hx
    rw [List.mem_singleton.mp hp] at hx
    cases hx
    decide
  · rw [hsnap]
    intro cs hcs
    rw [hcommands] at hcs
    cases hcs
    decide
  · rw [hsnap]
    intro payload hpayload
    rw [buildRewritePayload, hcommands] at hpayload
    cases hpayload
    decide
  · rw [hsnap]
    decide

/-- A value sent as a simple string, one byte longer than a bulk string may be. -/
def simpleStringStore : Store :=
  ((Server.init smallBulkConfig default none none).execute {} .client 0
    [ascii "SET", ascii "k", longArgument] []).server.store

/-- The store that a simple string has written is reachable. -/
theorem reachable_simpleStringStore : Reachable simpleStringStore :=
  (Reachable.empty 0 .noeviction).execute {} .client 0 _ []

/-- The parser of the connection admits the SET, and the rewrite of the keyspace that it leaves
cannot be read. -/
theorem rewrite_rebuilds_iff_simpleString :
    smallBulkConfig.accepted = true ∧
    (RespParser.feed { limits := smallBulkConfig.clientLimits }
        (arrayHeader 3 ++ encodeBulkString (ascii "SET") ++ encodeBulkString (ascii "k") ++
          ascii "+" ++ longArgument ++ crlf)).toOption.map
        (fun r => r.1.map fun msg => (normalizeArgv msg).toOption) =
      some [some [ascii "SET", ascii "k", longArgument]] ∧
    Reachable simpleStringStore ∧ Timeless (simpleStringStore.snapshot 0).1 ∧
    rewriteCommands 0 (simpleStringStore.snapshot 0).1 =
      some [[ascii "SET", ascii "k", longArgument]] ∧
    (encodeCommand [ascii "SET", ascii "k", longArgument]).length ≤ 32000000 ∧
    ¬ RebuiltByRewrite smallBulkConfig.protoMaxBulkLen 0 (simpleStringStore.snapshot 0).1 := by
  have hcommands : rewriteCommands 0 (simpleStringStore.snapshot 0).1 =
      some [[ascii "SET", ascii "k", longArgument]] := by decide +kernel
  have htimeless : Timeless (simpleStringStore.snapshot 0).1 := by
    unfold Timeless
    decide +kernel
  refine ⟨by decide, by decide +kernel, reachable_simpleStringStore, htimeless, hcommands,
    by decide +kernel, ?_⟩
  rintro ⟨payload, hpayload, hread⟩
  rw [buildRewritePayload, hcommands] at hpayload
  cases hpayload
  obtain ⟨read, hok, -⟩ := hread 2000 (by decide +kernel)
  have herr : (readCommands smallBulkConfig.protoMaxBulkLen 2000
      (some ([[ascii "SET", ascii "k", longArgument]].flatMap encodeCommand))).toOption = none := by
    decide +kernel
  rw [hok] at herr
  cases herr

end ByoRedis.Analysis
