import ByoRedis.Analysis.RewriteRebuild

/-!
# Deadlines that pass during a rewrite

The snapshot of a rewrite is taken on the event loop, and the payload is built from it later,
in a worker thread that reads the clock again. An entry whose deadline passes in between is
still in the snapshot: its value is written out, but no EXPIRE, since no time is left
(`deadlineCommand_cases`). The replay then has the key without a deadline. `volatile_iff`
says that this is the only way in which a rewrite makes a key permanent.
-/

set_option autoImplicit false

namespace ByoRedis.Analysis

open ByoRedis.Model ByoRedis.Lib ByoRedis.Interface

variable {t₁ : ℤ} {d : Entries} {cs read : List Command}

/-- Replaying `read` into an empty store, at whatever time from `t₁` on, leaves no key of `d`
that had a deadline without one, and brings none back whose deadline had passed by `t₁`. -/
def StaysVolatile (t₁ : ℤ) (read : List Command) (d : Entries) : Prop :=
  ∀ t₂, t₁ ≤ t₂ → ∀ srv : Server, srv.store.entries = Dict.empty →
    ∀ k e x, d.get? k = some e → e.expireAtMs = some x →
      (∀ e', (applyAll t₂ read srv).store.entries.get? k = some e' → e'.expireAtMs ≠ none) ∧
        (x ≤ t₁ → (applyAll t₂ read srv).store.entries.get? k = none)

/-- The entry of a key after the replay of a rewrite. -/
theorem get?_replay_rewrite (hold : ∀ p ∈ d.entries, Holding p.2.value)
    (h : rewriteCommands t₁ d = some cs) {t₂ : ℤ} {srv : Server}
    (hempty : srv.store.entries = Dict.empty) {k : Bytes} {e : KeyEntry}
    (hk : d.get? k = some e) :
    (applyAll t₂ cs srv).store.entries.get? k = some (revived t₁ t₂ e) := by
  rw [Dict.get?_eq_some_iff, replay_rewrite t₂ hold h hempty]
  exact List.mem_map.mpr ⟨(k, e), (d.get?_eq_some_iff k e).mp hk, rfl⟩

/-- A key keeps a deadline through a rewrite exactly when some time is left at the rewrite.
SOURCE: persistence/aof.py:340-344 -/
theorem deadline_revived_iff (h : rewriteCommands t₁ d = some cs) {t₂ x : ℤ} {k : Bytes}
    {e : KeyEntry} (hk : d.get? k = some e) (hx : e.expireAtMs = some x) :
    (revived t₁ t₂ e).expireAtMs ≠ none ↔ t₁ < x := by
  show revivedDeadline t₁ t₂ e.expireAtMs ≠ none ↔ t₁ < x
  obtain ⟨-, hds⟩ := rewriteCommands_eq h
  obtain ⟨ds, hd⟩ := hds (k, e) ((d.get?_eq_some_iff k e).mp hk)
  rw [hx, revivedDeadline]
  rcases deadlineCommand_cases hd with ⟨-, hpast⟩ | ⟨y, s, hy, hlt, hs, -⟩
  · have hle := hpast x hx
    rw [if_neg (by omega)]
    simp [hle]
  · obtain rfl : x = y := Option.some.inj (hx.symm.trans hy)
    rw [if_pos (by omega), hs]
    simp [hlt]

/-- A file that was read is within both limits on its size.
SOURCE: persistence/aof.py:259-267 -/
theorem loadable_of_readCommands {maxBulkLen maxFileBytes : ℕ} {data : Bytes}
    (h : readCommands maxBulkLen maxFileBytes (some data) = .ok read) :
    Loadable maxFileBytes data := by
  have hfile : data.length ≤ maxFileBytes := by
    by_contra hlarge
    cases data with
    | nil => exact hlarge (Nat.zero_le _)
    | cons b data =>
      rw [readCommands] at h
      simp only [List.isEmpty_cons, Bool.false_eq_true, if_false,
        if_pos (Nat.not_le.mp hlarge)] at h
      cases h
  refine ⟨hfile, ?_⟩
  by_contra hlarge
  rw [readCommands_overflow maxBulkLen (Nat.not_le.mp hlarge) hfile] at h
  cases h

/-- **A rewrite makes a volatile key permanent exactly when a deadline of its snapshot has
passed by the time the payload is built**, for every store the server reaches and every
payload that can be read back.
SOURCE: persistence/aof.py:188-194, 320-345, server.py:632-643 -/
theorem volatile_iff {cfg : Config} (hcfg : cfg.accepted = true) {s : Store} (hs : Reachable s)
    (t₀ t₁ : ℤ) {payload : Bytes}
    (hbuilt : buildRewritePayload t₁ (s.snapshot t₀).1 = some payload) {maxFileBytes : ℕ}
    (hread : readCommands cfg.protoMaxBulkLen maxFileBytes (some payload) = .ok read) :
    StaysVolatile t₁ read (s.snapshot t₀).1 ↔
      ∀ p ∈ (s.snapshot t₀).1.entries, ∀ x, p.2.expireAtMs = some x → t₁ < x := by
  have hlimit := bulkLimit_of_accepted hcfg
  have hold : ∀ p ∈ (s.snapshot t₀).1.entries, Holding p.2.value := fun p hp =>
    (reachable_coherent hs).holding_live t₀ ((Dict.get?_eq_some_iff _ _ _).mpr hp)
  generalize (s.snapshot t₀).1 = d at *
  obtain ⟨cs, hcs, rfl⟩ := Option.map_eq_some_iff.mp hbuilt
  obtain ⟨-, rfl⟩ := (readCommands_rewrite_iff hlimit hold hcs
    (loadable_of_readCommands hread)).mp hread
  constructor
  · intro h p hp x hx
    have hk := (d.get?_eq_some_iff p.1 p.2).mpr hp
    have hempty : (Server.init cfg default none none).store.entries = Dict.empty := rfl
    obtain ⟨hstays, -⟩ := h t₁ le_rfl _ hempty p.1 p.2 x hk hx
    exact (deadline_revived_iff hcs hk hx).mp
      (hstays _ (get?_replay_rewrite hold hcs hempty hk))
  · intro h t₂ _ srv hempty k e x hk hx
    have hlt := h (k, e) ((d.get?_eq_some_iff k e).mp hk) x hx
    refine ⟨?_, fun hpast => absurd hlt (not_lt.mpr hpast)⟩
    intro e' he'
    rw [get?_replay_rewrite hold hcs hempty hk] at he'
    cases he'
    exact (deadline_revived_iff hcs hk hx).mpr hlt

/-- A string with a second to live. -/
def expiringString : Store :=
  ((Server.init {} default none none).execute {} .client 0
    [ascii "SET", ascii "k", ascii "v", ascii "EX", ascii "1"] []).server.store

/-- The store with the string is reachable. -/
theorem reachable_expiringString : Reachable expiringString :=
  (Reachable.empty 0 .noeviction).execute {} .client 0 _ []

/-- What a snapshot takes of it in time. -/
def expiringStringEntries : Entries :=
  Dict.empty.insert (ascii "k")
    { type := .string, value := .bytes (ascii "v"), expireAtMs := some 1000 }

/-- Its snapshot still has the string. -/
theorem snapshot_expiringString : (expiringString.snapshot 999).1 = expiringStringEntries := by
  decide +kernel

/-- Built at the time of the snapshot, the payload keeps the deadline. -/
theorem volatile_atOnce :
    StaysVolatile 999 [[ascii "SET", ascii "k", ascii "v"], [ascii "EXPIRE", ascii "k", ascii "1"]]
      (expiringString.snapshot 999).1 := by
  have hcommands : rewriteCommands 999 (expiringString.snapshot 999).1 =
      some [[ascii "SET", ascii "k", ascii "v"], [ascii "EXPIRE", ascii "k", ascii "1"]] := by
    rw [snapshot_expiringString]
    decide +kernel
  refine (@volatile_iff _ {} rfl _ reachable_expiringString 999 999 _
    (by rw [buildRewritePayload, hcommands, Option.map_some]) 1000
    (by decide +kernel)).mpr ?_
  rw [snapshot_expiringString]
  intro p hp x hx
  rw [List.mem_singleton.mp hp] at hx
  cases hx
  decide

/-- Built a millisecond later, it makes the key permanent. -/
theorem volatile_iff_late :
    Reachable expiringString ∧
    buildRewritePayload 1000 (expiringString.snapshot 999).1 =
      some (encodeCommand [ascii "SET", ascii "k", ascii "v"]) ∧
    readCommands 16777216 1073741824 (some (encodeCommand [ascii "SET", ascii "k", ascii "v"])) =
      .ok [[ascii "SET", ascii "k", ascii "v"]] ∧
    ¬ StaysVolatile 1000 [[ascii "SET", ascii "k", ascii "v"]] (expiringString.snapshot 999).1 := by
  rw [snapshot_expiringString]
  refine ⟨reachable_expiringString, by decide +kernel, by decide +kernel, ?_⟩
  intro h
  obtain ⟨-, hgone⟩ := h 1000 le_rfl (Server.init {} default none none) rfl (ascii "k")
    { type := .string, value := .bytes (ascii "v"), expireAtMs := some 1000 } 1000 (by decide) rfl
  have hthere : ((applyAll 1000 [[ascii "SET", ascii "k", ascii "v"]]
      (Server.init {} default none none)).store.entries.get? (ascii "k")).isSome = true := by
    decide +kernel
  rw [hgone le_rfl] at hthere
  cases hthere

end ByoRedis.Analysis
