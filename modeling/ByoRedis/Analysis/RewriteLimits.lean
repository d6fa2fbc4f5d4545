import ByoRedis.Analysis.RewriteDeadlines

/-!
# Collections that a rewrite cannot hold

The rewrite of a list or a hash is a single command with all its elements. Whatever the
commands were that made the collection, the reader of the AOF takes at most 1024 elements in
one of them: `rewrite_loadable_iff` says that 1022 elements of a list and 511 fields of a
hash are the most for which a rewritten log can be loaded.
-/

set_option autoImplicit false

namespace ByoRedis.Analysis

open ByoRedis.Model ByoRedis.Lib ByoRedis.Interface

/-- A command that a client sends within the limits: at most 1024 elements, none longer than
the bulk length. -/
def Limited (limit : ℕ) (_ : System) : Action → Prop
  | .command _ argv _ => Readable limit argv
  | _ => True

instance (limit : ℕ) (sys : System) (a : Action) : Decidable (Limited limit sys a) := by
  cases a <;> unfold Limited <;> infer_instance

/-- A value that one command can hold, with its name and the key. -/
def Compact : RedisValue → Prop
  | .bytes _ => True
  | .deque items => items.length ≤ 1022
  | .dict mapping => mapping.entries.length ≤ 511

/-- A value is compact when its command has at most 1024 arguments. -/
theorem compact_iff (v : RedisValue) : Compact v ↔ (valueParts v).length ≤ 1022 := by
  cases v with
  | bytes b => simp [Compact, valueParts]
  | deque items => exact Iff.rfl
  | dict mapping =>
    have hlen : (valueParts (.dict mapping)).length = 2 * mapping.entries.length := by
      simp [valueParts, List.length_flatMap, Nat.mul_comm]
    rw [hlen, Compact]
    omega

variable {limit : ℕ} {sys sys' : System} {evs es : List Event}

/-- What a solid keyspace is, by the parts of its values. -/
theorem solid_iff {d : Entries} : Solid limit d ↔ ∀ p ∈ d.entries,
    p.1.length ≤ limit ∧ valueParts p.2.value ≠ [] ∧
      ∀ b ∈ valueParts p.2.value, b.length ≤ limit := by
  constructor
  · intro h p hp
    exact h p.1 p.2 ((d.get?_eq_some_iff p.1 p.2).mpr hp)
  · intro h k e hk
    exact h (k, e) ((d.get?_eq_some_iff k e).mp hk)

/-- **Commands within the limits keep the keyspace solid**, whatever the other tasks do.
SOURCE: protocol/parser.py:98-104, server.py:409-498 -/
theorem solid_step {a : Action} (h : Solid limit (sys.server.store.live sys.now))
    (hok : Limited limit sys a) (hs : sys.step a = some (sys', es)) :
    Solid limit (sys'.server.store.live sys'.now) := by
  rw [solid_iff]
  refine forall_live_step (solid_iff.mp h) ?_ hs
  rintro conn argv env rfl d heff
  exact solid_iff.mp (h.effect hok.bulk heff)

/-- The snapshots along a run are solid. -/
theorem solid_snapshot {cfg : Config} {replid : Replid} {t₀ t : ℤ}
    (hrun : Runs System.step (Limited limit) { server := started cfg replid, now := t₀ } evs sys)
    (ht : sys.now ≤ t) : Solid limit (sys.server.store.snapshot t).1 := by
  have hsolid : Solid limit (sys.server.store.live sys.now) := by
    refine hrun.invariant (I := fun _ s => Solid limit (s.server.store.live s.now)) ?_
      fun h hok hs => solid_step h hok hs
    exact solid_empty limit
  rw [solid_iff] at hsolid ⊢
  exact fun p hp => hsolid p (mem_live_of_le ht hp)

/-- A value with parts is not empty. -/
theorem holding_of_parts {v : RedisValue} (h : valueParts v ≠ []) : Holding v := by
  cases v with
  | bytes b => trivial
  | deque items => exact h
  | dict mapping =>
    intro hnil
    exact h (by simp [valueParts, hnil])

/-- **A rewritten log can be loaded exactly when no collection is too large for one command**,
after any run in which every command of a client is within the limits, as long as the file is
at most 32,000,000 bytes. Then the reader returns the commands that were emitted.
SOURCE: persistence/aof.py:250-299, 320-345, protocol/parser.py:113-137 -/
theorem rewrite_loadable_iff {cfg : Config} (hcfg : cfg.accepted = true) {replid : Replid}
    {t₀ t t₁ : ℤ}
    (hrun : Runs System.step (Limited cfg.protoMaxBulkLen)
      { server := started cfg replid, now := t₀ } evs sys)
    (ht : sys.now ≤ t) {payload : Bytes}
    (hbuilt : buildRewritePayload t₁ (sys.server.store.snapshot t).1 = some payload)
    (hsize : payload.length ≤ 32000000) {maxFileBytes : ℕ}
    (hfile : payload.length ≤ maxFileBytes) :
    (∃ cs, rewriteCommands t₁ (sys.server.store.snapshot t).1 = some cs ∧
      readCommands cfg.protoMaxBulkLen maxFileBytes (some payload) = .ok cs) ↔
    ∀ p ∈ (sys.server.store.snapshot t).1.entries, Compact p.2.value := by
  have hsolid := solid_iff.mp (solid_snapshot hrun ht)
  generalize (sys.server.store.snapshot t).1 = d at *
  have hold : ∀ p ∈ d.entries, Holding p.2.value := fun p hp => holding_of_parts (hsolid p hp).2.1
  obtain ⟨cs, hcs, rfl⟩ := Option.map_eq_some_iff.mp hbuilt
  have hread := @readCommands_rewrite_iff _ _ _ _ _ (bulkLimit_of_accepted hcfg) hold hcs
    ⟨hfile, hsize⟩ cs
  constructor
  · rintro ⟨cs', hcs', hok⟩ p hp
    obtain rfl : cs = cs' := Option.some.inj (hcs.symm.trans hcs')
    exact (compact_iff _).mpr ((hread.mp hok).1 p hp).count
  · intro hcompact
    refine ⟨cs, hcs, hread.mpr ⟨fun p hp => ⟨(hsolid p hp).1, ?_, (hsolid p hp).2.2⟩, rfl⟩⟩
    exact (compact_iff _).mp (hcompact p hp)

/-- A client's LPUSH of `n` elements. -/
def lpushOf (n : ℕ) : Action :=
  .command 1 (ascii "LPUSH" :: ascii "k" :: List.replicate n (ascii "v")) {}

/-- A list of two elements is rewritten to one command, which is read back. -/
theorem rewrite_loadable_pushed :
    ∃ evs sys cs, Runs System.step (Limited 16777216) freshSystem evs sys ∧
      rewriteCommands 0 (sys.server.store.snapshot 0).1 = some cs ∧
      readCommands 16777216 1073741824 (some (cs.flatMap encodeCommand)) = .ok cs := by
  obtain ⟨evs, sys, hrun, hview⟩ := @exists_runs_view _ _ _ System.step (Limited 16777216)
    freshSystem _ _ (fun sys => (sys.now, (sys.server.store.snapshot 0).1)) [lpushOf 2]
    (0, Dict.empty.insert (ascii "k") { type := .list, value := .deque [ascii "v", ascii "v"] })
    (by decide +kernel)
  obtain ⟨hnow, hsnap⟩ := Prod.mk.inj hview
  have hcommands : rewriteCommands 0 (sys.server.store.snapshot 0).1 =
      some [[ascii "LPUSH", ascii "k", ascii "v", ascii "v"]] := by
    rw [hsnap]
    decide +kernel
  have hbuilt : buildRewritePayload 0 (sys.server.store.snapshot 0).1 =
      some (encodeCommand [ascii "LPUSH", ascii "k", ascii "v", ascii "v"]) := by
    rw [buildRewritePayload, hcommands]
    rfl
  obtain ⟨cs, hcs, hread⟩ := (@rewrite_loadable_iff _ _ {} rfl default 0 0 0 hrun (le_of_eq hnow)
    _ hbuilt (by decide) 1073741824 (by decide)).mpr (by
      rw [hsnap]
      intro p hp
      rw [List.mem_singleton.mp hp]
      exact (show [ascii "v", ascii "v"].length ≤ 1022 by decide))
  refine ⟨_, sys, cs, hrun, hcs, ?_⟩
  rw [hcommands] at hcs
  cases hcs
  exact hread

/-- Two LPUSHes of 600 elements make a list whose rewrite cannot be loaded. -/
theorem rewrite_loadable_iff_twice :
    ∃ evs sys payload, Runs System.step (Limited 16777216) freshSystem evs sys ∧
      buildRewritePayload 0 (sys.server.store.snapshot 0).1 = some payload ∧
      payload.length ≤ 32000000 ∧
      (readCommands 16777216 1073741824 (some payload)).toOption = none := by
  obtain ⟨evs, sys, hrun, hview⟩ := @exists_runs_view _ _ _ System.step (Limited 16777216)
    freshSystem _ _
    (fun sys => (buildRewritePayload 0 (sys.server.store.snapshot 0).1).map fun payload : Bytes =>
      decide (payload.length ≤ 32000000) &&
        (readCommands 16777216 1073741824 (some payload)).toOption.isNone)
    [lpushOf 600, .append .none, .propagate fun _ => false, lpushOf 600] (some true)
    (by decide +kernel)
  obtain ⟨payload, hbuilt, hpayload⟩ := Option.map_eq_some_iff.mp hview
  obtain ⟨hsize, hread⟩ := Bool.and_eq_true_iff.mp hpayload
  exact ⟨_, sys, payload, hrun, hbuilt, of_decide_eq_true hsize, Option.isNone_iff_eq_none.mp hread⟩

end ByoRedis.Analysis
