import ByoRedis.Interface.Keyspace

/-!
# The store, operation by operation

What each operation of `Store` does to `_entries` when no deadline has passed, which is
the state every write command meets: `_execute` takes a snapshot first, and a snapshot
deletes what has expired (`entries_purge`).
-/

set_option autoImplicit false

namespace ByoRedis.Analysis

open ByoRedis.Model ByoRedis.Lib ByoRedis.Interface

/-- No deadline has passed. -/
def Fresh (now : ℤ) (d : Entries) : Prop :=
  ∀ e ∈ d.entries, isExpired e.2.expireAtMs now = false

/-- No entry has a deadline. -/
def Timeless (d : Entries) : Prop := ∀ e ∈ d.entries, e.2.expireAtMs = none

/-- The memory limit and the policy of a store, which no operation changes. -/
def SameLimits (s s' : Store) : Prop :=
  s'.maxmemoryBytes = s.maxmemoryBytes ∧ s'.maxmemoryPolicy = s.maxmemoryPolicy

/-- A store has its own limits. -/
theorem SameLimits.refl (s : Store) : SameLimits s s := ⟨rfl, rfl⟩

/-- The limits are kept through two steps. -/
theorem SameLimits.trans {s t u : Store} (h : SameLimits s t) (h' : SameLimits t u) :
    SameLimits s u := ⟨h'.1.trans h.1, h'.2.trans h.2⟩

/-- Without deadlines nothing has expired. -/
theorem Timeless.fresh {d : Entries} (h : Timeless d) (now : ℤ) : Fresh now d := by
  intro e he
  rw [h e he]
  rfl

/-- What is found has not expired. -/
theorem Fresh.get? {now : ℤ} {d : Entries} (h : Fresh now d) {k : Bytes} {e : KeyEntry}
    (hk : d.get? k = some e) : isExpired e.expireAtMs now = false :=
  h (k, e) ((d.get?_eq_some_iff k e).mp hk)

/-- What is found has no deadline. -/
theorem Timeless.get? {d : Entries} (h : Timeless d) {k : Bytes} {e : KeyEntry}
    (hk : d.get? k = some e) : e.expireAtMs = none :=
  h (k, e) ((d.get?_eq_some_iff k e).mp hk)

/-- There are no deadlines in the empty keyspace. -/
theorem timeless_empty : Timeless Dict.empty := by
  intro e he
  cases he

/-! ## Expired entries -/

/-- Removing keys one after the other.
SOURCE: storage/store.py:54-56 -/
theorem foldl_remove (keys : List Bytes) (s : Store) :
    keys.foldl Store.remove s =
      { s with entries := s.entries.eraseMany keys
               lastAccess := s.lastAccess.eraseMany keys } := by
  induction keys generalizing s with
  | nil => rfl
  | cons k keys ih => rw [List.foldl_cons, ih]; rfl

/-- The expired keys are those whose deadline has passed. -/
theorem mem_expiredKeys {s : Store} (now : ℤ) {e : Bytes × KeyEntry}
    (he : e ∈ s.entries.entries) :
    e.1 ∈ s.expiredKeys now ↔ isExpired e.2.expireAtMs now = true := by
  simp only [Store.expiredKeys, List.mem_map, List.mem_filter]
  constructor
  · rintro ⟨f, ⟨hf, hx⟩, hk⟩
    have h1 := (s.entries.get?_eq_some_iff f.1 f.2).mpr hf
    have h2 := (s.entries.get?_eq_some_iff e.1 e.2).mpr he
    rw [hk, h2] at h1
    rw [Option.some.inj h1]
    exact hx
  · intro hx
    exact ⟨e, ⟨he, hx⟩, rfl⟩

/-- **What is left after a purge, and so after a snapshot, are the live entries.**
SOURCE: storage/store.py:45-60, 240-247 -/
theorem entries_purge (s : Store) (now : ℤ) : (s.purge now).entries = s.live now := by
  rw [Store.purge, foldl_remove]
  show s.entries.eraseMany _ = _
  rw [Dict.eraseMany_eq_filter, Store.live]
  apply Dict.ext
  rw [Dict.entries_filter, Dict.entries_filter]
  apply List.filter_congr
  intro e he
  have := mem_expiredKeys now he
  cases hx : isExpired e.2.expireAtMs now <;> simp [this, hx]

/-- A purge keeps the limits. -/
theorem sameLimits_purge (s : Store) (now : ℤ) : SameLimits s (s.purge now) := by
  rw [Store.purge, foldl_remove]
  exact ⟨rfl, rfl⟩

/-- Live entries have not expired. -/
theorem fresh_live (s : Store) (now : ℤ) : Fresh now (s.live now) := by
  intro e he
  rw [Store.live, Dict.entries_filter, List.mem_filter] at he
  simpa using he.2

/-- If nothing has expired all entries are live. -/
theorem live_of_fresh {s : Store} {now : ℤ} (h : Fresh now s.entries) :
    s.live now = s.entries := by
  apply Dict.filter_eq_self
  intro e he
  simp [h e he]

/-- A purge with nothing to delete.
SOURCE: storage/store.py:240-247 -/
theorem purge_of_fresh {s : Store} {now : ℤ} (h : Fresh now s.entries) : s.purge now = s := by
  have hnil : s.expiredKeys now = [] := by
    rw [Store.expiredKeys, List.map_eq_nil_iff, List.filter_eq_nil_iff]
    intro e he
    simp [h e he]
  rw [Store.purge, hnil]
  rfl

/-- A lookup on a store without expired entries.
SOURCE: storage/store.py:249-258 -/
theorem touch_of_fresh {s : Store} {now : ℤ} (h : Fresh now s.entries) (key : Bytes) :
    s.touch now key =
      match s.entries.get? key with
      | none => (none, s)
      | some e => (some e, s.touchAccess key) := by
  unfold Store.touch
  cases hk : s.entries.get? key with
  | none => rfl
  | some e => simp [h.get? hk]

/-! ## The write operations -/

/-- `r` is what a handler may answer to `argv` on a store without expired entries: the
effect of the command on the entries and a value, or an error and the same entries. -/
def Carries (now : ℤ) (argv : Command) (s : Store) (r : Handled × Store) : Prop :=
  SameLimits s r.2 ∧
    match effect now argv s.entries with
    | some d => (∃ v, r.1 = .value v) ∧ r.2.entries = d
    | none => (∃ m, r.1 = .error m) ∧ r.2.entries = s.entries

/-- `EX` was given a positive number.
SOURCE: commands/string_cmds.py:29-30 -/
theorem setOptions_pos {options : List Bytes} {init ex : Option ℤ}
    (hinit : ∀ n, init = some n → 0 < n) (h : setOptions options init = .ok ex) :
    ∀ n, ex = some n → 0 < n := by
  induction options, init using setOptions.induct with
  | case1 init =>
    simp only [setOptions] at h
    cases h
    exact hinit
  | case2 opt init hopt => simp [setOptions, hopt] at h
  | case3 opt init hopt seconds rest hp => simp [setOptions, hopt, hp] at h
  | case4 opt init hopt seconds rest n hp hn => simp [setOptions, hopt, hp, hn] at h
  | case5 opt init hopt seconds rest n hp hn ih =>
    simp only [setOptions, if_pos hopt, hp, if_neg hn] at h
    refine ih ?_ h
    intro m hm
    cases hm
    omega
  | case6 opt args init hopt => cases args <;> simp [setOptions, hopt] at h

/-- SOURCE: storage/store.py:129-139 -/
theorem entries_setString (s : Store) (now : ℤ) (key value : Bytes) {ex : Option ℤ}
    (hex : ∀ n, ex = some n → 0 < n) :
    (s.setString now key value ex).entries =
      s.entries.insert key { type := .string, value := .bytes value,
                             expireAtMs := ex.map fun n => now + n * 1000 } ∧
    SameLimits s (s.setString now key value ex) := by
  cases ex with
  | none => exact ⟨rfl, rfl, rfl⟩
  | some n =>
    have hn : ¬ n ≤ 0 := by have := hex n rfl; omega
    simp only [Store.setString, if_neg hn]
    exact ⟨rfl, rfl, rfl⟩

variable {now : ℤ} {name : Bytes} {args : List Bytes} {s : Store}

/-- SOURCE: commands/string_cmds.py:11-36 -/
theorem cmdSet_carries (hl : CommandName.lookup name = some .set) :
    Carries now (name :: args) s (cmdSet now (name :: args) s) := by
  match args with
  | [] => simp [Carries, effect, Write.ofCommand, cmdSet, hl, SameLimits]
  | [_] => simp [Carries, effect, Write.ofCommand, cmdSet, hl, SameLimits]
  | key :: value :: options =>
    cases ho : setOptions options none with
    | error m => simp [Carries, effect, Write.ofCommand, cmdSet, hl, ho, SameLimits]
    | ok ex =>
      have h := entries_setString s now key value
        (setOptions_pos (by simp) ho)
      refine ⟨by simpa [cmdSet, ho] using h.2, ?_⟩
      simp [effect, Write.ofCommand, cmdSet, hl, ho,
        Write.effect_single now (w := .set key value ex) rfl, Write.change, Change.apply, h.1,
        Handled.ok, Handled.simple]

/-- SOURCE: commands/string_cmds.py:47-55 -/
theorem cmdExpire_carries (hl : CommandName.lookup name = some .expire)
    (hf : Fresh now s.entries) :
    Carries now (name :: args) s (cmdExpire now (name :: args) s) := by
  match args with
  | [] => simp [Carries, effect, Write.ofCommand, cmdExpire, hl, SameLimits]
  | [_] => simp [Carries, effect, Write.ofCommand, cmdExpire, hl, SameLimits]
  | _ :: _ :: _ :: _ => simp [Carries, effect, Write.ofCommand, cmdExpire, hl, SameLimits]
  | [key, secs] =>
    cases hp : pyInt secs with
    | none => simp [Carries, effect, Write.ofCommand, cmdExpire, hl, hp, SameLimits]
    | some n =>
      simp only [Carries, effect, Write.ofCommand, cmdExpire, hl, hp, Store.expire,
        touch_of_fresh hf, List.head?_cons, Option.bind_some, Option.map_some]
      rw [Write.effect_single now (w := .expire key n) rfl]
      cases hk : s.entries.get? key with
      | none => simp [Write.change, Change.apply, SameLimits]
      | some e =>
        by_cases hn : n ≤ 0
        · simp [Write.change, Change.apply, hn, Store.remove, Store.touchAccess, SameLimits]
        · simp [Write.change, Change.apply, hn, Store.put, Store.touchAccess, SameLimits]

/-- SOURCE: commands/list_cmds.py:10-18 -/
theorem cmdLpush_carries (hl : CommandName.lookup name = some .lpush)
    (hf : Fresh now s.entries) :
    Carries now (name :: args) s (cmdLpush now (name :: args) s) := by
  match args with
  | [] => simp [Carries, effect, Write.ofCommand, cmdLpush, hl, SameLimits]
  | [_] => simp [Carries, effect, Write.ofCommand, cmdLpush, hl, SameLimits]
  | key :: element :: elements =>
    simp only [Carries, effect, Write.ofCommand, cmdLpush, hl, Store.lpush,
      touch_of_fresh hf, List.head?_cons, Option.bind_some]
    rw [Write.effect_single now (w := .lpush key (element :: elements)) rfl]
    cases hk : s.entries.get? key with
    | none => simp [Write.change, Change.apply, Store.put, Store.touchAccess, SameLimits,
        Handled.ofStore]
    | some e =>
      cases hv : e.value <;>
        simp [Write.change, Change.apply, hv, Store.put, Store.touchAccess, SameLimits,
          Handled.ofStore]

/-- SOURCE: commands/list_cmds.py:21-27 -/
theorem cmdRpop_carries (hl : CommandName.lookup name = some .rpop)
    (hf : Fresh now s.entries) :
    Carries now (name :: args) s (cmdRpop now (name :: args) s) := by
  match args with
  | [] => simp [Carries, effect, Write.ofCommand, cmdRpop, hl, SameLimits]
  | _ :: _ :: _ => simp [Carries, effect, Write.ofCommand, cmdRpop, hl, SameLimits]
  | [key] =>
    simp only [Carries, effect, Write.ofCommand, cmdRpop, hl, Store.rpop,
      touch_of_fresh hf, List.head?_cons, Option.bind_some]
    rw [Write.effect_single now (w := .rpop key) rfl]
    cases hk : s.entries.get? key with
    | none => simp [Write.change, Change.apply, SameLimits, Handled.ofStore]
    | some e =>
      cases hv : e.value with
      | bytes b => simp [Write.change, Change.apply, hv, Store.touchAccess, SameLimits,
          Handled.ofStore]
      | dict m => simp [Write.change, Change.apply, hv, Store.touchAccess, SameLimits,
          Handled.ofStore]
      | deque items =>
        cases hlast : items.getLast? with
        | none =>
          rw [List.getLast?_eq_none_iff] at hlast
          subst hlast
          simp [Write.change, Change.apply, hv, Store.remove, Store.touchAccess, SameLimits,
            Handled.ofStore]
        | some v =>
          by_cases hd : items.dropLast.isEmpty = true
          · simp only [Write.change, Change.apply, hv, hlast, hd, if_true]
            simp [Store.remove, Store.touchAccess, SameLimits, Handled.ofStore]
          · simp only [Write.change, Change.apply, hv, hlast, hd]
            simp [Store.put, Store.touchAccess, SameLimits, Handled.ofStore]

/-- SOURCE: commands/hash_cmds.py:10-26 -/
theorem cmdHset_carries (hl : CommandName.lookup name = some .hset)
    (hf : Fresh now s.entries) :
    Carries now (name :: args) s (cmdHset now (name :: args) s) := by
  match args with
  | [] => simp [Carries, effect, Write.ofCommand, cmdHset, hl, SameLimits]
  | key :: pairs =>
    by_cases hp : 2 ≤ pairs.length ∧ pairs.length % 2 = 0
    · have harity : ¬ ((name :: key :: pairs).length < 4 ∨
          (name :: key :: pairs).length % 2 ≠ 0) := by
        simp only [List.length_cons]
        omega
      have hpairs : ¬ pairs.length % 2 ≠ 0 := by omega
      simp only [Carries, effect, Write.ofCommand, cmdHset, hl, Store.hset, if_neg harity,
        if_neg hpairs, if_pos hp, touch_of_fresh hf, List.head?_cons, Option.bind_some]
      rw [Write.effect_single now (w := .hset key (pairUp pairs)) rfl]
      cases hk : s.entries.get? key with
      | none => simp [Write.change, Change.apply, Store.put, Store.touchAccess, SameLimits,
          Handled.ofStore]
      | some e =>
        cases hv : e.value <;>
          simp [Write.change, Change.apply, hv, Store.put, Store.touchAccess, SameLimits,
            Handled.ofStore]
    · have harity : (name :: key :: pairs).length < 4 ∨
          (name :: key :: pairs).length % 2 ≠ 0 := by
        simp only [List.length_cons]
        omega
      simp only [Carries, effect, Write.ofCommand, cmdHset, hl, if_pos harity, if_neg hp,
        List.head?_cons, Option.bind_some]
      simp [SameLimits]

/-- SOURCE: storage/store.py:72-85 -/
theorem foldl_deleteOne (now : ℤ) (keys : List Bytes) (n : ℤ) (s : Store) :
    ((keys.foldl (Store.deleteOne now) (n, s)).2.entries = s.entries.eraseMany keys) ∧
    SameLimits s (keys.foldl (Store.deleteOne now) (n, s)).2 := by
  induction keys generalizing n s with
  | nil => exact ⟨rfl, rfl, rfl⟩
  | cons k keys ih =>
    rw [List.foldl_cons, Dict.eraseMany_cons]
    cases hk : s.entries.get? k with
    | none =>
      have hstep : Store.deleteOne now (n, s) k = (n, s) := by
        simp only [Store.deleteOne, hk]
      rw [hstep, Dict.erase_eq_self _ ((s.entries.get?_eq_none_iff k).mp hk)]
      exact ih n s
    | some e =>
      obtain ⟨m, hstep⟩ : ∃ m, Store.deleteOne now (n, s) k = (m, s.remove k) := by
        by_cases hx : isExpired e.expireAtMs now = true
        · exact ⟨n, by simp only [Store.deleteOne, hk, hx, if_true]⟩
        · exact ⟨n + 1, by simp only [Store.deleteOne, hk, if_neg hx]⟩
      rw [hstep]
      exact ih m (s.remove k)

/-- SOURCE: commands/server_cmds.py:143-146 -/
theorem cmdDel_carries (hl : CommandName.lookup name = some .del) :
    Carries now (name :: args) s (cmdDel now (name :: args) s) := by
  match args with
  | [] => simp [Carries, effect, Write.ofCommand, cmdDel, hl, SameLimits]
  | key :: keys =>
    obtain ⟨h1, h2⟩ := foldl_deleteOne now (key :: keys) 0 s
    refine ⟨h2, ?_⟩
    simp only [effect, Write.ofCommand, hl, List.head?_cons, Option.bind_some]
    rw [Write.effect_del]
    exact ⟨⟨_, rfl⟩, h1⟩

end ByoRedis.Analysis
