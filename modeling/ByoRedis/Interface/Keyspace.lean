import ByoRedis.Model.Commands

/-!
# What the write commands mean

The write commands as partial functions on a dictionary of live entries, without access
times, replies or hooks. `Write` is a command whose arguments passed their checks,
`Write.change` what it does to the entry of one key, and `effect` the whole: `none` when
the command is answered with an error, else the entries it leaves.

`ByoRedis.Analysis.StoreFacts` connects this with the handlers, `ByoRedis.Analysis.Execution`
with `_execute`.
-/

set_option autoImplicit false

namespace ByoRedis.Interface

open ByoRedis.Model ByoRedis.Lib

/-- A write command with its arguments taken apart. -/
inductive Write where
  | set (key value : Bytes) (exSeconds : Option ℤ)
  | expire (key : Bytes) (seconds : ℤ)
  | lpush (key : Bytes) (elements : List Bytes)
  | rpop (key : Bytes)
  | hset (key : Bytes) (items : List (Bytes × Bytes))
  | del (keys : List Bytes)
  deriving DecidableEq

/-- What becomes of the entry of a key. -/
inductive Change where
  | keep
  | store (e : KeyEntry)
  | drop
  | refuse
  deriving DecidableEq

/-- The entry after a change that was not refused. -/
def Change.result (old : Option KeyEntry) : Change → Option KeyEntry
  | keep => old
  | store e => some e
  | drop => none
  | refuse => old

/-- Carrying out a change on the dictionary. -/
def Change.apply (key : Bytes) (d : Entries) : Change → Option Entries
  | keep => some d
  | store e => some (d.insert key e)
  | drop => some (d.erase key)
  | refuse => none

namespace Write

/-- The keys a command names. -/
def keys : Write → List Bytes
  | set key _ _ => [key]
  | expire key _ => [key]
  | lpush key _ => [key]
  | rpop key => [key]
  | hset key _ => [key]
  | del keys => keys

/-- What the command does to a key with the live entry `old`. -/
def change (now : ℤ) (w : Write) (old : Option KeyEntry) : Change :=
  match w with
  | set _ value exSeconds =>
    .store { type := .string, value := .bytes value,
             expireAtMs := exSeconds.map fun n => now + n * 1000 }
  | expire _ seconds =>
    match old with
    | none => .keep
    | some e =>
      if seconds ≤ 0 then .drop else .store (e.withDeadline (some (now + seconds * 1000)))
  | lpush _ elements =>
    match old with
    | none => .store { type := .list, value := .deque (Store.appendLeft [] elements) }
    | some e =>
      match e.value with
      | .deque items =>
        .store { type := .list, value := .deque (Store.appendLeft items elements),
                 expireAtMs := e.expireAtMs }
      | _ => .refuse
  | rpop _ =>
    match old with
    | none => .keep
    | some e =>
      match e.value with
      | .deque items =>
        if items.dropLast.isEmpty then .drop
        else .store { type := .list, value := .deque items.dropLast, expireAtMs := e.expireAtMs }
      | _ => .refuse
  | hset _ items =>
    match old with
    | none => .store { type := .hash, value := .dict (Store.hsetLoop Dict.empty items).2 }
    | some e =>
      match e.value with
      | .dict mapping =>
        .store { type := .hash, value := .dict (Store.hsetLoop mapping items).2,
                 expireAtMs := e.expireAtMs }
      | _ => .refuse
  | del _ => .drop

/-- The command on the live entries, key after key; `none` when it is refused. -/
def effect (now : ℤ) (w : Write) (d : Entries) : Option Entries :=
  w.keys.foldlM (fun d k => (w.change now (d.get? k)).apply k d) d

/-- The command an argument list stands for; `none` when an argument check fails or the
name is that of no write command. -/
def ofCommand (argv : Command) : Option Write :=
  match (argv.head?.bind CommandName.lookup), argv with
  | some .set, _ :: key :: value :: options =>
    match setOptions options none with
    | .ok exSeconds => some (set key value exSeconds)
    | .error _ => none
  | some .expire, [_, key, seconds] => (pyInt seconds).map (expire key)
  | some .lpush, _ :: key :: element :: elements => some (lpush key (element :: elements))
  | some .rpop, [_, key] => some (rpop key)
  | some .hset, _ :: key :: pairs =>
    if 2 ≤ pairs.length ∧ pairs.length % 2 = 0 then some (hset key (pairUp pairs)) else none
  | some .del, _ :: key :: keys => some (del (key :: keys))
  | _, _ => none

end Write

/-- The meaning of a command on the live entries. -/
def effect (now : ℤ) (argv : Command) (d : Entries) : Option Entries :=
  (Write.ofCommand argv).bind fun w => w.effect now d

/-- A log of commands without TTL applied to the entries one after the other; a command
that would be refused is passed over. -/
def replay (log : List Command) (d : Entries) : Entries :=
  log.foldl (fun d argv => (effect 0 argv d).getD d) d

/-- A log is replayed part by part. -/
theorem replay_append (log log' : List Command) (d : Entries) :
    replay (log ++ log') d = replay log' (replay log d) := List.foldl_append

/-! ## Key by key -/

/-- A change concerns its key only. -/
theorem Change.get?_apply {key : Bytes} {d d' : Entries} {c : Change}
    (h : c.apply key d = some d') (j : Bytes) :
    d'.get? j = if j = key then c.result (d.get? key) else d.get? j := by
  cases c with
  | keep =>
    cases h
    split_ifs with hj
    · rw [hj]; rfl
    · rfl
  | store e =>
    cases h
    rw [Dict.get?_insert]
    rfl
  | drop =>
    cases h
    rw [Dict.get?_erase]
    rfl
  | refuse => cases h

/-- Deletions are never refused. -/
theorem Write.effect_del (now : ℤ) (keys : List Bytes) (d : Entries) :
    (Write.del keys).effect now d = some (d.eraseMany keys) := by
  unfold Write.effect
  simp only [Write.keys]
  induction keys generalizing d with
  | nil => rfl
  | cons k keys ih =>
    rw [List.foldlM_cons]
    exact ih (d.erase k)

/-- A command on one key is its change of that key. -/
theorem Write.effect_single (now : ℤ) {w : Write} {key : Bytes} (h : w.keys = [key])
    (d : Entries) : w.effect now d = (w.change now (d.get? key)).apply key d := by
  simp [Write.effect, h]

/-- A command names one key or is a deletion. -/
theorem Write.keys_cases (w : Write) : (∃ key, w.keys = [key]) ∨ ∃ keys, w = .del keys := by
  cases w with
  | del keys => exact Or.inr ⟨keys, rfl⟩
  | set key _ _ => exact Or.inl ⟨key, rfl⟩
  | expire key _ => exact Or.inl ⟨key, rfl⟩
  | lpush key _ => exact Or.inl ⟨key, rfl⟩
  | rpop key => exact Or.inl ⟨key, rfl⟩
  | hset key _ => exact Or.inl ⟨key, rfl⟩

/-- **A command acts key by key**: a key it names gets the result of its change, every
other key keeps its entry. -/
theorem Write.get?_effect {now : ℤ} {w : Write} {d d' : Entries}
    (h : w.effect now d = some d') (j : Bytes) :
    d'.get? j =
      if j ∈ w.keys then (w.change now (d.get? j)).result (d.get? j) else d.get? j := by
  rcases w.keys_cases with ⟨key, hk⟩ | ⟨keys, rfl⟩
  · rw [Write.effect_single now hk] at h
    rw [Change.get?_apply h, hk]
    by_cases hj : j = key
    · subst hj; simp
    · simp [hj]
  · rw [Write.effect_del] at h
    cases h
    rw [Dict.eraseMany_eq_filter, Dict.get?_filter]
    by_cases hj : j ∈ keys
    · cases d.get? j <;> simp [Write.keys, Write.change, Change.result, Option.filter, hj]
    · cases d.get? j <;> simp [Write.keys, Option.filter, hj]

/-- A command is refused exactly when the change of its one key is. -/
theorem Write.effect_eq_none_iff {now : ℤ} {w : Write} {d : Entries} :
    w.effect now d = none ↔ ∃ key, w.keys = [key] ∧ w.change now (d.get? key) = .refuse := by
  rcases w.keys_cases with ⟨key, hk⟩ | ⟨keys, rfl⟩
  · rw [Write.effect_single now hk]
    constructor
    · intro h
      refine ⟨key, hk, ?_⟩
      cases hc : w.change now (d.get? key) with
      | refuse => rfl
      | keep => rw [hc] at h; cases h
      | store e => rw [hc] at h; cases h
      | drop => rw [hc] at h; cases h
    · rintro ⟨key', hk', hc⟩
      rw [hk] at hk'
      cases hk'
      rw [hc]
      rfl
  · rw [Write.effect_del]
    constructor
    · intro h; cases h
    · rintro ⟨key, -, hc⟩; cases hc

/-- An accepted command refuses none of its keys. -/
theorem Write.change_ne_refuse {now : ℤ} {w : Write} {d d' : Entries}
    (h : w.effect now d = some d') {j : Bytes} (hj : j ∈ w.keys) :
    w.change now (d.get? j) ≠ .refuse := by
  rcases w.keys_cases with ⟨key, hk⟩ | ⟨keys, rfl⟩
  · intro hr
    rw [hk, List.mem_singleton] at hj
    subst hj
    have hnone := Write.effect_eq_none_iff.mpr ⟨j, hk, hr⟩
    rw [h] at hnone
    cases hnone
  · intro hr
    cases hr

end ByoRedis.Interface
