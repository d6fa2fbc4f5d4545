import ByoRedis.Lib.Dict
import ByoRedis.Model.Text

/-!
# The keyspace

`byo_redis/storage/`: the entries, their deadlines, and the operations of `Store`. Every
operation that reads the clock takes `now`, the value `now_ms()` returns during it. The
two dictionaries `_entries` and `_last_access` are kept apart as in the source, and each
operation updates them one by one. An operation that can raise returns its result beside
the store, since the store may have changed before the exception.
-/

set_option autoImplicit false

namespace ByoRedis.Model

open ByoRedis.Lib

/-! ## Entries
SOURCE: storage/types.py, storage/expiry.py -/

/-- The types of a value. -/
inductive RedisType where
  | string
  | list
  | hash
  deriving DecidableEq

/-- The value of a key. The head of a `deque` is its left end. -/
inductive RedisValue where
  | bytes (b : Bytes)
  | deque (items : List Bytes)
  | dict (mapping : Dict Bytes Bytes)
  deriving DecidableEq

/-- The type tag that belongs to a shape of value. -/
def RedisValue.type : RedisValue → RedisType
  | .bytes _ => .string
  | .deque _ => .list
  | .dict _ => .hash

/-- `KeyEntry`. The field `typed` is what the assertions of `store.py`, `rdb.py` and
`aof.py` check: the tag names the shape of the value. -/
structure KeyEntry where
  type : RedisType
  value : RedisValue
  expireAtMs : Option ℤ := none
  typed : value.type = type := by
    first
      | exact @rfl _ RedisType.string
      | exact @rfl _ RedisType.list
      | exact @rfl _ RedisType.hash
  deriving DecidableEq

/-- An entry is determined by its value and its deadline. -/
theorem KeyEntry.ext' {e f : KeyEntry} (hv : e.value = f.value)
    (hx : e.expireAtMs = f.expireAtMs) : e = f := by
  obtain ⟨t, v, x, ht⟩ := e
  obtain ⟨t', v', x', ht'⟩ := f
  simp only at hv hx
  subst hv hx ht ht'
  rfl

/-- The entry with another deadline. -/
def KeyEntry.withDeadline (e : KeyEntry) (d : Option ℤ) : KeyEntry :=
  { type := e.type, value := e.value, expireAtMs := d, typed := e.typed }

/-- `is_expired`.
SOURCE: storage/expiry.py:12-17 -/
def isExpired (expireAtMs : Option ℤ) (now : ℤ) : Bool :=
  match expireAtMs with
  | none => false
  | some d => d ≤ now

/-- `ttl_seconds`.
SOURCE: storage/expiry.py:20-32 -/
def ttlSeconds (expireAtMs : Option ℤ) (now : ℤ) : ℤ :=
  match expireAtMs with
  | none => -1
  | some d =>
    let remaining := d - now
    if remaining ≤ 0 then -2
    else
      let secs := remaining / 1000
      if 0 < secs then secs else 0

/-- `maxmemory_policy`. -/
inductive MaxmemoryPolicy where
  | noeviction
  | allkeysLru
  | volatileTtl
  deriving DecidableEq

/-- The dictionary `Store._entries`. -/
abbrev Entries := Dict Bytes KeyEntry

/-- `Store`. -/
structure Store where
  entries : Entries := Dict.empty
  maxmemoryBytes : ℕ := 0
  maxmemoryPolicy : MaxmemoryPolicy := .noeviction
  accessClock : ℕ := 0
  lastAccess : Dict Bytes ℕ := Dict.empty
  evictedKeys : ℕ := 0
  deriving DecidableEq

/-- `WrongTypeError`. -/
inductive StoreError where
  | wrongType
  deriving DecidableEq

namespace Store

/-- `del self._entries[key]` with `self._last_access.pop(key, None)`. -/
def remove (s : Store) (key : Bytes) : Store :=
  { s with entries := s.entries.erase key, lastAccess := s.lastAccess.erase key }

/-- `_touch_access`.
SOURCE: storage/store.py:321-324 -/
def touchAccess (s : Store) (key : Bytes) : Store :=
  { s with
    accessClock := s.accessClock + 1
    lastAccess := s.lastAccess.insert key (s.accessClock + 1) }

/-- `self._entries[key] = entry`. -/
def put (s : Store) (key : Bytes) (entry : KeyEntry) : Store :=
  { s with entries := s.entries.insert key entry }

/-- `_touch`.
SOURCE: storage/store.py:249-258 -/
def touch (s : Store) (now : ℤ) (key : Bytes) : Option KeyEntry × Store :=
  match s.entries.get? key with
  | none => (none, s)
  | some entry =>
    if isExpired entry.expireAtMs now then (none, s.remove key)
    else (some entry, s.touchAccess key)

/-- The keys whose deadline has passed, in dictionary order. -/
def expiredKeys (s : Store) (now : ℤ) : List Bytes :=
  (s.entries.entries.filter fun e => isExpired e.2.expireAtMs now).map Prod.fst

/-- Deleting every expired key: `_purge_expired_all_lazy_touch`, and what `iter_entries`
does after its last item.
SOURCE: storage/store.py:53-56, 240-247 -/
def purge (s : Store) (now : ℤ) : Store := (s.expiredKeys now).foldl remove s

/-- The entries whose deadline has not passed, in dictionary order. -/
def live (s : Store) (now : ℤ) : Entries :=
  s.entries.filter fun _ e => !isExpired e.expireAtMs now

/-- `snapshot`: the live entries; the expired ones are deleted on the way.
SOURCE: storage/store.py:45-60 -/
def snapshot (s : Store) (now : ℤ) : Entries × Store := (s.live now, s.purge now)

/-- `{key: index for index, key in enumerate(entries)}`. -/
def enumerateKeys (entries : Entries) : Dict Bytes ℕ :=
  ⟨entries.keys.zipIdx, by
    rw [List.zipIdx_map_fst]
    exact entries.nodup⟩

/-- `load_entries`.
SOURCE: storage/store.py:66-69 -/
def loadEntries (s : Store) (entries : Entries) : Store :=
  { s with
    entries := entries
    lastAccess := enumerateKeys entries
    accessClock := entries.size }

/-! ## Generic key operations -/

/-- One turn of the loop of `delete`.
SOURCE: storage/store.py:74-84 -/
def deleteOne (now : ℤ) (acc : ℤ × Store) (key : Bytes) : ℤ × Store :=
  match acc.2.entries.get? key with
  | none => acc
  | some entry =>
    if isExpired entry.expireAtMs now then (acc.1, acc.2.remove key)
    else (acc.1 + 1, acc.2.remove key)

/-- `delete`.
SOURCE: storage/store.py:72-85 -/
def delete (s : Store) (now : ℤ) (keys : List Bytes) : ℤ × Store :=
  keys.foldl (deleteOne now) (0, s)

/-- `expire`.
SOURCE: storage/store.py:97-106 -/
def expire (s : Store) (now : ℤ) (key : Bytes) (seconds : ℤ) : ℤ × Store :=
  match s.touch now key with
  | (none, s) => (0, s)
  | (some entry, s) =>
    if seconds ≤ 0 then (1, s.remove key)
    else (1, s.put key (entry.withDeadline (some (now + seconds * 1000))))

/-- `ttl`.
SOURCE: storage/store.py:114-122 -/
def ttl (s : Store) (now : ℤ) (key : Bytes) : ℤ × Store :=
  match s.entries.get? key with
  | none => (-2, s)
  | some entry =>
    if isExpired entry.expireAtMs now then (-2, s.remove key)
    else (ttlSeconds entry.expireAtMs now, s)

/-! ## Strings -/

/-- `set_string`. The branch for a non-positive `ex_seconds` deletes the key.
SOURCE: storage/store.py:129-139 -/
def setString (s : Store) (now : ℤ) (key value : Bytes) (exSeconds : Option ℤ) : Store :=
  match exSeconds with
  | none => (s.put key { type := .string, value := .bytes value }).touchAccess key
  | some seconds =>
    if seconds ≤ 0 then s.remove key
    else (s.put key { type := .string, value := .bytes value,
                      expireAtMs := some (now + seconds * 1000) }).touchAccess key

/-- `get_string`.
SOURCE: storage/store.py:141-148 -/
def getString (s : Store) (now : ℤ) (key : Bytes) : Except StoreError (Option Bytes) × Store :=
  match s.touch now key with
  | (none, s) => (.ok none, s)
  | (some entry, s) =>
    match entry.value with
    | .bytes b => (.ok (some b), s)
    | _ => (.error .wrongType, s)

/-! ## Lists -/

/-- `for el in elements: dq.appendleft(el)`. -/
def appendLeft (dq elements : List Bytes) : List Bytes :=
  elements.foldl (fun d el => el :: d) dq

/-- `lpush`.
SOURCE: storage/store.py:151-166 -/
def lpush (s : Store) (now : ℤ) (key : Bytes) (elements : List Bytes) :
    Except StoreError ℤ × Store :=
  match s.touch now key with
  | (none, s) =>
    let dq := appendLeft [] elements
    (.ok dq.length, (s.put key { type := .list, value := .deque dq }).touchAccess key)
  | (some entry, s) =>
    match entry.value with
    | .deque items =>
      let dq := appendLeft items elements
      (.ok dq.length,
        s.put key { type := .list, value := .deque dq, expireAtMs := entry.expireAtMs })
    | _ => (.error .wrongType, s)

/-- `rpop`.
SOURCE: storage/store.py:168-183 -/
def rpop (s : Store) (now : ℤ) (key : Bytes) : Except StoreError (Option Bytes) × Store :=
  match s.touch now key with
  | (none, s) => (.ok none, s)
  | (some entry, s) =>
    match entry.value with
    | .deque items =>
      match items.getLast? with
      | none => (.ok none, s.remove key)
      | some value =>
        let dq := items.dropLast
        if dq.isEmpty then (.ok (some value), s.remove key)
        else (.ok (some value),
          s.put key { type := .list, value := .deque dq, expireAtMs := entry.expireAtMs })
    | _ => (.error .wrongType, s)

/-! ## Hashes -/

/-- The loop of `hset`: the number of new fields and the mapping.
SOURCE: storage/store.py:198-203 -/
def hsetLoop (mapping : Dict Bytes Bytes) (items : List (Bytes × Bytes)) :
    ℤ × Dict Bytes Bytes :=
  items.foldl (fun acc p =>
    (if (acc.2.get? p.1).isNone then acc.1 + 1 else acc.1, acc.2.insert p.1 p.2)) (0, mapping)

/-- `hset`.
SOURCE: storage/store.py:186-203 -/
def hset (s : Store) (now : ℤ) (key : Bytes) (items : List (Bytes × Bytes)) :
    Except StoreError ℤ × Store :=
  match s.touch now key with
  | (none, s) =>
    let r := hsetLoop Dict.empty items
    (.ok r.1, (s.put key { type := .hash, value := .dict r.2 }).touchAccess key)
  | (some entry, s) =>
    match entry.value with
    | .dict mapping =>
      let r := hsetLoop mapping items
      (.ok r.1,
        s.put key { type := .hash, value := .dict r.2, expireAtMs := entry.expireAtMs })
    | _ => (.error .wrongType, s)

/-- `hgetall`.
SOURCE: storage/store.py:205-217 -/
def hgetall (s : Store) (now : ℤ) (key : Bytes) : Except StoreError (List Bytes) × Store :=
  match s.touch now key with
  | (none, s) => (.ok [], s)
  | (some entry, s) =>
    match entry.value with
    | .dict mapping => (.ok (mapping.entries.flatMap fun p => [p.1, p.2]), s)
    | _ => (.error .wrongType, s)

/-! ## Expiry maintenance -/

/-- One turn of the loop of `active_expire_cycle`. -/
def expireSampled (now : ℤ) (acc : ℤ × Store) (key : Bytes) : ℤ × Store :=
  match acc.2.entries.get? key with
  | none => acc
  | some entry => if isExpired entry.expireAtMs now then (acc.1 + 1, acc.2.remove key) else acc

/-- `active_expire_cycle`; `sample` is the list of keys it looks at, drawn at random when
there are more keys than `sample_size`.
SOURCE: storage/store.py:220-238 -/
def activeExpireCycle (s : Store) (now : ℤ) (sample : List Bytes) : ℤ × Store :=
  sample.foldl (expireSampled now) (0, s)

/-- `dbsize`.
SOURCE: storage/store.py:260-262 -/
def dbsize (s : Store) (now : ℤ) : ℕ × Store := ((s.purge now).entries.size, s.purge now)

/-- `keyspace_stats`: keys, keys with a deadline, and their mean remaining time.
SOURCE: storage/store.py:264-274 -/
def keyspaceStats (s : Store) (now : ℤ) : (ℕ × ℕ × ℤ) × Store :=
  let s := s.purge now
  let ttls := s.entries.entries.filterMap fun e =>
    e.2.expireAtMs.map fun d => max 0 (d - now)
  ((s.entries.size, ttls.length, if ttls.isEmpty then 0 else ttls.sum / ttls.length), s)

/-! ## Memory -/

/-- What one entry adds to `memory_usage`.
SOURCE: storage/store.py:280-290 -/
def entryUsage (key : Bytes) (entry : KeyEntry) : ℕ :=
  key.length + 64 +
    match entry.value with
    | .bytes b => b.length
    | .deque items => (items.map fun i => i.length + 16).sum
    | .dict mapping => (mapping.entries.map fun p => p.1.length + p.2.length + 32).sum

/-- The sum over a dictionary of entries. -/
def usageOf (entries : Entries) : ℕ := (entries.entries.map fun e => entryUsage e.1 e.2).sum

/-- `memory_usage`.
SOURCE: storage/store.py:276-291 -/
def memoryUsage (s : Store) (now : ℤ) : ℕ × Store :=
  (usageOf (s.purge now).entries, s.purge now)

/-- `min(candidates, key=f)`: the first of the smallest. -/
def minBy (f : Bytes → ℤ) : List Bytes → Option Bytes
  | [] => none
  | a :: rest =>
    match minBy f rest with
    | none => some a
    | some b => if f b < f a then some b else some a

/-- The candidates for eviction.
SOURCE: storage/store.py:299-303 -/
def candidates (s : Store) : List Bytes :=
  (s.entries.entries.filter fun e =>
    s.maxmemoryPolicy ≠ .volatileTtl ∨ e.2.expireAtMs.isSome).map Prod.fst

/-- The key the policy evicts next; `none` is `MemoryLimitError`.
SOURCE: storage/store.py:304-314 -/
def victim (s : Store) : Option Bytes :=
  match s.maxmemoryPolicy with
  | .volatileTtl =>
    minBy (fun k => ((s.entries.get? k).bind KeyEntry.expireAtMs).getD 0) s.candidates
  | .allkeysLru => minBy (fun k => ((s.lastAccess.get? k).getD 0 : ℕ)) s.candidates
  | .noeviction => none

/-- Deleting the chosen key.
SOURCE: storage/store.py:315-317 -/
def evict (s : Store) (key : Bytes) : Store :=
  { s.remove key with evictedKeys := s.evictedKeys + 1 }

/-- The loop of `enforce_memory_limit`. Each turn deletes a key, so the fuel, one more
than the number of keys, is never used up.
SOURCE: storage/store.py:298-318 -/
def enforceLoop (now : ℤ) : ℕ → Store → Option (List Bytes) × Store
  | 0, s => (some [], s)
  | fuel + 1, s =>
    let s := s.purge now
    if usageOf s.entries ≤ s.maxmemoryBytes then (some [], s)
    else
      match s.victim with
      | none => (none, s)
      | some key =>
        let r := enforceLoop now fuel (s.evict key)
        (r.1.map (key :: ·), r.2)

/-- `enforce_memory_limit`: the evicted keys; `none` is `MemoryLimitError`.
SOURCE: storage/store.py:293-319 -/
def enforceMemoryLimit (s : Store) (now : ℤ) : Option (List Bytes) × Store :=
  if s.maxmemoryBytes = 0 then (some [], s)
  else enforceLoop now (s.entries.size + 1) s

end Store

end ByoRedis.Model
