import ByoRedis.Analysis.AofRewrite
import ByoRedis.Analysis.RdbRoundTrip

/-!
# The representation invariant of the store

`Store` keeps its entries and their access stamps in two dictionaries and updates them by
hand, one after the other, in every operation and on every expiry branch. `Coherent` is what
these updates keep: the two have the same keys, the stamps are distinct and none is ahead of
the access clock, and no list or hash is empty. `Reachable` are the stores that the server's
operations lead to, at whatever clock values, and `reachable_coherent` says that all of them
are coherent.
-/

set_option autoImplicit false

namespace ByoRedis.Analysis

open ByoRedis.Model ByoRedis.Lib

/-! ## The invariant -/

/-- A value that holds something: no empty list and no empty hash. -/
def Holding : RedisValue → Prop
  | .bytes _ => True
  | .deque items => items ≠ []
  | .dict mapping => mapping.entries ≠ []

/-- The representation invariant of `Store`. -/
structure Coherent (s : Store) : Prop where
  keys : ∀ k, k ∈ s.lastAccess.keys ↔ k ∈ s.entries.keys
  distinct : ∀ j k n, s.lastAccess.get? j = some n → s.lastAccess.get? k = some n → j = k
  bounded : ∀ k n, s.lastAccess.get? k = some n → n ≤ s.accessClock
  typed : ∀ k e, s.entries.get? k = some e → e.value.type = e.type
  holding : ∀ k e, s.entries.get? k = some e → Holding e.value

variable {s s' : Store}

/-- An empty store is coherent, whatever its limits. -/
theorem coherent_empty (maxmemoryBytes : ℕ) (policy : MaxmemoryPolicy) :
    Coherent { maxmemoryBytes := maxmemoryBytes, maxmemoryPolicy := policy } where
  keys _ := Iff.rfl
  distinct _ _ _ hj := nomatch hj
  bounded _ _ hk := nomatch hk
  typed _ e _ := e.typed
  holding _ _ hk := nomatch hk

/-! ## The single updates -/

/-- SOURCE: storage/store.py:53-56, 243-247, 254-255 -/
theorem Coherent.remove (h : Coherent s) (key : Bytes) : Coherent (s.remove key) := by
  have hold : ∀ {ν : Type} {d : Dict Bytes ν} {k : Bytes} {v : ν},
      (d.erase key).get? k = some v → d.get? k = some v := by
    intro ν d k v hk
    rw [Dict.get?_erase] at hk
    split_ifs at hk
    exact hk
  refine ⟨?_, fun j k n hj hk => h.distinct j k n (hold hj) (hold hk),
    fun k n hk => h.bounded k n (hold hk), fun k e hk => h.typed k e (hold hk),
    fun k e hk => h.holding k e (hold hk)⟩
  intro k
  have hkeys := h.keys k
  simp only [Dict.mem_keys_iff] at hkeys
  simp only [Dict.mem_keys_iff, Store.remove, Dict.get?_erase]
  by_cases hk : k = key
  · simp only [if_pos hk]
    constructor <;> rintro ⟨v, hv⟩ <;> cases hv
  · simp only [if_neg hk]
    exact hkeys

/-- A store without some of its keys is coherent. -/
theorem Coherent.foldl_remove (h : Coherent s) (keys : List Bytes) :
    Coherent (keys.foldl Store.remove s) := by
  induction keys generalizing s with
  | nil => exact h
  | cons key keys ih => exact ih (h.remove key)

/-- SOURCE: storage/store.py:240-247 -/
theorem Coherent.purge (h : Coherent s) (now : ℤ) : Coherent (s.purge now) :=
  h.foldl_remove _

/-- The stamp that a touched key gets is ahead of all others.
SOURCE: storage/store.py:321-324 -/
theorem Coherent.stamps (h : Coherent s) (key : Bytes) :
    (∀ j k n, (s.touchAccess key).lastAccess.get? j = some n →
      (s.touchAccess key).lastAccess.get? k = some n → j = k) ∧
    ∀ k n, (s.touchAccess key).lastAccess.get? k = some n → n ≤ (s.touchAccess key).accessClock := by
  have hfresh : ∀ k, s.lastAccess.get? k ≠ some (s.accessClock + 1) := by
    intro k hk
    have := h.bounded k _ hk
    omega
  constructor
  · intro j k n hj hk
    simp only [Store.touchAccess, Dict.get?_insert] at hj hk
    split_ifs at hj hk with h1 h2
    · rw [h1, h2]
    · cases hj
      exact absurd hk (hfresh k)
    · cases hk
      exact absurd hj (hfresh j)
    · exact h.distinct j k n hj hk
  · intro k n hk
    simp only [Store.touchAccess, Dict.get?_insert] at hk ⊢
    split_ifs at hk
    · cases hk
      exact le_rfl
    · have := h.bounded k n hk
      omega

/-- SOURCE: storage/store.py:249-258 -/
theorem Coherent.touchAccess (h : Coherent s) {key : Bytes} (hkey : key ∈ s.entries.keys) :
    Coherent (s.touchAccess key) := by
  refine ⟨?_, (h.stamps key).1, (h.stamps key).2, h.typed, h.holding⟩
  intro k
  have hkeys := h.keys k
  simp only [Dict.mem_keys_iff] at hkey hkeys
  simp only [Dict.mem_keys_iff, Store.touchAccess, Dict.get?_insert]
  by_cases hk : k = key
  · subst hk
    simp only [if_true]
    exact ⟨fun _ => hkey, fun _ => ⟨_, rfl⟩⟩
  · simp only [if_neg hk]
    exact hkeys

/-- The entries after a store, read by key. -/
theorem get?_put {key k : Bytes} {entry e : KeyEntry}
    (hk : (s.put key entry).entries.get? k = some e) :
    e = entry ∨ s.entries.get? k = some e := by
  simp only [Store.put, Dict.get?_insert] at hk
  split_ifs at hk
  · exact Or.inl (Option.some.inj hk).symm
  · exact Or.inr hk

/-- Replacing the entry of a key. -/
theorem Coherent.put (h : Coherent s) {key : Bytes} {entry : KeyEntry}
    (hkey : key ∈ s.entries.keys) (he : Holding entry.value) : Coherent (s.put key entry) := by
  refine ⟨?_, h.distinct, h.bounded, fun _ e _ => e.typed, ?_⟩
  · intro k
    have hkeys := h.keys k
    simp only [Dict.mem_keys_iff] at hkey hkeys
    simp only [Dict.mem_keys_iff, Store.put, Dict.get?_insert]
    by_cases hk : k = key
    · subst hk
      simp only [if_true]
      exact ⟨fun _ => ⟨_, rfl⟩, fun _ => hkeys.mpr hkey⟩
    · simp only [if_neg hk]
      exact hkeys
  · intro k e hk
    rcases get?_put hk with rfl | hk
    · exact he
    · exact h.holding k e hk

/-- Storing an entry under a key, new or not, and stamping it. The two dictionaries differ
in between. -/
theorem Coherent.put_touchAccess (h : Coherent s) {key : Bytes} {entry : KeyEntry}
    (he : Holding entry.value) : Coherent ((s.put key entry).touchAccess key) := by
  refine ⟨?_, (h.stamps key).1, (h.stamps key).2, fun _ e _ => e.typed, ?_⟩
  · intro k
    have hkeys := h.keys k
    simp only [Dict.mem_keys_iff] at hkeys
    simp only [Dict.mem_keys_iff, Store.touchAccess, Store.put, Dict.get?_insert]
    by_cases hk : k = key
    · simp only [if_pos hk]
      exact ⟨fun _ => ⟨_, rfl⟩, fun _ => ⟨_, rfl⟩⟩
    · simp only [if_neg hk]
      exact hkeys
  · intro k e hk
    rcases get?_put hk with rfl | hk
    · exact he
    · exact h.holding k e hk

/-- The stamps of a loaded keyspace are the positions of its keys.
SOURCE: storage/store.py:66-69 -/
theorem get?_enumerateKeys {d : Entries} {k : Bytes} {n : ℕ} :
    (Store.enumerateKeys d).get? k = some n ↔ d.keys[n]? = some k := by
  rw [Dict.get?_eq_some_iff]
  show (k, n) ∈ d.keys.zipIdx ↔ _
  rw [List.mem_zipIdx_iff_getElem?]

/-- SOURCE: storage/store.py:66-69 -/
theorem coherent_loadEntries (s : Store) {d : Entries}
    (hd : ∀ k e, d.get? k = some e → Holding e.value) : Coherent (s.loadEntries d) where
  keys k := by
    show k ∈ d.keys.zipIdx.map Prod.fst ↔ k ∈ d.keys
    rw [List.zipIdx_map_fst]
  distinct j k n hj hk := by
    simp only [Store.loadEntries, get?_enumerateKeys] at hj hk
    exact Option.some.inj (hj.symm.trans hk)
  bounded k n hk := by
    simp only [Store.loadEntries, get?_enumerateKeys] at hk ⊢
    obtain ⟨hlt, -⟩ := List.getElem?_eq_some_iff.mp hk
    rw [Dict.keys, List.length_map] at hlt
    exact hlt.le
  typed _ e _ := e.typed
  holding := hd

/-! ## The operations -/

/-- How a key is looked up: it is not there, or no longer, or it is stamped.
SOURCE: storage/store.py:249-258 -/
theorem Coherent.touch (h : Coherent s) (now : ℤ) (key : Bytes) :
    Coherent (s.touch now key).2 ∧ ∀ e, (s.touch now key).1 = some e →
      (s.touch now key).2.entries.get? key = some e := by
  unfold Store.touch
  cases hk : s.entries.get? key with
  | none => exact ⟨h, fun e he => by cases he⟩
  | some entry =>
    by_cases hx : isExpired entry.expireAtMs now = true
    · simp only [hx, if_true]
      exact ⟨h.remove key, fun e he => by cases he⟩
    · simp only [hx]
      refine ⟨h.touchAccess (Dict.mem_keys_of_get? hk), ?_⟩
      intro e he
      cases he
      exact hk

/-- SOURCE: storage/store.py:129-139 -/
theorem Coherent.setString (h : Coherent s) (now : ℤ) (key value : Bytes) (ex : Option ℤ) :
    Coherent (s.setString now key value ex) := by
  cases ex with
  | none => exact h.put_touchAccess trivial
  | some n =>
    simp only [Store.setString]
    split_ifs
    · exact h.remove key
    · exact h.put_touchAccess trivial

/-- SOURCE: storage/store.py:97-106 -/
theorem Coherent.expire (h : Coherent s) (now : ℤ) (key : Bytes) (seconds : ℤ) :
    Coherent (s.expire now key seconds).2 := by
  obtain ⟨htouch, hfound⟩ := h.touch now key
  unfold Store.expire
  rcases ht : s.touch now key with ⟨o, s'⟩
  rw [ht] at htouch hfound
  cases o with
  | none => exact htouch
  | some e =>
    have hget := hfound e rfl
    dsimp only
    split_ifs
    · exact htouch.remove key
    · exact htouch.put (Dict.mem_keys_of_get? hget) (htouch.holding key e hget)

/-- SOURCE: storage/store.py:114-122 -/
theorem Coherent.ttl (h : Coherent s) (now : ℤ) (key : Bytes) : Coherent (s.ttl now key).2 := by
  unfold Store.ttl
  cases s.entries.get? key with
  | none => exact h
  | some entry =>
    dsimp only
    split_ifs
    · exact h.remove key
    · exact h

/-- SOURCE: storage/store.py:151-166 -/
theorem Coherent.lpush (h : Coherent s) (now : ℤ) (key : Bytes) {elements : List Bytes}
    (hne : elements ≠ []) : Coherent (s.lpush now key elements).2 := by
  have hpushed : ∀ items, Store.appendLeft items elements ≠ [] := by
    intro items
    rw [appendLeft_eq]
    simp [hne]
  obtain ⟨htouch, hfound⟩ := h.touch now key
  unfold Store.lpush
  rcases ht : s.touch now key with ⟨o, s'⟩
  rw [ht] at htouch hfound
  cases o with
  | none => exact htouch.put_touchAccess (hpushed [])
  | some e =>
    have hget := hfound e rfl
    dsimp only
    split
    · exact htouch.put (Dict.mem_keys_of_get? hget) (hpushed _)
    · exact htouch

/-- SOURCE: storage/store.py:168-183 -/
theorem Coherent.rpop (h : Coherent s) (now : ℤ) (key : Bytes) :
    Coherent (s.rpop now key).2 := by
  obtain ⟨htouch, hfound⟩ := h.touch now key
  unfold Store.rpop
  rcases ht : s.touch now key with ⟨o, s'⟩
  rw [ht] at htouch hfound
  cases o with
  | none => exact htouch
  | some e =>
    have hget := hfound e rfl
    dsimp only
    split
    · rename_i items _
      split
      · exact htouch.remove key
      · split_ifs with hlast
        · exact htouch.remove key
        · refine htouch.put (Dict.mem_keys_of_get? hget) ?_
          intro hnil
          rw [hnil] at hlast
          exact hlast rfl
    · exact htouch

/-- HSET leaves a hash with a field. -/
theorem entries_hsetLoop_ne_nil {mapping : Dict Bytes Bytes} {items : List (Bytes × Bytes)}
    (hne : items ≠ []) : (Store.hsetLoop mapping items).2.entries ≠ [] := by
  rw [hsetLoop_snd]
  exact Dict.entries_insertMany_ne_nil (Or.inl hne)

/-- SOURCE: storage/store.py:186-203 -/
theorem Coherent.hset (h : Coherent s) (now : ℤ) (key : Bytes) {items : List (Bytes × Bytes)}
    (hne : items ≠ []) : Coherent (s.hset now key items).2 := by
  obtain ⟨htouch, hfound⟩ := h.touch now key
  unfold Store.hset
  rcases ht : s.touch now key with ⟨o, s'⟩
  rw [ht] at htouch hfound
  cases o with
  | none => exact htouch.put_touchAccess (entries_hsetLoop_ne_nil hne)
  | some e =>
    have hget := hfound e rfl
    dsimp only
    split
    · exact htouch.put (Dict.mem_keys_of_get? hget) (entries_hsetLoop_ne_nil hne)
    · exact htouch

/-- SOURCE: storage/store.py:141-148 -/
theorem Coherent.getString (h : Coherent s) (now : ℤ) (key : Bytes) :
    Coherent (s.getString now key).2 := by
  obtain ⟨htouch, -⟩ := h.touch now key
  unfold Store.getString
  rcases ht : s.touch now key with ⟨o, s'⟩
  rw [ht] at htouch
  cases o with
  | none => exact htouch
  | some e =>
    dsimp only
    split
    · exact htouch
    · exact htouch

/-- SOURCE: storage/store.py:205-217 -/
theorem Coherent.hgetall (h : Coherent s) (now : ℤ) (key : Bytes) :
    Coherent (s.hgetall now key).2 := by
  obtain ⟨htouch, -⟩ := h.touch now key
  unfold Store.hgetall
  rcases ht : s.touch now key with ⟨o, s'⟩
  rw [ht] at htouch
  cases o with
  | none => exact htouch
  | some e =>
    dsimp only
    split
    · exact htouch
    · exact htouch

/-- SOURCE: storage/store.py:72-85 -/
theorem Coherent.delete (h : Coherent s) (now : ℤ) (keys : List Bytes) :
    Coherent (s.delete now keys).2 := by
  unfold Store.delete
  generalize (0 : ℤ) = n
  induction keys generalizing s n with
  | nil => exact h
  | cons key keys ih =>
    rw [List.foldl_cons]
    unfold Store.deleteOne
    dsimp only
    split
    · exact ih h n
    · split_ifs
      · exact ih (h.remove key) n
      · exact ih (h.remove key) (n + 1)

/-- SOURCE: storage/store.py:220-238 -/
theorem Coherent.activeExpireCycle (h : Coherent s) (now : ℤ) (sample : List Bytes) :
    Coherent (s.activeExpireCycle now sample).2 := by
  unfold Store.activeExpireCycle
  generalize (0 : ℤ) = n
  induction sample generalizing s n with
  | nil => exact h
  | cons key sample ih =>
    rw [List.foldl_cons]
    unfold Store.expireSampled
    dsimp only
    split
    · exact ih h n
    · split_ifs
      · exact ih (h.remove key) (n + 1)
      · exact ih h n

/-- A store without a victim is coherent. -/
theorem Coherent.evict (h : Coherent s) (key : Bytes) : Coherent (s.evict key) :=
  let r := h.remove key
  ⟨r.keys, r.distinct, r.bounded, r.typed, r.holding⟩

/-- SOURCE: storage/store.py:298-318 -/
theorem Coherent.enforceLoop (h : Coherent s) (now : ℤ) (fuel : ℕ) :
    Coherent (Store.enforceLoop now fuel s).2 := by
  induction fuel generalizing s with
  | zero => exact h
  | succ fuel ih =>
    unfold Store.enforceLoop
    dsimp only
    split_ifs
    · exact h.purge now
    · split
      · exact h.purge now
      · exact ih ((h.purge now).evict _)

/-- SOURCE: storage/store.py:293-319 -/
theorem Coherent.enforceMemoryLimit (h : Coherent s) (now : ℤ) :
    Coherent (s.enforceMemoryLimit now).2 := by
  unfold Store.enforceMemoryLimit
  split_ifs
  · exact h
  · exact h.enforceLoop now _

/-! ## The command handlers -/

/-- The two checks of HSET leave at least one pair.
SOURCE: commands/hash_cmds.py:10-26 -/
theorem Coherent.cmdHset (h : Coherent s) (now : ℤ) (argv : Command) :
    Coherent (cmdHset now argv s).2 := by
  unfold Model.cmdHset
  split_ifs with hlen
  · exact h
  · split
    · rename_i key pairs
      split_ifs
      · exact h
      · refine h.hset now key ?_
        match pairs with
        | [] => simp at hlen
        | [a] => simp at hlen
        | a :: b :: rest => simp [pairUp]
    · exact h

/-- The handlers that work on the store alone, whatever their arguments. -/
theorem Coherent.onStore (h : Coherent s) (now : ℤ) (argv : Command) :
    Coherent (cmdSet now argv s).2 ∧ Coherent (cmdGet now argv s).2 ∧
    Coherent (cmdExpire now argv s).2 ∧ Coherent (cmdTtl now argv s).2 ∧
    Coherent (cmdLpush now argv s).2 ∧ Coherent (cmdRpop now argv s).2 ∧
    Coherent (Model.cmdHset now argv s).2 ∧ Coherent (cmdHgetall now argv s).2 ∧
    Coherent (cmdDel now argv s).2 ∧ Coherent (cmdDbsize now argv s).2 := by
  refine ⟨?_, ?_, ?_, ?_, ?_, ?_, h.cmdHset now argv, ?_, ?_, ?_⟩
  · unfold cmdSet
    split
    · split
      · exact h
      · exact h.setString now _ _ _
    · exact h
  · unfold cmdGet
    split
    · exact h.getString now _
    · exact h
  · unfold cmdExpire
    split
    · split
      · exact h
      · exact h.expire now _ _
    · exact h
  · unfold cmdTtl
    split
    · exact h.ttl now _
    · exact h
  · unfold cmdLpush
    split
    · exact h.lpush now _ (by simp)
    · exact h
  · unfold cmdRpop
    split
    · exact h.rpop now _
    · exact h
  · unfold cmdHgetall
    split
    · exact h.hgetall now _
    · exact h
  · unfold cmdDel
    split
    · exact h.delete now _
    · exact h
  · unfold cmdDbsize
    split
    · exact h.purge now
    · exact h

/-- INFO purges twice, SAVE and PSYNC take a snapshot, and AUTH stays away from the store.
SOURCE: commands/server_cmds.py:13-104, commands/repl_cmds.py:16-20 -/
theorem Coherent.onServer {srv : Server} (h : Coherent srv.store) (env : Env) (conn : ℕ)
    (argv : Command) :
    Coherent (srv.cmdInfo env argv).2.store ∧ Coherent (srv.cmdSave env argv).2.store ∧
    Coherent (srv.cmdPsync env conn argv).2.store ∧ Coherent (srv.cmdAuth conn argv).2.store := by
  have hpurge := h.purge env.now
  refine ⟨?_, ?_, ?_, ?_⟩
  · unfold Server.cmdInfo
    split_ifs
    · exact h
    · dsimp only
      split_ifs
      · exact hpurge.purge env.now
      · exact hpurge.purge env.now
  · unfold Server.cmdSave
    split_ifs
    · exact h
    · dsimp only
      split
      · exact hpurge
      · split
        · exact hpurge
        · exact hpurge
  · have hfull : Coherent (srv.fullResync env.now conn).2.store := by
      unfold Server.fullResync
      dsimp only
      split
      · exact hpurge
      · exact hpurge
    unfold Server.cmdPsync
    by_cases h1 : argv.length ≠ 3
    · rw [if_pos h1]
      exact h
    rw [if_neg h1]
    by_cases h2 : conn ∉ srv.connections
    · rw [if_pos h2]
      exact h
    rw [if_neg h2]
    rcases hr : srv.fullResync env.now conn with ⟨b, srv'⟩
    rw [hr] at hfull
    cases b <;> exact hfull
  · have hauth : ∀ password, (srv.authenticate conn password).2.store = srv.store := by
      intro password
      unfold Server.authenticate
      split
      · rfl
      · split_ifs <;> rfl
    unfold Server.cmdAuth
    split
    · rename_i password
      have hsame := hauth password
      split_ifs
      · exact h
      · rcases hr : srv.authenticate conn password with ⟨b, srv'⟩
        rw [hr] at hsame
        cases b <;> exact (show srv'.store = srv.store from hsame) ▸ h
    · exact h

/-- **Every command handler keeps the store coherent.** -/
theorem Coherent.handle {srv : Server} (h : Coherent srv.store) (env : Env) (conn : ℕ)
    (argv : Command) (c : CommandName) : Coherent (srv.handle env conn argv c).2.store := by
  obtain ⟨hset, hget, hexpire, httl, hlpush, hrpop, hhset, hhgetall, hdel, hdbsize⟩ :=
    h.onStore env.now argv
  obtain ⟨hinfo, hsave, hpsync, hauth⟩ := h.onServer env conn argv
  cases c with
  | set => exact hset
  | get => exact hget
  | expire => exact hexpire
  | ttl => exact httl
  | lpush => exact hlpush
  | rpop => exact hrpop
  | hset => exact hhset
  | hgetall => exact hhgetall
  | del => exact hdel
  | dbsize => exact hdbsize
  | info => exact hinfo
  | save => exact hsave
  | psync => exact hpsync
  | auth => exact hauth
  | bgsave =>
    simp only [Server.handle, Server.cmdBgsave]
    split_ifs <;> exact h
  | bgrewriteaof =>
    simp only [Server.handle, Server.cmdBgrewriteaof]
    split_ifs <;> exact h
  | ping => exact h
  | echo => exact h
  | select => exact h
  | command => exact h
  | config => exact h
  | replconf => exact h

/-! ## Snapshots -/

/-- The live entries of a coherent store hold something. -/
theorem Coherent.holding_live (h : Coherent s) (now : ℤ) {k : Bytes} {e : KeyEntry}
    (hk : (s.live now).get? k = some e) : Holding e.value := by
  rw [Store.live, Dict.get?_filter] at hk
  exact h.holding k e (Option.filter_eq_some_iff.mp hk).1

/-- What a dump of entries is loaded to: entries with values that were dumped. A negative
deadline is lost on the way, so this does not go through the round trip.
SOURCE: persistence/rdb.py:79-113, 144-175 -/
theorem value_of_loadRdbBytes {d d' : Entries} {rdb : Bytes} {maxFileBytes : ℕ} {now : ℤ}
    (hdump : dumpRdbEntries d = some rdb) (hload : loadRdbBytes maxFileBytes now rdb = .ok d')
    {k : Bytes} {e : KeyEntry} (hk : d'.get? k = some e) :
    ∃ e₀, d.get? k = some e₀ ∧ e.value = e₀.value := by
  obtain ⟨body, hbody, rfl⟩ := Option.map_eq_some_iff.mp hdump
  have hlen : (body ++ leBytes 4 (crc32 body).toNat ++ rdbFooter).length ≤ maxFileBytes := by
    by_contra hlong
    rw [loadRdbBytes, if_pos (by omega)] at hload
    cases hload
  rw [List.append_assoc] at hload hlen
  have hcut : (body ++ (leBytes 4 (crc32 body).toNat ++ rdbFooter)).take
      ((body ++ (leBytes 4 (crc32 body).toNat ++ rdbFooter)).length -
        (leBytes 4 (crc32 body).toNat ++ rdbFooter).length) = body := by
    rw [List.length_append, Nat.add_sub_cancel, List.take_left]
  rw [loadRdbBytes_of_walked (walked_rdbBody hbody now _) (Or.inr rfl) hlen, hcut,
    finish_of_readChecksum (readChecksum_body body rdbFooter)] at hload
  cases hload
  have hmem := (Dict.get?_eq_some_iff _ _ _).mp hk
  rcases Dict.mem_entries_insertMany hmem with hmem | hmem
  · obtain ⟨⟨k₀, e₀⟩, he₀, heq⟩ := List.mem_map.mp (List.mem_filter.mp hmem).1
    cases heq
    exact ⟨e₀, (d.get?_eq_some_iff k₀ e₀).mpr he₀, rfl⟩
  · cases hmem

/-! ## Reachable stores -/

/-- The stores that the operations of the server lead to. Every operation reads the clock as
it likes. `load` is the rollback of a command for lack of memory, and `loadDump` a start or
a full resync from a snapshot that a store, this one or another, has been saved to. `evict`
is one turn of the eviction, which looks at the clock anew each time. -/
inductive Reachable : Store → Prop where
  | empty (maxmemoryBytes : ℕ) (policy : MaxmemoryPolicy) :
      Reachable { maxmemoryBytes := maxmemoryBytes, maxmemoryPolicy := policy }
  | handler {srv : Server} (env : Env) (conn : ℕ) (argv : Command) (c : CommandName) :
      Reachable srv.store → Reachable (srv.handle env conn argv c).2.store
  | snapshot {s : Store} (now : ℤ) : Reachable s → Reachable (s.snapshot now).2
  | load {s s' : Store} (now : ℤ) :
      Reachable s → Reachable s' → Reachable (s.loadEntries (s'.snapshot now).1)
  | loadDump {s s' : Store} (now now' : ℤ) (rdb : Bytes) (maxFileBytes : ℕ) (d : Entries) :
      Reachable s → Reachable s' → dumpRdbEntries (s'.snapshot now).1 = some rdb →
      loadRdbBytes maxFileBytes now' rdb = .ok d → Reachable (s.loadEntries d)
  | activeExpireCycle {s : Store} (now : ℤ) (sample : List Bytes) :
      Reachable s → Reachable (s.activeExpireCycle now sample).2
  | memoryUsage {s : Store} (now : ℤ) : Reachable s → Reachable (s.memoryUsage now).2
  | keyspaceStats {s : Store} (now : ℤ) : Reachable s → Reachable (s.keyspaceStats now).2
  | enforceMemoryLimit {s : Store} (now : ℤ) :
      Reachable s → Reachable (s.enforceMemoryLimit now).2
  | evict {s : Store} (now : ℤ) (key : Bytes) :
      Reachable s → (s.purge now).victim = some key → Reachable ((s.purge now).evict key)

/-- Dispatch runs a handler or leaves the store alone. -/
theorem Reachable.dispatch {srv : Server} (h : Reachable srv.store) (env : Env) (flags : Flags)
    (conn : ℕ) (argv : Command) : Reachable (srv.dispatch env flags conn argv).2.store := by
  unfold Server.dispatch
  split
  · exact h
  · split
    · exact h
    · split_ifs
      · exact h
      · exact h.handler env conn _ _

/-- **`_execute` stays within the reachable stores**, its rollback included.
SOURCE: server.py:436-535 -/
theorem Reachable.execute {srv : Server} (h : Reachable srv.store) (env : Env) (flags : Flags)
    (conn : ℕ) (argv : Command) (ios : List RecordIO) :
    Reachable (srv.execute env flags conn argv ios).server.store := by
  rw [store_execute]
  unfold Server.prepare
  by_cases h1 : srv.noauth flags conn argv = true
  · rw [if_pos h1]
    exact h
  rw [if_neg h1]
  by_cases h2 : srv.misconf flags argv = true
  · rw [if_pos h2]
    exact h
  rw [if_neg h2]
  have hbefore : Reachable (if isWrite argv = true then
      { srv with store := srv.store.purge env.now } else srv).store := by
    split_ifs
    · exact h.snapshot env.now
    · exact h
  have hdone := hbefore.dispatch env flags conn argv
  have hsettle : ∀ (srv' : Server) (result : Option PyValue), Reachable srv'.store →
      Reachable (srv'.settle env flags argv (srv.store.live env.now) result).2.store := by
    intro srv' result hr
    have hlimited : Reachable (if isWrite argv = true then srv'.store.enforceMemoryLimit env.now
        else (some [], srv'.store)).2 := by
      split_ifs
      · exact hr.enforceMemoryLimit env.now
      · exact hr
    unfold Server.settle
    dsimp only
    split
    · rename_i store hlim
      rw [hlim] at hlimited
      exact hlimited.load env.now h
    · rename_i evicted store hlim
      rw [hlim] at hlimited
      cases result <;> exact hlimited
  dsimp only at hdone ⊢
  split
  · rename_i message srv' hd
    rw [hd] at hdone
    exact hdone
  · rename_i srv' hd
    rw [hd] at hdone
    exact hdone
  · rename_i srv' hd
    rw [hd] at hdone
    exact hsettle srv' none hdone
  · rename_i v srv' hd
    rw [hd] at hdone
    exact hsettle srv' (some v) hdone

/-- **The representation invariant of the store.**
SOURCE: storage/store.py:45-324, persistence/rdb.py:144-175, server.py:486-494 -/
theorem reachable_coherent {s : Store} (h : Reachable s) : Coherent s := by
  induction h with
  | empty maxmemoryBytes policy => exact coherent_empty maxmemoryBytes policy
  | handler env conn argv c _ ih => exact ih.handle env conn argv c
  | snapshot now _ ih => exact ih.purge now
  | load now _ _ _ ih' => exact coherent_loadEntries _ fun k e hk => ih'.holding_live now hk
  | loadDump now now' rdb maxFileBytes d _ _ hdump hload _ ih' =>
    refine coherent_loadEntries _ fun k e hk => ?_
    obtain ⟨e₀, hk₀, hv⟩ := value_of_loadRdbBytes hdump hload hk
    rw [hv]
    exact ih'.holding_live now hk₀
  | activeExpireCycle now sample _ ih => exact ih.activeExpireCycle now sample
  | memoryUsage now _ ih => exact ih.purge now
  | keyspaceStats now _ ih => exact ih.purge now
  | enforceMemoryLimit now _ ih => exact ih.enforceMemoryLimit now
  | evict now key _ _ ih => exact (ih.purge now).evict key

/-- A list that is filled, given a deadline and popped to its last element. -/
theorem reachable_coherent_list :
    Coherent (((((Server.init {} default none none).execute {} .client 0
      [ascii "LPUSH", ascii "k", ascii "a", ascii "b"] []).server.execute {} .client 0
      [ascii "EXPIRE", ascii "k", ascii "10"] []).server.execute { now := 5 } .client 0
      [ascii "RPOP", ascii "k"] []).server.store) :=
  reachable_coherent ((((Reachable.empty 0 .noeviction).execute {} .client 0 _ []).execute
    {} .client 0 _ []).execute { now := 5 } .client 0 _ [])

end ByoRedis.Analysis
