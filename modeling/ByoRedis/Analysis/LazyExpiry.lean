import ByoRedis.Interface.LiveKeyspace
import ByoRedis.Analysis.AofRewrite
import ByoRedis.Analysis.LogTiming

/-!
# Lazy expiry is unobservable

In the store an expired key stays until an operation touches it, a sample hits it or a purge
collects it. `visible` is what a client sees of a store, a `Keyspace`. Every handler answers
as `Keyspace.answer` does on the visible keys and leaves the keys that it leaves, and the
purges of the server change no visible key. `lazy_expiry` puts these together for whole
sequences of commands.
-/

set_option autoImplicit false

namespace ByoRedis.Analysis

open ByoRedis.Model ByoRedis.Lib ByoRedis.Interface

/-! ## Dictionaries by their lookups -/

/-- A key that is new adds one to the size. -/
theorem size_insert (d : Dict Bytes Bytes) (k v : Bytes) :
    (d.insert k v).size = if (d.get? k).isNone then d.size + 1 else d.size := by
  unfold Dict.size
  cases hk : d.get? k with
  | none =>
    rw [Dict.entries_insert_of_notMem d v ((d.get?_eq_none_iff k).mp hk)]
    simp
  | some w =>
    rw [Dict.entries_insert_of_mem d v (Dict.mem_keys_of_get? hk)]
    simp

/-- The keys of a dictionary, counted by its lookups. -/
theorem ncard_keys (d : Entries) : {k | d.get? k ≠ none}.ncard = d.size := by
  have hset : {k | d.get? k ≠ none} = ↑d.keys.toFinset := by
    apply Set.ext
    intro k
    rw [Set.mem_ofPred_eq, ne_eq, d.get?_eq_none_iff, not_not, List.coe_toFinset,
      Set.mem_ofPred_eq]
  have hnodup : d.keys.Nodup := d.nodup
  rw [hset, Set.ncard_coe_finset, List.toFinset_card_of_nodup hnodup]
  exact List.length_map _

/-! ## The live entries -/

/-- The keyspace a client sees at time `now`. -/
def visible (now : ℤ) (s : Store) : Keyspace := fun key => view now (s.entries.get? key)

/-- What a snapshot has is what is visible. -/
theorem get?_live_eq_visible (now : ℤ) (s : Store) (key : Bytes) :
    (s.live now).get? key = visible now s key := get?_live s now key

/-- An entry is in view when its deadline is ahead. -/
theorem filter_ahead (now : ℤ) (x : Option KeyEntry) :
    (x.filter fun e => e.expireAtMs.all fun d => now < d) = view now x := by
  unfold view
  congr 1
  funext e
  cases e.expireAtMs with
  | none => rfl
  | some d =>
    by_cases hd : d ≤ now
    · simp [isExpired, hd]
    · simp [isExpired, hd, not_le.mp hd]

/-- Keys leave the keyspace as they leave the live entries. -/
theorem elapse_visible {t t' : ℤ} (h : t ≤ t') (s : Store) :
    (visible t s).elapse t' = visible t' s := by
  funext key
  unfold Keyspace.elapse visible
  rw [filter_ahead, view_view h]

/-- What is visible has not expired. -/
theorem visible_live {now : ℤ} {s : Store} {key : Bytes} {e : KeyEntry}
    (h : visible now s key = some e) : isExpired e.expireAtMs now = false := by
  unfold visible view at h
  rw [Option.filter_eq_some_iff] at h
  simpa using h.2

/-- The visible keyspace after a key is written. -/
theorem visible_put (now : ℤ) (s : Store) (key : Bytes) {e : KeyEntry}
    (he : isExpired e.expireAtMs now = false) :
    visible now (s.put key e) = Function.update (visible now s) key (some e) := by
  funext j
  unfold visible
  show view now ((s.entries.insert key e).get? j) = _
  rw [Dict.get?_insert, Function.update_apply]
  split_ifs
  · exact view_some_of_live he
  · rfl

/-- The visible keyspace after a key is removed. -/
theorem visible_remove (now : ℤ) (s : Store) (key : Bytes) :
    visible now (s.remove key) = Function.update (visible now s) key none := by
  funext j
  unfold visible
  show view now ((s.entries.erase key).get? j) = _
  rw [Dict.get?_erase, Function.update_apply]
  split_ifs
  · rfl
  · rfl

/-- The access times are not visible. -/
theorem visible_touchAccess (now : ℤ) (s : Store) (key : Bytes) :
    visible now (s.touchAccess key) = visible now s := rfl

/-- Looking at a store shows the same keys afterwards. -/
theorem Looks.visible {now : ℤ} {s s' : Store} (h : Looks now s s') :
    visible now s' = visible now s := by
  funext key
  rw [← get?_live_eq_visible, h.live, get?_live_eq_visible]

/-- A lookup finds the key a client sees.
SOURCE: storage/store.py:249-258 -/
theorem touch_fst (now : ℤ) (s : Store) (key : Bytes) :
    (s.touch now key).1 = visible now s key := by
  unfold Store.touch Analysis.visible
  cases hk : s.entries.get? key with
  | none => rfl
  | some e =>
    cases hx : isExpired e.expireAtMs now with
    | true => rw [view_some_of_expired hx]; simp [hx]
    | false => rw [view_some_of_live hx]; simp [hx]

/-! ## One command -/

/-- A reply of the keyspace as a handler gives it. -/
def handledOf : Except Str PyValue → Handled
  | .ok v => .value v
  | .error message => .error message

/-- The handler that `create_default_registry` registers for a command.
SOURCE: commands/registry.py:67-98 -/
def registeredHandler (now : ℤ) : DataCommand → Command → Store → Handled × Store
  | .set => cmdSet now
  | .get => cmdGet now
  | .expire => cmdExpire now
  | .ttl => cmdTtl now
  | .lpush => cmdLpush now
  | .rpop => cmdRpop now
  | .hset => cmdHset now
  | .hgetall => cmdHgetall now
  | .del => cmdDel now
  | .dbsize => cmdDbsize now

/-- The server's dispatch takes each of them by its name.
SOURCE: commands/registry.py:37-58 -/
example (srv : Server) (env : Env) (conn : ℕ) (argv : Command) (c : DataCommand) :
    srv.handle env conn argv c.name =
      srv.onStore (registeredHandler env.now c argv srv.store) := by
  cases c <;> rfl

/-- What a handler returned agrees with what the keyspace answers: the same reply, and the
live entries of the store are its keys. -/
structure Agrees (now : ℤ) (s : Store) (r : Handled × Store)
    (r' : Except Str PyValue × Keyspace) : Prop where
  reply : r.1 = handledOf r'.1
  keys : visible now r.2 = r'.2
  limits : SameLimits s r.2

/-- A message without a change. -/
theorem agrees_error (now : ℤ) (s : Store) (message : Str) :
    Agrees now s (.error message, s) (.error message, visible now s) :=
  ⟨rfl, rfl, SameLimits.refl s⟩

/-- A reply without a change, after a look at the store. -/
theorem Looks.agrees {now : ℤ} {s s' : Store} (h : Looks now s s') {r : Handled}
    {r' : Except Str PyValue} (hr : r = handledOf r') :
    Agrees now s (r, s') (r', Analysis.visible now s) :=
  ⟨hr, h.visible, h.limits⟩

/-- SOURCE: storage/store.py:129-139 -/
theorem agrees_set (now : ℤ) (s : Store) (key value : Bytes) {ex : Option ℤ}
    (hex : ∀ n, ex = some n → 0 < n) :
    Agrees now s (.ok, s.setString now key value ex)
      ((visible now s).perform now (.set key value ex)) := by
  refine ⟨rfl, ?_, (entries_setString s now key value hex).2⟩
  have hput : visible now (s.setString now key value ex) =
      visible now (s.put key { type := .string, value := .bytes value,
                               expireAtMs := ex.map fun n => now + n * 1000 }) := by
    funext j
    unfold visible
    rw [(entries_setString s now key value hex).1]
    rfl
  rw [hput]
  apply visible_put
  cases ex with
  | none => rfl
  | some n =>
    have hn : 0 < n := hex n rfl
    simp only [Option.map_some, isExpired, decide_eq_false_iff_not]
    omega

/-- A lookup, as the operations on one key use it. -/
theorem touch_cases (now : ℤ) (s : Store) (key : Bytes) :
    ∃ s', s.touch now key = (visible now s key, s') ∧ Looks now s s' :=
  ⟨(s.touch now key).2, Prod.ext (touch_fst now s key) rfl, looks_touch s now key⟩

/-- SOURCE: storage/store.py:141-148 -/
theorem agrees_get (now : ℤ) (s : Store) (key : Bytes) :
    Agrees now s (.ofStore .ofOption (s.getString now key).1, (s.getString now key).2)
      ((visible now s).perform now (.get key)) := by
  obtain ⟨s', ht, hlooks⟩ := touch_cases now s key
  cases hv : visible now s key with
  | none =>
    simp only [Store.getString, Keyspace.perform, Keyspace.string, ht, hv]
    exact hlooks.agrees rfl
  | some e =>
    cases he : e.value <;>
      simp only [Store.getString, Keyspace.perform, Keyspace.string, ht, hv, he] <;>
      exact hlooks.agrees rfl

/-- SOURCE: storage/store.py:205-217 -/
theorem agrees_hgetall (now : ℤ) (s : Store) (key : Bytes) :
    Agrees now s (.ofStore (fun items => .list (items.map .bytes)) (s.hgetall now key).1,
        (s.hgetall now key).2)
      ((visible now s).perform now (.hgetall key)) := by
  obtain ⟨s', ht, hlooks⟩ := touch_cases now s key
  cases hv : visible now s key with
  | none =>
    simp only [Store.hgetall, Keyspace.perform, Keyspace.hash, ht, hv]
    exact hlooks.agrees rfl
  | some e =>
    cases he : e.value <;>
      simp only [Store.hgetall, Keyspace.perform, Keyspace.hash, ht, hv, he] <;>
      exact hlooks.agrees rfl

/-- Storing or deleting after a look. -/
theorem Looks.agrees_put {now : ℤ} {s s' : Store} (h : Looks now s s') (key : Bytes)
    {e : KeyEntry} (he : isExpired e.expireAtMs now = false) {r : Handled}
    {r' : Except Str PyValue} (hr : r = handledOf r') :
    Agrees now s (r, s'.put key e)
      (r', Function.update (Analysis.visible now s) key (some e)) :=
  ⟨hr, by rw [visible_put now s' key he, h.visible], h.limits⟩

/-- A handler that looks and removes the key agrees with the removal of it. -/
theorem Looks.agrees_remove {now : ℤ} {s s' : Store} (h : Looks now s s') (key : Bytes)
    {r : Handled} {r' : Except Str PyValue} (hr : r = handledOf r') :
    Agrees now s (r, s'.remove key) (r', Function.update (Analysis.visible now s) key none) :=
  ⟨hr, by rw [visible_remove, h.visible], h.limits⟩

/-- SOURCE: storage/store.py:97-106 -/
theorem agrees_expire (now : ℤ) (s : Store) (key : Bytes) (seconds : ℤ) :
    Agrees now s (.value (.int (s.expire now key seconds).1), (s.expire now key seconds).2)
      ((visible now s).perform now (.expire key seconds)) := by
  obtain ⟨s', ht, hlooks⟩ := touch_cases now s key
  cases hv : visible now s key with
  | none =>
    simp only [Store.expire, Keyspace.perform, ht, hv]
    exact hlooks.agrees rfl
  | some e =>
    simp only [Store.expire, Keyspace.perform, ht, hv]
    by_cases hn : seconds ≤ 0
    · simp only [if_pos hn]
      exact hlooks.agrees_remove key rfl
    · simp only [if_neg hn]
      refine hlooks.agrees_put key ?_ ?_
      · simp only [KeyEntry.withDeadline, isExpired, decide_eq_false_iff_not]
        omega
      · rfl

/-- SOURCE: storage/store.py:114-122 -/
theorem agrees_ttl (now : ℤ) (s : Store) (key : Bytes) :
    Agrees now s (.value (.int (s.ttl now key).1), (s.ttl now key).2)
      ((visible now s).perform now (.ttl key)) := by
  cases hk : s.entries.get? key with
  | none =>
    have hv : visible now s key = none := by rw [visible, hk, view_none]
    simp only [Store.ttl, Keyspace.perform, hk, hv]
    exact (Looks.refl now s).agrees rfl
  | some e =>
    cases hx : isExpired e.expireAtMs now with
    | true =>
      have hv : visible now s key = none := by rw [visible, hk, view_some_of_expired hx]
      simp only [Store.ttl, Keyspace.perform, hk, hv, hx, if_true]
      exact (looks_remove hk hx).agrees rfl
    | false =>
      have hv : visible now s key = some e := by rw [visible, hk, view_some_of_live hx]
      cases hd : e.expireAtMs with
      | none =>
        simp only [Store.ttl, Keyspace.perform, hk, hv, hd]
        exact (Looks.refl now s).agrees rfl
      | some d =>
        -- the whole seconds of a positive number of milliseconds
        have hpos : 0 < d - now := by
          rw [hd, isExpired, decide_eq_false_iff_not] at hx
          omega
        have hsecs : ttlSeconds (some d) now = (d - now) / 1000 := by
          unfold ttlSeconds
          dsimp only
          rw [if_neg (by omega)]
          split_ifs <;> omega
        rw [hd] at hx
        simp only [Store.ttl, Keyspace.perform, hk, hv, hd, hx, Bool.false_eq_true, if_false,
          hsecs]
        exact (Looks.refl now s).agrees rfl

/-! ## Lists and hashes -/

/-- SOURCE: storage/store.py:151-166 -/
theorem agrees_lpush (now : ℤ) (s : Store) (key element : Bytes) (elements : List Bytes) :
    Agrees now s (.ofStore .int (s.lpush now key (element :: elements)).1,
        (s.lpush now key (element :: elements)).2)
      ((visible now s).perform now (.lpush key element elements)) := by
  obtain ⟨s', ht, hlooks⟩ := touch_cases now s key
  have hne : ∀ items, (element :: elements).reverse ++ items ≠ [] := by
    intro items
    simp
  cases hv : visible now s key with
  | none =>
    simp only [Store.lpush, Keyspace.perform, Keyspace.list, Keyspace.putList,
      Keyspace.deadline, ht, hv, appendLeft_eq, if_neg (hne _), Option.bind_none]
    refine ⟨rfl, ?_, hlooks.limits⟩
    rw [visible_touchAccess, visible_put now s' key rfl, hlooks.visible]
  | some e =>
    have hlive : isExpired e.expireAtMs now = false := visible_live hv
    cases he : e.value with
    | bytes b =>
      simp only [Store.lpush, Keyspace.perform, Keyspace.list, ht, hv, he]
      exact hlooks.agrees rfl
    | dict m =>
      simp only [Store.lpush, Keyspace.perform, Keyspace.list, ht, hv, he]
      exact hlooks.agrees rfl
    | deque items =>
      simp only [Store.lpush, Keyspace.perform, Keyspace.list, Keyspace.putList,
        Keyspace.deadline, ht, hv, he, appendLeft_eq, if_neg (hne _), Option.bind_some]
      refine hlooks.agrees_put key ?_ ?_
      · exact hlive
      · rfl

/-- SOURCE: storage/store.py:168-183 -/
theorem agrees_rpop (now : ℤ) (s : Store) (key : Bytes) :
    Agrees now s (.ofStore .ofOption (s.rpop now key).1, (s.rpop now key).2)
      ((visible now s).perform now (.rpop key)) := by
  obtain ⟨s', ht, hlooks⟩ := touch_cases now s key
  cases hv : visible now s key with
  | none =>
    have hself : Function.update (visible now s) key none = visible now s := by
      rw [← hv, Function.update_eq_self]
    simp only [Store.rpop, Keyspace.perform, Keyspace.list, Keyspace.putList, ht, hv,
      List.dropLast_nil, if_true, hself]
    exact hlooks.agrees rfl
  | some e =>
    have hlive : isExpired e.expireAtMs now = false := visible_live hv
    cases he : e.value with
    | bytes b =>
      simp only [Store.rpop, Keyspace.perform, Keyspace.list, ht, hv, he]
      exact hlooks.agrees rfl
    | dict m =>
      simp only [Store.rpop, Keyspace.perform, Keyspace.list, ht, hv, he]
      exact hlooks.agrees rfl
    | deque items =>
      simp only [Store.rpop, Keyspace.perform, Keyspace.list, Keyspace.putList,
        Keyspace.deadline, ht, hv, he, Option.bind_some]
      cases hl : items.getLast? with
      | none =>
        rw [List.getLast?_eq_none_iff] at hl
        subst hl
        exact hlooks.agrees_remove key rfl
      | some last =>
        by_cases hd : items.dropLast = []
        · simp only [hd, List.isEmpty_nil, if_true]
          exact hlooks.agrees_remove key rfl
        · have hd' : items.dropLast.isEmpty = false := by simpa using hd
          simp only [hd', Bool.false_eq_true, if_false, if_neg hd]
          refine hlooks.agrees_put key ?_ ?_
          · exact hlive
          · rfl

/-- The loop of HSET counts the fields that are new.
SOURCE: storage/store.py:198-203 -/
theorem hsetLoop_fst (mapping : Dict Bytes Bytes) (items : List (Bytes × Bytes)) :
    (Store.hsetLoop mapping items).1 =
      ((mapping.insertMany items).size : ℤ) - mapping.size := by
  have hcount : ∀ n : ℤ, (items.foldl (fun acc p =>
      (if (acc.2.get? p.1).isNone then acc.1 + 1 else acc.1, acc.2.insert p.1 p.2))
        (n, mapping)).1 = n + ((mapping.insertMany items).size : ℤ) - mapping.size := by
    induction items generalizing mapping with
    | nil =>
      intro n
      simp
    | cons p items ih =>
      intro n
      rw [List.foldl_cons, ih, Dict.insertMany_cons, size_insert]
      dsimp only
      split_ifs
      · push_cast
        ring
      · rfl
  rw [Store.hsetLoop, hcount 0]
  omega

/-- SOURCE: storage/store.py:186-203 -/
theorem agrees_hset (now : ℤ) (s : Store) (key : Bytes) (items : List (Bytes × Bytes)) :
    Agrees now s (.ofStore .int (s.hset now key items).1, (s.hset now key items).2)
      ((visible now s).perform now (.hset key items)) := by
  obtain ⟨s', ht, hlooks⟩ := touch_cases now s key
  cases hv : visible now s key with
  | none =>
    simp only [Store.hset, Keyspace.perform, Keyspace.hash, Keyspace.putHash,
      Keyspace.deadline, ht, hv, hsetLoop_fst, hsetLoop_snd, Option.bind_none]
    refine ⟨rfl, ?_, hlooks.limits⟩
    rw [visible_touchAccess, visible_put now s' key rfl, hlooks.visible]
  | some e =>
    have hlive : isExpired e.expireAtMs now = false := visible_live hv
    cases he : e.value with
    | bytes b =>
      simp only [Store.hset, Keyspace.perform, Keyspace.hash, ht, hv, he]
      exact hlooks.agrees rfl
    | deque l =>
      simp only [Store.hset, Keyspace.perform, Keyspace.hash, ht, hv, he]
      exact hlooks.agrees rfl
    | dict mapping =>
      simp only [Store.hset, Keyspace.perform, Keyspace.hash, Keyspace.putHash,
        Keyspace.deadline, ht, hv, he, hsetLoop_fst, hsetLoop_snd, Option.bind_some]
      refine hlooks.agrees_put key ?_ ?_
      · exact hlive
      · rfl

/-! ## Keys -/

/-- The loop of DEL deletes the keys and counts those that existed, each once.
SOURCE: storage/store.py:72-85 -/
theorem foldl_deleteOne_fst (now : ℤ) (keys : List Bytes) (n : ℤ) (s : Store) :
    (keys.foldl (Store.deleteOne now) (n, s)).1 =
      n + (keys.toFinset.filter fun key => (visible now s key).isSome).card := by
  induction keys generalizing n s with
  | nil => simp
  | cons k keys ih =>
    rw [List.foldl_cons, List.toFinset_cons]
    cases hv : visible now s k with
    | none =>
      -- absent or expired: the loop goes on with the same keys and the same count
      obtain ⟨s', hstep, hs'⟩ : ∃ s', Store.deleteOne now (n, s) k = (n, s') ∧
          visible now s' = visible now s := by
        unfold Store.deleteOne
        cases hk : s.entries.get? k with
        | none => exact ⟨s, rfl, rfl⟩
        | some e =>
          have hx : isExpired e.expireAtMs now = true := by
            by_contra hx
            rw [visible, hk, view_some_of_live (by simpa using hx)] at hv
            cases hv
          exact ⟨s.remove k, if_pos hx, (looks_remove hk hx).visible⟩
      rw [hstep, ih, hs', Finset.filter_insert, if_neg (by simp [hv])]
    | some e =>
      have hk : s.entries.get? k = some e := by
        rw [visible, view, Option.filter_eq_some_iff] at hv
        exact hv.1
      have hstep : Store.deleteOne now (n, s) k = (n + 1, s.remove k) := by
        simp only [Store.deleteOne, hk, visible_live hv, Bool.false_eq_true, if_false]
      rw [hstep, ih, visible_remove, Finset.filter_insert, if_pos (by simp [hv])]
      set T := keys.toFinset.filter fun key => (visible now s key).isSome with hT
      have hrest : (keys.toFinset.filter fun key =>
          (Function.update (visible now s) k none key).isSome) = T.erase k := by
        apply Finset.ext
        intro j
        rw [Finset.mem_erase, hT, Finset.mem_filter, Finset.mem_filter, Function.update_apply]
        by_cases hj : j = k <;> simp [hj]
      have hcard : (T.erase k).card + 1 = (insert k T).card := by
        rw [← Finset.erase_insert_eq_erase]
        exact Finset.card_erase_add_one (Finset.mem_insert_self k T)
      rw [hrest, ← hcard]
      push_cast
      ring

/-- SOURCE: storage/store.py:72-85 -/
theorem agrees_del (now : ℤ) (s : Store) (keys : List Bytes) :
    Agrees now s (.value (.int (s.delete now keys).1), (s.delete now keys).2)
      ((visible now s).perform now (.del keys)) := by
  obtain ⟨hent, hlimits⟩ := foldl_deleteOne now keys 0 s
  refine ⟨?_, ?_, hlimits⟩
  · simp only [Store.delete, Keyspace.perform, foldl_deleteOne_fst, zero_add, handledOf]
  · funext j
    unfold visible Store.delete
    rw [hent, Dict.eraseMany_eq_filter, Dict.get?_filter]
    simp only [Keyspace.perform]
    by_cases hj : j ∈ keys
    · cases s.entries.get? j <;> simp [Option.filter, hj]
    · cases s.entries.get? j <;> simp [Option.filter, hj]

/-- SOURCE: storage/store.py:260-262 -/
theorem agrees_dbsize (now : ℤ) (s : Store) :
    Agrees now s (.value (.int (s.dbsize now).1), (s.dbsize now).2)
      ((visible now s).perform now .dbsize) := by
  have hcount : (visible now s).count = (s.purge now).entries.size := by
    rw [entries_purge, ← ncard_keys]
    simp only [get?_live_eq_visible]
    rfl
  exact (looks_purge s now).agrees (by rw [hcount]; rfl)

/-- **Every handler answers as the keyspace does**, on any store and any arguments.
SOURCE: commands/string_cmds.py, commands/list_cmds.py, commands/hash_cmds.py,
commands/server_cmds.py:143-152 -/
theorem agrees_handler (now : ℤ) (c : DataCommand) (argv : Command) (s : Store) :
    Agrees now s (registeredHandler now c argv s) ((visible now s).answer now c argv) := by
  unfold Keyspace.answer registeredHandler
  cases c with
  | set =>
    obtain _ | ⟨_, _ | ⟨key, _ | ⟨value, options⟩⟩⟩ := argv
    · exact agrees_error now s _
    · exact agrees_error now s _
    · exact agrees_error now s _
    · simp only [cmdSet, DataCommand.parse]
      cases ho : setOptions options none with
      | error message => exact agrees_error now s message
      | ok ex => exact agrees_set now s key value (setOptions_pos (by simp) ho)
  | get =>
    obtain _ | ⟨_, _ | ⟨key, _ | ⟨_, _⟩⟩⟩ := argv
    · exact agrees_error now s _
    · exact agrees_error now s _
    · exact agrees_get now s key
    · exact agrees_error now s _
  | expire =>
    obtain _ | ⟨_, _ | ⟨key, _ | ⟨seconds, _ | ⟨_, _⟩⟩⟩⟩ := argv
    · exact agrees_error now s _
    · exact agrees_error now s _
    · exact agrees_error now s _
    · simp only [cmdExpire, DataCommand.parse]
      cases pyInt seconds with
      | none => exact agrees_error now s _
      | some n => exact agrees_expire now s key n
    · exact agrees_error now s _
  | ttl =>
    obtain _ | ⟨_, _ | ⟨key, _ | ⟨_, _⟩⟩⟩ := argv
    · exact agrees_error now s _
    · exact agrees_error now s _
    · exact agrees_ttl now s key
    · exact agrees_error now s _
  | lpush =>
    obtain _ | ⟨_, _ | ⟨key, _ | ⟨element, elements⟩⟩⟩ := argv
    · exact agrees_error now s _
    · exact agrees_error now s _
    · exact agrees_error now s _
    · exact agrees_lpush now s key element elements
  | rpop =>
    obtain _ | ⟨_, _ | ⟨key, _ | ⟨_, _⟩⟩⟩ := argv
    · exact agrees_error now s _
    · exact agrees_error now s _
    · exact agrees_rpop now s key
    · exact agrees_error now s _
  | hset =>
    obtain _ | ⟨_, _ | ⟨key, _ | ⟨field, _ | ⟨value, pairs⟩⟩⟩⟩ := argv
    · exact agrees_error now s _
    · exact agrees_error now s _
    · exact agrees_error now s _
    · exact agrees_error now s _
    · simp only [cmdHset, DataCommand.parse, List.length_cons]
      by_cases hp : pairs.length % 2 = 0
      · rw [if_neg (by omega), if_neg (by omega), if_pos hp]
        exact agrees_hset now s key ((field, value) :: pairUp pairs)
      · rw [if_pos (by omega), if_neg hp]
        exact agrees_error now s _
  | hgetall =>
    obtain _ | ⟨_, _ | ⟨key, _ | ⟨_, _⟩⟩⟩ := argv
    · exact agrees_error now s _
    · exact agrees_error now s _
    · exact agrees_hgetall now s key
    · exact agrees_error now s _
  | del =>
    obtain _ | ⟨_, _ | ⟨key, keys⟩⟩ := argv
    · exact agrees_error now s _
    · exact agrees_error now s _
    · exact agrees_del now s (key :: keys)
  | dbsize =>
    obtain _ | ⟨_, _ | ⟨_, _⟩⟩ := argv
    · exact agrees_error now s _
    · exact agrees_dbsize now s
    · exact agrees_error now s _

/-! ## Sequences of commands -/

/-- What happens to a store: a command, a turn of the background expiry on any sample, the
purge with which `snapshot` and `dbsize` collect every expired key, and the memory limit,
which `_execute_inner` enforces after each write.
SOURCE: storage/store.py:45-60, 220-247, 293-319, server.py:455-485 -/
inductive Occurrence where
  | command (t : ℤ) (c : DataCommand) (argv : Command)
  | cycle (t : ℤ) (sample : List Bytes)
  | purge (t : ℤ)
  | enforce (t : ℤ)

/-- The time on the clock, constant during a command. -/
def Occurrence.time : Occurrence → ℤ
  | command t _ _ => t
  | cycle t _ => t
  | purge t => t
  | enforce t => t

/-- The store's side: the replies and the store. -/
def Occurrence.onStore (s : Store) : Occurrence → List Handled × Store
  | command t c argv => ([(registeredHandler t c argv s).1], (registeredHandler t c argv s).2)
  | cycle t sample => ([], (s.activeExpireCycle t sample).2)
  | purge t => ([], s.purge t)
  | enforce t => ([], (s.enforceMemoryLimit t).2)

/-- The keyspace's side: only time and commands change it. -/
noncomputable def Occurrence.onKeys (K : Keyspace) :
    Occurrence → List (Except Str PyValue) × Keyspace
  | command t c argv =>
    ([((K.elapse t).answer t c argv).1], ((K.elapse t).answer t c argv).2)
  | o => ([], K.elapse o.time)

/-- The store through a sequence, with all replies. -/
def throughStore : List Occurrence → Store → List Handled × Store
  | [], s => ([], s)
  | o :: occs, s =>
    ((o.onStore s).1 ++ (throughStore occs (o.onStore s).2).1,
      (throughStore occs (o.onStore s).2).2)

/-- The keyspace through a sequence, with all replies. -/
noncomputable def throughKeys : List Occurrence → Keyspace →
    List (Except Str PyValue) × Keyspace
  | [], K => ([], K)
  | o :: occs, K =>
    ((o.onKeys K).1 ++ (throughKeys occs (o.onKeys K).2).1,
      (throughKeys occs (o.onKeys K).2).2)

/-- **One step**: the replies are the same and both sides still show the same keys. -/
theorem onStore_onKeys {t : ℤ} {s : Store} (o : Occurrence) (hmem : s.maxmemoryBytes = 0)
    (ht : t ≤ o.time) :
    (o.onStore s).1 = (o.onKeys (visible t s)).1.map handledOf ∧
      visible o.time (o.onStore s).2 = (o.onKeys (visible t s)).2 ∧
      (o.onStore s).2.maxmemoryBytes = 0 := by
  cases o with
  | command u c argv =>
    have h := agrees_handler u c argv s
    have helapse : (visible t s).elapse u = visible u s := elapse_visible ht s
    simp only [Occurrence.onStore, Occurrence.onKeys, helapse]
    exact ⟨by rw [h.reply]; rfl, h.keys, h.limits.1.trans hmem⟩
  | cycle u sample =>
    have h := looks_activeExpireCycle s u sample
    exact ⟨rfl, h.visible.trans (elapse_visible ht s).symm, h.limits.1.trans hmem⟩
  | purge u =>
    have h := looks_purge s u
    exact ⟨rfl, h.visible.trans (elapse_visible ht s).symm, h.limits.1.trans hmem⟩
  | enforce u =>
    simp only [Occurrence.onStore, enforceMemoryLimit_unlimited hmem]
    exact ⟨rfl, (elapse_visible ht s).symm, hmem⟩

/-- **Lazy expiry is unobservable.** Through every sequence of commands and purges at
non-decreasing times, a store without a memory limit gives the replies of the keyspace whose
keys go at their deadline, and at every later time its live entries are the keys left there.
SOURCE: storage/store.py:72-262 -/
theorem lazy_expiry {t₀ : ℤ} {s : Store} {occs : List Occurrence} (hmem : s.maxmemoryBytes = 0)
    (hclock : (t₀ :: occs.map Occurrence.time).Pairwise (· ≤ ·)) :
    (throughStore occs s).1 = (throughKeys occs (visible t₀ s)).1.map handledOf ∧
      ∀ t, (∀ u ∈ t₀ :: occs.map Occurrence.time, u ≤ t) →
        ((throughStore occs s).2.live t).get? =
          (throughKeys occs (visible t₀ s)).2.elapse t := by
  induction occs generalizing t₀ s with
  | nil =>
    refine ⟨rfl, fun t ht => ?_⟩
    have hle : t₀ ≤ t := ht t₀ List.mem_cons_self
    funext key
    rw [get?_live_eq_visible]
    exact (congrFun (elapse_visible hle s) key).symm
  | cons o occs ih =>
    rw [List.map_cons, List.pairwise_cons] at hclock
    obtain ⟨hreply, hkeys, hmem'⟩ := onStore_onKeys o hmem (hclock.1 _ List.mem_cons_self)
    obtain ⟨hreplies, hlive⟩ := ih hmem' hclock.2
    rw [hkeys] at hreplies hlive
    simp only [throughStore, throughKeys, List.map_append]
    refine ⟨by rw [hreply, hreplies], fun t ht => hlive t fun u hu => ?_⟩
    exact ht u (List.mem_cons_of_mem _ hu)

/-- A key that lives for one second: read in its last millisecond, missed by the background
expiry when the second is over, overwritten before anything touches it, and counted. -/
def oneSecond : List Occurrence :=
  [.command 0 .set [ascii "SET", ascii "k", ascii "v", ascii "EX", ascii "1"],
    .command 999 .get [ascii "GET", ascii "k"],
    .cycle 1000 [],
    .command 1000 .ttl [ascii "TTL", ascii "k"],
    .command 1000 .lpush [ascii "LPUSH", ascii "k", ascii "a"],
    .command 2000 .dbsize [ascii "DBSIZE"]]

/-- The store and the keyspace give the same replies; the key is there at 999 and not at 1000. -/
theorem lazy_expiry_oneSecond :
    (throughStore oneSecond {}).1 =
        [.ok, .value (.bytes (ascii "v")), .value (.int (-2)), .value (.int 1),
          .value (.int 1)] ∧
      (throughKeys oneSecond (visible 0 {})).1.map handledOf =
        [.ok, .value (.bytes (ascii "v")), .value (.int (-2)), .value (.int 1),
          .value (.int 1)] := by
  have hstore : (throughStore oneSecond {}).1 =
      [.ok, .value (.bytes (ascii "v")), .value (.int (-2)), .value (.int 1),
        .value (.int 1)] := by rfl
  have h := @lazy_expiry 0 {} oneSecond rfl (by decide)
  exact ⟨hstore, h.1.symm.trans hstore⟩

end ByoRedis.Analysis
