import ByoRedis.Analysis.AofFile
import ByoRedis.Analysis.LogReplay

/-!
# The commands of a rewrite

BGREWRITEAOF replaces the log by one command per key. An empty collection would get no
command at all; `Solid` says that there is none, and that no key or value is longer than a
limit, and `Solid.effect` that the write commands keep it so. Then the commands of a rewrite
rebuild the keyspace, in content and in order (`replay_rewriteCommands`).
-/

set_option autoImplicit false

namespace ByoRedis.Analysis

open ByoRedis.Model ByoRedis.Lib ByoRedis.Interface

/-! ## Solid keyspaces -/

/-- The byte strings a value is made of. -/
def valueParts : RedisValue → List Bytes
  | .bytes b => [b]
  | .deque items => items
  | .dict mapping => mapping.entries.flatMap fun p => [p.1, p.2]

/-- The byte strings a write command stores or names. -/
def writeParts : Write → List Bytes
  | .set key value _ => [key, value]
  | .expire key _ => [key]
  | .lpush key elements => key :: elements
  | .rpop key => [key]
  | .hset key items => key :: items.flatMap fun p => [p.1, p.2]
  | .del keys => keys

/-- No collection is empty, and no key or part of a value is longer than `limit`. -/
def Solid (limit : ℕ) (d : Entries) : Prop :=
  ∀ k e, d.get? k = some e →
    k.length ≤ limit ∧ valueParts e.value ≠ [] ∧ ∀ b ∈ valueParts e.value, b.length ≤ limit

/-- Nothing is stored in an empty keyspace. -/
theorem solid_empty (limit : ℕ) : Solid limit Dict.empty := by
  intro k e h
  cases h

/-- A pair is made of two arguments. -/
theorem mem_pairUp {l : List Bytes} {p : Bytes × Bytes} (h : p ∈ pairUp l) :
    p.1 ∈ l ∧ p.2 ∈ l := by
  induction l using pairUp.induct with
  | case1 field value rest ih =>
    rw [pairUp] at h
    rcases List.mem_cons.mp h with rfl | h
    · simp
    · obtain ⟨h1, h2⟩ := ih h
      simp [h1, h2]
  | case2 l hl =>
    rw [pairUp] at h
    · cases h
    · exact hl

/-- What a command stores stood among its arguments.
SOURCE: commands/string_cmds.py:11-36, commands/list_cmds.py:9-16, commands/hash_cmds.py:10-26 -/
theorem writeParts_subset {argv : Command} {w : Write} (h : Write.ofCommand argv = some w) :
    ∀ b ∈ writeParts w, b ∈ argv := by
  unfold Write.ofCommand at h
  intro b hb
  split at h
  · split at h
    · cases h
      simp only [writeParts, List.mem_cons, List.not_mem_nil, or_false] at hb
      rcases hb with rfl | rfl <;> simp
    · cases h
  · obtain ⟨n, -, rfl⟩ := Option.map_eq_some_iff.mp h
    rw [writeParts, List.mem_singleton] at hb
    simp [hb]
  · cases h
    exact List.mem_cons_of_mem _ hb
  · cases h
    rw [writeParts, List.mem_singleton] at hb
    simp [hb]
  · split_ifs at h
    cases h
    rw [writeParts, List.mem_cons] at hb
    rcases hb with rfl | hb
    · simp
    · obtain ⟨p, hp, hbp⟩ := List.mem_flatMap.mp hb
      obtain ⟨h1, h2⟩ := mem_pairUp hp
      simp only [List.mem_cons, List.not_mem_nil, or_false] at hbp
      rcases hbp with rfl | rfl
      · exact List.mem_cons_of_mem _ (List.mem_cons_of_mem _ h1)
      · exact List.mem_cons_of_mem _ (List.mem_cons_of_mem _ h2)
  · cases h
    exact List.mem_cons_of_mem _ hb
  · cases h

/-- The keys of a command are among its parts. -/
theorem keys_subset_writeParts {w : Write} {k : Bytes} (h : k ∈ w.keys) : k ∈ writeParts w := by
  cases w with
  | del keys => exact h
  | set key value ex => rw [Write.keys, List.mem_singleton] at h; simp [writeParts, h]
  | expire key n => rw [Write.keys, List.mem_singleton] at h; simp [writeParts, h]
  | lpush key elements => rw [Write.keys, List.mem_singleton] at h; simp [writeParts, h]
  | rpop key => rw [Write.keys, List.mem_singleton] at h; simp [writeParts, h]
  | hset key items => rw [Write.keys, List.mem_singleton] at h; simp [writeParts, h]

/-! ## The loop of HSET -/

/-- SOURCE: storage/store.py:198-203 -/
theorem hsetLoop_snd (mapping : Dict Bytes Bytes) (items : List (Bytes × Bytes)) :
    (Store.hsetLoop mapping items).2 = mapping.insertMany items := by
  unfold Store.hsetLoop
  generalize (0 : ℤ) = n
  induction items generalizing mapping n with
  | nil => rfl
  | cons p items ih => rw [List.foldl_cons, ih]; rfl

/-! ## The write commands -/

/-- What a command stores is not empty and is made of its own parts and of what it found.
SOURCE: storage/store.py:97-203 -/
theorem valueParts_of_store {now : ℤ} {w : Write} {old : Option KeyEntry} {e : KeyEntry}
    (hw : Laden w) (hold : ∀ e', old = some e' → valueParts e'.value ≠ [])
    (h : w.change now old = .store e) :
    valueParts e.value ≠ [] ∧ ∀ b ∈ valueParts e.value, b ∈ writeParts w ∨
      ∃ e', old = some e' ∧ b ∈ valueParts e'.value := by
  cases w with
  | set key value ex =>
    cases h
    refine ⟨by simp [valueParts], fun b hb => Or.inl ?_⟩
    rw [valueParts, List.mem_singleton] at hb
    simp [writeParts, hb]
  | expire key n =>
    cases old with
    | none => cases h
    | some e' =>
      simp only [Write.change] at h
      split_ifs at h
      cases h
      exact ⟨hold e' rfl, fun b hb => Or.inr ⟨e', rfl, hb⟩⟩
  | lpush key elements =>
    have hne : elements ≠ [] := hw
    cases old with
    | none =>
      cases h
      simp only [valueParts, appendLeft_eq, List.append_nil]
      refine ⟨by simpa using hne, fun b hb => Or.inl ?_⟩
      rw [List.mem_reverse] at hb
      exact List.mem_cons_of_mem _ hb
    | some e' =>
      cases hv : e'.value <;> simp only [Write.change, hv] at h
      · cases h
      · cases h
        simp only [valueParts, appendLeft_eq]
        refine ⟨by simp [hne], fun b hb => ?_⟩
        rcases List.mem_append.mp hb with hb | hb
        · exact Or.inl (List.mem_cons_of_mem _ (List.mem_reverse.mp hb))
        · exact Or.inr ⟨e', rfl, by rw [hv]; exact hb⟩
      · cases h
  | rpop key =>
    cases old with
    | none => cases h
    | some e' =>
      cases hv : e'.value <;> simp only [Write.change, hv] at h
      · cases h
      · split_ifs at h with hempty
        cases h
        rw [List.isEmpty_iff] at hempty
        refine ⟨hempty, fun b hb => Or.inr ⟨e', rfl, ?_⟩⟩
        rw [hv]
        exact List.dropLast_subset _ hb
      · cases h
  | hset key items =>
    have hne : items ≠ [] := hw
    have hparts : ∀ m : Dict Bytes Bytes, valueParts (.dict (m.insertMany items)) ≠ [] := by
      intro m hnil
      have := Dict.entries_insertMany_ne_nil (d := m) (Or.inl hne)
      cases hentries : (m.insertMany items).entries with
      | nil => exact this hentries
      | cons p l => simp [valueParts, hentries] at hnil
    cases old with
    | none =>
      cases h
      simp only [hsetLoop_snd]
      refine ⟨hparts _, fun b hb => Or.inl ?_⟩
      obtain ⟨p, hp, hbp⟩ := List.mem_flatMap.mp hb
      rcases Dict.mem_entries_insertMany hp with hp | hp
      · exact List.mem_cons_of_mem _ (List.mem_flatMap.mpr ⟨p, hp, hbp⟩)
      · cases hp
    | some e' =>
      cases hv : e'.value <;> simp only [Write.change, hv] at h
      · cases h
      · cases h
      · cases h
        simp only [hsetLoop_snd]
        refine ⟨hparts _, fun b hb => ?_⟩
        obtain ⟨p, hp, hbp⟩ := List.mem_flatMap.mp hb
        rcases Dict.mem_entries_insertMany hp with hp | hp
        · exact Or.inl (List.mem_cons_of_mem _ (List.mem_flatMap.mpr ⟨p, hp, hbp⟩))
        · exact Or.inr ⟨e', rfl, by rw [hv]; exact List.mem_flatMap.mpr ⟨p, hp, hbp⟩⟩
  | del keys => cases h

/-- **The write commands keep a keyspace solid** when their arguments are short enough. -/
theorem Solid.effect {limit : ℕ} {now : ℤ} {argv : Command} {d d' : Entries} (hd : Solid limit d)
    (hargv : ∀ a ∈ argv, a.length ≤ limit) (h : effect now argv d = some d') :
    Solid limit d' := by
  obtain ⟨w, hof, hw⟩ := effect_eq_some h
  have hparts : ∀ b ∈ writeParts w, b.length ≤ limit :=
    fun b hb => hargv b (writeParts_subset hof b hb)
  intro k e hk
  rcases get?_effect_cases hw hk with hold | ⟨hkey, hstore⟩
  · exact hd k e hold
  · obtain ⟨hne, hall⟩ := valueParts_of_store (ofCommand_laden hof)
      (fun e' he' => (hd k e' he').2.1) hstore
    refine ⟨hparts k (keys_subset_writeParts hkey), hne, ?_⟩
    intro b hb
    rcases hall b hb with hb | ⟨e', he', hb⟩
    · exact hparts b hb
    · exact (hd k e' he').2.2 b hb

/-! ## Rebuilding -/

/-- Fields and values that are written out are paired up again. -/
theorem pairUp_flatMap (l : List (Bytes × Bytes)) :
    pairUp (l.flatMap fun p => [p.1, p.2]) = l := by
  induction l with
  | nil => rfl
  | cons p l ih =>
    rw [List.flatMap_cons]
    show (p.1, p.2) :: pairUp (l.flatMap fun p => [p.1, p.2]) = p :: l
    rw [ih]

/-- A command of a rewrite: it can be logged, its arguments are its name, the key and parts
of the value, and it stores the entry where the key is absent. -/
structure Rebuilds (k : Bytes) (e : KeyEntry) (c : Command) : Prop where
  loggable : Loggable c
  nonempty : c ≠ []
  arguments : ∀ a ∈ c, a.length ≤ 5 ∨ a = k ∨ a ∈ valueParts e.value
  stores : ∀ d : Entries, k ∉ d.keys → effect 0 c d = some (d.insert k e)

/-- A write without TTL on an absent key rebuilds the entry that it stores. -/
theorem rebuilds_of_stores {k name : Bytes} {e : KeyEntry} {args : List Bytes} {w : Write}
    (hwrite : isWrite (name :: k :: args) = true)
    (hof : Write.ofCommand (name :: k :: args) = some w) (hfree : TtlFreeWrite w)
    (hname : name.length ≤ 5) (hargs : ∀ a ∈ args, a ∈ valueParts e.value)
    (hkeys : w.keys = [k]) (hstore : w.change 0 none = .store e) :
    Rebuilds k e (name :: k :: args) where
  loggable := by
    refine ⟨hwrite, fun w' hw' => ?_⟩
    rw [hof] at hw'
    cases hw'
    exact hfree
  nonempty := List.cons_ne_nil _ _
  arguments := by
    intro a ha
    rcases List.mem_cons.mp ha with rfl | ha
    · exact Or.inl hname
    · rcases List.mem_cons.mp ha with rfl | ha
      · exact Or.inr (Or.inl rfl)
      · exact Or.inr (Or.inr (hargs a ha))
  stores := by
    intro d hk
    rw [effect, hof, Option.bind_some, Write.effect_single 0 hkeys,
      (d.get?_eq_none_iff k).mpr hk, hstore]
    rfl

/-- HSET with the fields of a hash.
SOURCE: commands/hash_cmds.py:10-26 -/
theorem ofCommand_hset (k : Bytes) {l : List (Bytes × Bytes)} (hl : l ≠ []) :
    Write.ofCommand (ascii "HSET" :: k :: l.flatMap fun p => [p.1, p.2]) = some (.hset k l) := by
  have hlen : (l.flatMap fun p => [p.1, p.2]).length = 2 * l.length := by
    rw [List.length_flatMap]
    simp [Nat.mul_comm]
  have hpos := List.length_pos_iff.mpr hl
  have harity : 2 ≤ (l.flatMap fun p => [p.1, p.2]).length ∧
      (l.flatMap fun p => [p.1, p.2]).length % 2 = 0 := by omega
  show (if _ then some (Write.hset k (pairUp _)) else none) = _
  rw [if_pos harity, pairUp_flatMap]

/-- LPUSH of at least one element. -/
theorem ofCommand_lpush (k : Bytes) {elements : List Bytes} (h : elements ≠ []) :
    Write.ofCommand (ascii "LPUSH" :: k :: elements) = some (.lpush k elements) := by
  obtain ⟨x, xs, rfl⟩ := List.exists_cons_of_ne_nil h
  rfl

/-- SOURCE: persistence/aof.py:325-339 -/
theorem rebuildCommand_spec {k : Bytes} {e : KeyEntry} (ht : e.expireAtMs = none)
    (hne : valueParts e.value ≠ []) : ∃ c, rebuildCommand k e = [c] ∧ Rebuilds k e c := by
  cases hv : e.value with
  | bytes b =>
    refine ⟨[ascii "SET", k, b], by rw [rebuildCommand, hv], ?_⟩
    refine rebuilds_of_stores rfl (rfl : _ = some (Write.set k b none)) trivial (by decide) ?_ rfl
      ?_
    · rw [hv]
      simp [valueParts]
    · exact congrArg Change.store (KeyEntry.ext' hv.symm ht.symm)
  | deque items =>
    have hitems : items.reverse ≠ [] := by
      rw [hv] at hne
      simpa [valueParts] using hne
    have hempty : ¬ items.isEmpty = true := by simpa using hitems
    refine ⟨ascii "LPUSH" :: k :: items.reverse, by rw [rebuildCommand, hv]; simp [hempty], ?_⟩
    refine rebuilds_of_stores rfl (ofCommand_lpush k hitems) trivial (by decide) ?_ rfl ?_
    · rw [hv]
      exact fun a ha => List.mem_reverse.mp ha
    · refine congrArg Change.store (KeyEntry.ext' ?_ ht.symm)
      simp [appendLeft_eq, hv]
  | dict mapping =>
    have hentries : mapping.entries ≠ [] := by
      rw [hv] at hne
      intro hnil
      exact hne (by simp [valueParts, hnil])
    have hempty : ¬ mapping.entries.isEmpty = true := by simpa using hentries
    refine ⟨ascii "HSET" :: k :: mapping.entries.flatMap fun p => [p.1, p.2],
      by rw [rebuildCommand, hv]; simp [hempty], ?_⟩
    refine rebuilds_of_stores rfl (ofCommand_hset k hentries) trivial (by decide) ?_ rfl ?_
    · rw [hv]
      exact fun a ha => ha
    · refine congrArg Change.store (KeyEntry.ext' ?_ ht.symm)
      simp [hsetLoop_snd, Dict.insertMany_entries, hv]

/-- The commands of entries with fresh, distinct keys store them one after the other. -/
theorem replay_rebuild (l : List (Bytes × KeyEntry)) (d : Entries)
    (hl : (l.map Prod.fst).Nodup) (hd : ∀ p ∈ l, p.1 ∉ d.keys)
    (hspec : ∀ p ∈ l, ∃ c, rebuildCommand p.1 p.2 = [c] ∧ Rebuilds p.1 p.2 c) :
    replay (l.flatMap fun p => rebuildCommand p.1 p.2) d = d.insertMany l := by
  induction l generalizing d with
  | nil => rfl
  | cons p l ih =>
    obtain ⟨c, hc, hreb⟩ := hspec p (by simp)
    simp only [List.map_cons, List.nodup_cons] at hl
    rw [List.flatMap_cons, hc, List.singleton_append,
      replay_cons_of_effect (hreb.stores d (hd p (by simp))), Dict.insertMany_cons]
    refine ih _ hl.2 ?_ (fun q hq => hspec q (List.mem_cons_of_mem _ hq))
    intro q hq
    rw [Dict.keys_insert_of_notMem d p.2 (hd p (by simp)), List.mem_append, not_or]
    refine ⟨hd q (List.mem_cons_of_mem _ hq), ?_⟩
    simp only [List.mem_singleton]
    intro he
    exact hl.1 (he ▸ List.mem_map.mpr ⟨q, hq, rfl⟩)

/-- **The commands of a rewrite rebuild the keyspace**, and the reader of the AOF takes them
back as far as they are not too many arguments long.
SOURCE: persistence/aof.py:320-345 -/
theorem rewriteCommands_spec {limit : ℕ} (h5 : 5 ≤ limit) {d : Entries} (ht : Timeless d)
    (hs : Solid limit d) (now : ℤ) :
    ∃ cs, rewriteCommands now d = some cs ∧ replay cs Dict.empty = d ∧
      ∀ c ∈ cs, Loggable c ∧ (c.length ≤ 1024 → Readable limit c) := by
  have hspec : ∀ p ∈ d.entries, ∃ c, rebuildCommand p.1 p.2 = [c] ∧ Rebuilds p.1 p.2 c :=
    fun p hp => rebuildCommand_spec (ht p hp) (hs p.1 p.2 ((d.get?_eq_some_iff _ _).mpr hp)).2.1
  have hcommands : rewriteCommands now d =
      some (d.entries.flatMap fun p => rebuildCommand p.1 p.2) := by
    have hmap : (d.entries.mapM fun e => (deadlineCommand now e.1 e.2).map fun x =>
        rebuildCommand e.1 e.2 ++ x) = some (d.entries.map fun p => rebuildCommand p.1 p.2) := by
      have hdead : ∀ e ∈ d.entries, (deadlineCommand now e.1 e.2).map
          (fun x => rebuildCommand e.1 e.2 ++ x) = some (rebuildCommand e.1 e.2) := by
        intro e he
        simp [deadlineCommand, ht e he]
      generalize d.entries = l at hdead
      induction l with
      | nil => rfl
      | cons e l ih =>
        rw [List.mapM_cons, hdead e (by simp), ih (fun f hf => hdead f (by simp [hf]))]
        rfl
    rw [rewriteCommands, hmap, Option.map_some, List.flatMap_def]
  refine ⟨_, hcommands, ?_, ?_⟩
  · rw [replay_rebuild _ _ d.nodup (by simp [Dict.keys]) hspec, Dict.insertMany_entries]
  · intro c hc
    obtain ⟨p, hp, hcp⟩ := List.mem_flatMap.mp hc
    obtain ⟨c', hc', hreb⟩ := hspec p hp
    rw [hc', List.mem_singleton] at hcp
    subst hcp
    obtain ⟨hkey, -, hparts⟩ := hs p.1 p.2 ((d.get?_eq_some_iff _ _).mpr hp)
    refine ⟨hreb.loggable, fun hcount => ⟨hreb.nonempty, hcount, ?_⟩⟩
    intro a ha
    rcases hreb.arguments a ha with ha | rfl | ha
    · omega
    · exact hkey
    · exact hparts a ha

end ByoRedis.Analysis
