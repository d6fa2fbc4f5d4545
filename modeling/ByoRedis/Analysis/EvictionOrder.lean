import ByoRedis.Analysis.StoreInvariant

/-!
# Which keys are evicted

`enforce_memory_limit` takes one key after the other until the limit is met: the policy says
which keys may go, and by which number the next one is chosen. `enforceLoop_exact` is about
both policies at once, with `evictable` and `rank` for what they differ in. The keys go in the
order of their rank, none too many, and the loop fails exactly when the keys that may not go
are too much by themselves. `enforceMemoryLimit_exact` reads this off for each policy.
-/

set_option autoImplicit false

namespace ByoRedis.Analysis

open ByoRedis.Model ByoRedis.Lib

variable {s : Store} {now : ℤ}

/-! ## The choice of a victim -/

/-- The access stamp of a key, as `_last_access.get(key, 0)` reads it. -/
def stamp (s : Store) (k : Bytes) : ℕ := (s.lastAccess.get? k).getD 0

/-- The deadline of a key, as `_entries[key].expire_at_ms or 0` reads it. -/
def deadlineOf (d : Entries) (k : Bytes) : ℤ := ((d.get? k).bind KeyEntry.expireAtMs).getD 0

/-- The number by which a policy chooses.
SOURCE: storage/store.py:306-312 -/
def rank (s : Store) (k : Bytes) : ℤ :=
  match s.maxmemoryPolicy with
  | .volatileTtl => deadlineOf s.entries k
  | _ => stamp s k

/-- The entries that a policy lets go.
SOURCE: storage/store.py:299-303 -/
def evictable (policy : MaxmemoryPolicy) (e : KeyEntry) : Bool :=
  policy ≠ .volatileTtl ∨ e.expireAtMs.isSome

/-- The key that `min` chooses has the least value. -/
theorem minBy_le {f : Bytes → ℤ} {l : List Bytes} {k : Bytes} (h : Store.minBy f l = some k) :
    ∀ j ∈ l, f k ≤ f j := by
  induction l generalizing k with
  | nil => cases h
  | cons a l ih =>
    simp only [Store.minBy] at h
    cases hm : Store.minBy f l with
    | none =>
      rw [hm] at h
      cases h
      simp [minBy_eq_none hm]
    | some b =>
      have hb := ih hm
      simp only [hm] at h
      intro j hj
      split_ifs at h with hlt
      · cases h
        rcases List.mem_cons.mp hj with rfl | hj
        · exact hlt.le
        · exact hb j hj
      · cases h
        rcases List.mem_cons.mp hj with rfl | hj
        · exact le_rfl
        · exact (not_lt.mp hlt).trans (hb j hj)

/-- The candidates are the keys that the policy lets go. -/
theorem mem_candidates {k : Bytes} : k ∈ s.candidates ↔
    ∃ e, s.entries.get? k = some e ∧ evictable s.maxmemoryPolicy e = true := by
  simp only [Store.candidates, List.mem_map, List.mem_filter]
  constructor
  · rintro ⟨⟨j, e⟩, ⟨he, hev⟩, rfl⟩
    exact ⟨e, (s.entries.get?_eq_some_iff j e).mpr he, hev⟩
  · rintro ⟨e, he, hev⟩
    exact ⟨(k, e), ⟨(s.entries.get?_eq_some_iff k e).mp he, hev⟩, rfl⟩

/-- SOURCE: storage/store.py:304-314 -/
theorem victim_eq_minBy (hp : s.maxmemoryPolicy ≠ .noeviction) :
    s.victim = Store.minBy (rank s) s.candidates := by
  cases hpol : s.maxmemoryPolicy with
  | noeviction => exact absurd hpol hp
  | volatileTtl =>
    have hrank : rank s = deadlineOf s.entries := by
      funext k
      simp only [rank, hpol]
    simp only [Store.victim, hpol, hrank]
    rfl
  | allkeysLru =>
    have hrank : rank s = fun k => (stamp s k : ℤ) := by
      funext k
      simp only [rank, hpol]
    simp only [Store.victim, hpol, hrank]
    rfl

/-- Deleting a key does not change the rank of another. -/
theorem rank_evict {j k : Bytes} (h : j ≠ k) : rank (s.evict k) j = rank s j := by
  have hpol : (s.evict k).maxmemoryPolicy = s.maxmemoryPolicy := rfl
  unfold rank
  rw [hpol]
  split
  · simp only [deadlineOf, Store.evict, Store.remove, Dict.get?_erase_of_ne _ h]
  · simp only [stamp, Store.evict, Store.remove, Dict.get?_erase_of_ne _ h]

/-! ## The loop -/

/-- What the eviction of `E` from a store says about the choice of the keys: none twice, all
of them evictable, in the order of their rank, which no evictable survivor is below, and the
limit not met before the last. -/
structure ChosenWell (s : Store) (E : List Bytes) : Prop where
  nodup : E.Nodup
  allowed : ∀ k ∈ E, ∃ e, s.entries.get? k = some e ∧ evictable s.maxmemoryPolicy e = true
  ordered : E.Pairwise fun j k => rank s j ≤ rank s k
  survivors : ∀ k ∈ E, ∀ j e, (s.entries.eraseMany E).get? j = some e →
    evictable s.maxmemoryPolicy e = true → rank s k ≤ rank s j
  needed : ∀ E', E' <+: E → E' ≠ E → s.maxmemoryBytes < Store.usageOf (s.entries.eraseMany E')

/-- One more victim in front. -/
theorem ChosenWell.cons {k : Bytes} {E : List Bytes}
    (hk : ∃ e, s.entries.get? k = some e ∧ evictable s.maxmemoryPolicy e = true)
    (hmin : ∀ j e, s.entries.get? j = some e → evictable s.maxmemoryPolicy e = true →
      rank s k ≤ rank s j)
    (hu : s.maxmemoryBytes < Store.usageOf s.entries) (h : ChosenWell (s.evict k) E) :
    ChosenWell s (k :: E) := by
  have hafter : ∀ {j e}, (s.evict k).entries.get? j = some e →
      j ≠ k ∧ s.entries.get? j = some e := by
    intro j e hj
    have hj' : (s.entries.erase k).get? j = some e := hj
    rw [Dict.get?_erase] at hj'
    split_ifs at hj' with hne
    exact ⟨hne, hj'⟩
  have hnot : ∀ j ∈ E, j ≠ k := by
    intro j hj
    obtain ⟨e, he, -⟩ := h.allowed j hj
    exact (hafter he).1
  refine ⟨List.nodup_cons.mpr ⟨fun hmem => hnot k hmem rfl, h.nodup⟩, ?_, ?_, ?_, ?_⟩
  · intro j hj
    rcases List.mem_cons.mp hj with rfl | hj
    · exact hk
    · obtain ⟨e, he, hev⟩ := h.allowed j hj
      exact ⟨e, (hafter he).2, hev⟩
  · refine List.pairwise_cons.mpr ⟨fun j hj => ?_, ?_⟩
    · obtain ⟨e, he, hev⟩ := h.allowed j hj
      exact hmin j e (hafter he).2 hev
    · refine h.ordered.imp_of_mem ?_
      intro i j hi hj hij
      rwa [rank_evict (hnot i hi), rank_evict (hnot j hj)] at hij
  · intro i hi j e hj hev
    rw [Dict.eraseMany_cons] at hj
    have hj' := hj
    rw [Dict.get?_eraseMany] at hj'
    split_ifs at hj' with hjE
    obtain ⟨hjk, hjs⟩ := hafter hj'
    rcases List.mem_cons.mp hi with rfl | hi
    · exact hmin j e hjs hev
    · have := h.survivors i hi j e hj hev
      rwa [rank_evict (hnot i hi), rank_evict hjk] at this
  · intro E' hpre hne
    rcases List.prefix_cons_iff.mp hpre with rfl | ⟨t, rfl, ht⟩
    · exact hu
    · rw [Dict.eraseMany_cons]
      exact h.needed t ht fun heq => hne (by rw [heq])

/-- **The loop under either evicting policy.**
SOURCE: storage/store.py:298-319 -/
theorem enforceLoop_exact (fuel : ℕ) (s : Store) (hp : s.maxmemoryPolicy ≠ .noeviction)
    (hf : Fresh now s.entries) (hfuel : s.entries.size < fuel) :
    ((Store.enforceLoop now fuel s).1 = none ↔ s.maxmemoryBytes < Store.usageOf
      (s.entries.filter fun _ e => !evictable s.maxmemoryPolicy e)) ∧
    ∀ E, (Store.enforceLoop now fuel s).1 = some E → ChosenWell s E := by
  induction fuel generalizing s with
  | zero => omega
  | succ fuel ih =>
    simp only [Store.enforceLoop]
    rw [purge_of_fresh hf]
    by_cases hu : Store.usageOf s.entries ≤ s.maxmemoryBytes
    · rw [if_pos hu]
      refine ⟨⟨fun h => (by cases h), fun h => ?_⟩, ?_⟩
      · have := usageOf_filter_le s.entries fun _ e => !evictable s.maxmemoryPolicy e
        omega
      · intro E h
        cases h
        refine ⟨List.nodup_nil, by simp, List.Pairwise.nil, by simp, ?_⟩
        intro E' hpre hne
        exact absurd (List.prefix_nil.mp hpre) hne
    · rw [if_neg hu]
      rw [victim_eq_minBy hp]
      cases hv : Store.minBy (rank s) s.candidates with
      | none =>
        -- nothing may go, so all that is left is what the policy protects
        have hnone := minBy_eq_none hv
        have hall : (s.entries.filter fun _ e => !evictable s.maxmemoryPolicy e) = s.entries := by
          refine Dict.filter_eq_self _ _ fun e he => ?_
          by_contra hev
          have hmem : e.1 ∈ s.candidates := mem_candidates.mpr
            ⟨e.2, (s.entries.get?_eq_some_iff e.1 e.2).mpr he, by simpa using hev⟩
          rw [hnone] at hmem
          cases hmem
        refine ⟨⟨fun _ => ?_, fun _ => rfl⟩, fun E h => by cases h⟩
        rw [hall]
        omega
      | some k =>
        obtain ⟨e, he, hev⟩ := mem_candidates.mp (mem_of_minBy hv)
        have hsize := size_erase_lt (Dict.mem_keys_of_get? he)
        obtain ⟨hnone, hsome⟩ := ih (s.evict k) hp (hf.filter _)
          (by show (s.entries.erase k).size < fuel; omega)
        have hkept : ((s.evict k).entries.filter fun _ e => !evictable s.maxmemoryPolicy e) =
            s.entries.filter fun _ e => !evictable s.maxmemoryPolicy e := by
          show (s.entries.erase k).filter _ = _
          rw [Dict.erase, Dict.filter_filter]
          apply Dict.ext
          rw [Dict.entries_filter, Dict.entries_filter]
          apply List.filter_congr
          intro f hfm
          by_cases hkey : f.1 = k
          · have hget := (s.entries.get?_eq_some_iff f.1 f.2).mpr hfm
            rw [hkey, he] at hget
            cases hget
            simp [hev]
          · simp [hkey]
        refine ⟨?_, ?_⟩
        · rw [Option.map_eq_none_iff, hnone]
          exact Iff.of_eq (congrArg (fun d => s.maxmemoryBytes < Store.usageOf d) hkept)
        · intro E h
          obtain ⟨rest, hrest, rfl⟩ := Option.map_eq_some_iff.mp h
          refine ChosenWell.cons ⟨e, he, hev⟩ ?_ (by omega) (hsome rest hrest)
          intro j f hj hjv
          exact minBy_le hv j (mem_candidates.mpr ⟨f, hj, hjv⟩)

/-! ## From the loop to `enforce_memory_limit` -/

/-- A snapshot has no more keys than the store. -/
theorem size_live_le (s : Store) (now : ℤ) : (s.live now).size ≤ s.entries.size :=
  List.length_filter_le _ _

/-- After a purge no key has expired. -/
theorem fresh_purge (s : Store) (now : ℤ) : Fresh now (s.purge now).entries := by
  rw [entries_purge]
  exact fresh_live s now

/-- A purge leaves fewer keys than the fuel of the loop. -/
theorem size_purge_lt (s : Store) (now : ℤ) :
    (s.purge now).entries.size < s.entries.size + 1 := by
  rw [entries_purge]
  exact Nat.lt_succ_of_le (size_live_le s now)

/-- The number of turns is bounded by the number of keys.
SOURCE: storage/store.py:298 -/
theorem enforceLoop_terminates (now : ℤ) (extra fuel : ℕ) (s : Store)
    (hfuel : s.entries.size < fuel) :
    Store.enforceLoop now (fuel + extra) s = Store.enforceLoop now fuel s := by
  induction fuel generalizing s with
  | zero => omega
  | succ fuel ih =>
    rw [Nat.add_right_comm]
    simp only [Store.enforceLoop]
    split_ifs
    · rfl
    · cases hv : (s.purge now).victim with
      | none => rfl
      | some key =>
        have hlive := size_live_le s now
        have hlt := size_erase_lt (victim_mem hv)
        rw [entries_purge] at hlt
        have hsize : ((s.purge now).evict key).entries.size < fuel := by
          show ((s.purge now).entries.erase key).size < fuel
          rw [entries_purge]
          omega
        simp only [ih _ hsize]

/-- The first turn deletes what has expired. -/
theorem enforceMemoryLimit_eq_loop (now : ℤ) (hM : 0 < s.maxmemoryBytes) :
    s.enforceMemoryLimit now = Store.enforceLoop now (s.entries.size + 1) (s.purge now) := by
  rw [Store.enforceMemoryLimit, if_neg (by omega)]
  simp only [Store.enforceLoop]
  rw [purge_of_fresh (fresh_purge s now)]

/-- A purge keeps the stamps of what is live. -/
theorem stamp_purge {k : Bytes} (hk : k ∈ (s.live now).keys) :
    stamp (s.purge now) k = stamp s k := by
  obtain ⟨e, he⟩ := (Dict.mem_keys_iff _ _).mp hk
  rw [Store.live, Dict.get?_filter] at he
  obtain ⟨hget, hx⟩ := Option.filter_eq_some_iff.mp he
  have hnot : k ∉ s.expiredKeys now := by
    rw [mem_expiredKeys now ((s.entries.get?_eq_some_iff k e).mp hget)]
    simpa using hx
  rw [stamp, Store.purge, foldl_remove, Dict.get?_eraseMany, if_neg hnot]
  rfl

/-- The usage of a dictionary with one key. -/
theorem usageOf_single {d : Entries} {k : Bytes} {e : KeyEntry} (hk : d.get? k = some e)
    (hall : ∀ j ∈ d.keys, j = k) : Store.usageOf d = Store.entryUsage k e := by
  obtain ⟨l, hl⟩ := d
  have hmem : (k, e) ∈ l := (Dict.get?_eq_some_iff _ _ _).mp hk
  have hall' : ∀ p ∈ l, p.1 = k := fun p hp => hall p.1 (List.mem_map_of_mem hp)
  match l, hl with
  | [], _ => cases hmem
  | [p], _ =>
    cases List.mem_singleton.mp hmem
    simp [Store.usageOf]
  | p :: q :: rest, hl =>
    simp only [List.map_cons, List.nodup_cons, List.mem_cons, not_or] at hl
    exact absurd ((hall' p (by simp)).trans (hall' q (by simp)).symm) hl.1.1

/-- Two live keys of a coherent store have different stamps. -/
theorem Coherent.stamp_inj (h : Coherent s) {j k : Bytes} (hj : j ∈ s.entries.keys)
    (hk : k ∈ s.entries.keys) (heq : stamp s j = stamp s k) : j = k := by
  obtain ⟨m, hm⟩ := (Dict.mem_keys_iff _ _).mp ((h.keys j).mpr hj)
  obtain ⟨n, hn⟩ := (Dict.mem_keys_iff _ _).mp ((h.keys k).mpr hk)
  simp only [stamp, hm, hn, Option.getD_some] at heq
  rw [heq] at hm
  exact h.distinct j k n hm hn

/-! ## The policies -/

/-- The keys that `enforce_memory_limit` evicts under an evicting policy.
SOURCE: storage/store.py:293-319 -/
theorem chosenWell_of_evicted {E : List Bytes} {s' : Store} (hM : 0 < s.maxmemoryBytes)
    (hp : s.maxmemoryPolicy ≠ .noeviction) (h : s.enforceMemoryLimit now = (some E, s')) :
    ChosenWell (s.purge now) E := by
  have hlimits := sameLimits_purge s now
  rw [enforceMemoryLimit_eq_loop now hM] at h
  exact (enforceLoop_exact _ _ (by rw [hlimits.2]; exact hp) (fresh_purge s now)
    (size_purge_lt s now)).2 E
    (congrArg Prod.fst h)

/-- When an evicting policy fails.
SOURCE: storage/store.py:304-305 -/
theorem enforceMemoryLimit_eq_none (hM : 0 < s.maxmemoryBytes)
    (hp : s.maxmemoryPolicy ≠ .noeviction) :
    (s.enforceMemoryLimit now).1 = none ↔ s.maxmemoryBytes < Store.usageOf
      ((s.live now).filter fun _ e => !evictable s.maxmemoryPolicy e) := by
  have hlimits := sameLimits_purge s now
  rw [enforceMemoryLimit_eq_loop now hM,
    (enforceLoop_exact _ _ (by rw [hlimits.2]; exact hp) (fresh_purge s now) (size_purge_lt s now)).1,
    hlimits.1, hlimits.2, entries_purge]

/-- Under `allkeys-lru` every key may go.
SOURCE: storage/store.py:299-305 -/
theorem lru_never_fails (now : ℤ) (hM : 0 < s.maxmemoryBytes)
    (hp : s.maxmemoryPolicy = .allkeysLru) : (s.enforceMemoryLimit now).1 ≠ none := by
  intro hnone
  have hlt := (enforceMemoryLimit_eq_none hM (by rw [hp]; decide)).mp hnone
  have hempty : ((s.live now).filter fun _ e => !evictable s.maxmemoryPolicy e) =
      Dict.empty := by
    apply Dict.ext
    rw [Dict.entries_filter, hp]
    exact List.filter_eq_nil_iff.mpr fun _ _ => by simp [evictable]
  rw [hempty] at hlt
  simp [Store.usageOf] at hlt

/-- SOURCE: storage/store.py:313-314 -/
theorem enforceMemoryLimit_noeviction (hM : 0 < s.maxmemoryBytes)
    (hp : s.maxmemoryPolicy = .noeviction) :
    s.enforceMemoryLimit now =
      (if Store.usageOf (s.live now) ≤ s.maxmemoryBytes then some [] else none, s.purge now) := by
  have hlimits := sameLimits_purge s now
  rw [Store.enforceMemoryLimit, if_neg (by omega)]
  simp only [Store.enforceLoop]
  rw [hlimits.1, entries_purge]
  split_ifs
  · rfl
  · have hv : (s.purge now).victim = none := by
      simp only [Store.victim, hlimits.2, hp]
    rw [hv]

/-- What is left after an eviction, and how much it uses. -/
theorem entries_of_evicted {E : List Bytes} {s' : Store} (hM : 0 < s.maxmemoryBytes)
    (h : s.enforceMemoryLimit now = (some E, s')) :
    s'.entries = (s.live now).eraseMany E ∧ (∀ k ∈ E, k ∈ (s.live now).keys) ∧
      Store.usageOf s'.entries ≤ s.maxmemoryBytes := by
  have hlimits := sameLimits_purge s now
  rw [enforceMemoryLimit_eq_loop now hM] at h
  obtain ⟨-, hspec⟩ := enforceLoop_spec _ _ (fresh_purge s now) (size_purge_lt s now)
  rw [h] at hspec
  obtain ⟨hent, hkeys, husage⟩ := hspec E rfl
  rw [hlimits.1] at husage
  rw [entries_purge] at hent hkeys husage
  exact ⟨hent, hkeys, by rw [hent]; exact husage⟩

/-- Under `allkeys-lru` the keys go in the order of their last access. -/
theorem ChosenWell.lru {E : List Bytes} (h : ChosenWell (s.purge now) E) (hs : Coherent s)
    (hp : s.maxmemoryPolicy = .allkeysLru) :
    E.Pairwise (fun j k => stamp s j < stamp s k) ∧
    ∀ k ∈ E, ∀ j ∈ ((s.live now).eraseMany E).keys, stamp s k < stamp s j := by
  have hpol : (s.purge now).maxmemoryPolicy = .allkeysLru := by
    rw [(sameLimits_purge s now).2, hp]
  have hentries := entries_purge s now
  have hlive : ∀ k ∈ E, k ∈ (s.live now).keys := by
    intro k hk
    obtain ⟨e, he, -⟩ := h.allowed k hk
    rw [hentries] at he
    exact Dict.mem_keys_of_get? he
  have hrank : ∀ k ∈ (s.live now).keys, rank (s.purge now) k = stamp s k := by
    intro k hk
    simp only [rank, hpol]
    rw [stamp_purge hk]
  -- stamps of different live keys differ, so the order by rank is strict
  have hstrict : ∀ {j k}, j ∈ (s.live now).keys → k ∈ (s.live now).keys → j ≠ k →
      rank (s.purge now) j ≤ rank (s.purge now) k → stamp s j < stamp s k := by
    intro j k hj hk hne hle
    rw [hrank j hj, hrank k hk] at hle
    refine lt_of_le_of_ne (by exact_mod_cast hle) fun heq => ?_
    rw [← hentries] at hj hk
    have hco := hs.purge now
    refine hne (hco.stamp_inj hj hk ?_)
    rw [hentries] at hj hk
    rw [stamp_purge hj, stamp_purge hk, heq]
  constructor
  · refine (List.Pairwise.and h.ordered h.nodup).imp_of_mem ?_
    rintro j k hj hk ⟨hle, hne⟩
    exact hstrict (hlive j hj) (hlive k hk) hne hle
  · intro k hk j hj
    obtain ⟨e, he⟩ := (Dict.mem_keys_iff _ _).mp hj
    have hle := h.survivors k hk j e (by rw [hentries]; exact he) (by rw [hpol]; rfl)
    rw [Dict.get?_eraseMany] at he
    split_ifs at he with hjE
    refine hstrict (hlive k hk) (Dict.mem_keys_of_get? he) ?_ hle
    rintro rfl
    exact hjE hk

/-- The key accessed last goes only when it is too large by itself. -/
theorem ChosenWell.newest {E : List Bytes} (h : ChosenWell (s.purge now) E) (hs : Coherent s)
    (hp : s.maxmemoryPolicy = .allkeysLru) {k : Bytes} (hk : k ∈ E)
    (hmax : ∀ j ∈ (s.live now).keys, stamp s j ≤ stamp s k) :
    ∃ e, (s.live now).get? k = some e ∧ s.maxmemoryBytes < Store.entryUsage k e := by
  obtain ⟨hordered, hsurvivors⟩ := h.lru hs hp
  have hentries := entries_purge s now
  obtain ⟨e, he, -⟩ := h.allowed k hk
  rw [hentries] at he
  obtain ⟨l, r, rfl⟩ := List.append_of_mem hk
  -- nothing comes after `k`, which has the largest stamp
  have hr : r = [] := by
    refine List.eq_nil_iff_forall_not_mem.mpr fun j hj => ?_
    obtain ⟨f, hf, -⟩ := h.allowed j (by simp [hj])
    rw [hentries] at hf
    have hlt := (List.pairwise_cons.mp (List.pairwise_append.mp hordered).2.1).1 j hj
    have := hmax j (Dict.mem_keys_of_get? hf)
    omega
  subst hr
  have hneeded := h.needed l (List.prefix_append l [k]) (by simp)
  rw [(sameLimits_purge s now).1, hentries] at hneeded
  have hnot : k ∉ l := by
    intro hmem
    have := (List.pairwise_append.mp hordered).2.2 k hmem k (by simp)
    omega
  have hget : ((s.live now).eraseMany l).get? k = some e := by
    rw [Dict.get?_eraseMany, if_neg hnot, he]
  refine ⟨e, he, ?_⟩
  rw [← usageOf_single hget]
  · exact hneeded
  · -- a survivor would have been accessed after `k`
    intro j hj
    by_contra hne
    obtain ⟨f, hf⟩ := (Dict.mem_keys_iff _ _).mp hj
    rw [Dict.get?_eraseMany] at hf
    split_ifs at hf with hjl
    have hleft : j ∈ ((s.live now).eraseMany (l ++ [k])).keys := by
      refine (Dict.mem_keys_iff _ _).mpr ⟨f, ?_⟩
      rw [Dict.get?_eraseMany, if_neg (by simp [hjl, hne]), hf]
    have := hsurvivors k (by simp) j hleft
    have := hmax j (Dict.mem_keys_of_get? hf)
    omega

/-- Under `volatile-ttl` the keys go in the order of their deadlines. -/
theorem ChosenWell.ttl {E : List Bytes} (h : ChosenWell (s.purge now) E)
    (hp : s.maxmemoryPolicy = .volatileTtl) :
    (∀ k ∈ E, ∃ e d, (s.live now).get? k = some e ∧ e.expireAtMs = some d) ∧
    E.Pairwise (fun j k => deadlineOf (s.live now) j ≤ deadlineOf (s.live now) k) ∧
    ∀ k ∈ E, ∀ j e d, ((s.live now).eraseMany E).get? j = some e → e.expireAtMs = some d →
      deadlineOf (s.live now) k ≤ d := by
  have hpol : (s.purge now).maxmemoryPolicy = .volatileTtl := by
    rw [(sameLimits_purge s now).2, hp]
  have hentries := entries_purge s now
  have hrank : rank (s.purge now) = deadlineOf (s.live now) := by
    funext k
    simp only [rank, hpol]
    rw [hentries]
  refine ⟨?_, ?_, ?_⟩
  · intro k hk
    obtain ⟨e, he, hev⟩ := h.allowed k hk
    rw [hentries] at he
    rw [hpol] at hev
    obtain ⟨d, hd⟩ := Option.isSome_iff_exists.mp
      (show e.expireAtMs.isSome = true by simpa [evictable] using hev)
    exact ⟨e, d, he, hd⟩
  · rw [← hrank]
    exact h.ordered
  · intro k hk j e d hj hd
    have hle := h.survivors k hk j e (by rw [hentries]; exact hj)
      (by rw [hpol]; simp [evictable, hd])
    rw [hrank] at hle
    rw [Dict.get?_eraseMany] at hj
    split_ifs at hj
    simpa [deadlineOf, hj, hd] using hle

/-- **`enforce_memory_limit` is exact.** It ends after at most one turn per key. If it returns
a list, the limit is met, the rest of the live entries is untouched, and no shorter prefix of
the list would have been enough. `allkeys-lru` never fails and takes the keys in the order of
their last access, the one accessed last only if it is too large alone. `volatile-ttl` takes
keys with a deadline in the order of these, and fails exactly when the others are too much.
`noeviction` fails exactly when the live entries are too much, and takes nothing.
SOURCE: storage/store.py:276-319 -/
theorem enforceMemoryLimit_exact {s : Store} (now : ℤ) (hs : Coherent s)
    (hM : 0 < s.maxmemoryBytes) :
    (∀ extra, Store.enforceLoop now (s.entries.size + 1 + extra) s = s.enforceMemoryLimit now) ∧
    (∀ E s', s.enforceMemoryLimit now = (some E, s') →
      (s'.memoryUsage now).1 ≤ s.maxmemoryBytes ∧
      s'.entries = (s.live now).eraseMany E ∧ E.Nodup ∧ (∀ k ∈ E, k ∈ (s.live now).keys) ∧
      ∀ E', E' <+: E → E' ≠ E →
        s.maxmemoryBytes < Store.usageOf ((s.live now).eraseMany E')) ∧
    (s.maxmemoryPolicy = .allkeysLru →
      ∃ E s', s.enforceMemoryLimit now = (some E, s') ∧
        E.Pairwise (fun j k => stamp s j < stamp s k) ∧
        (∀ k ∈ E, ∀ j ∈ s'.entries.keys, stamp s k < stamp s j) ∧
        ∀ k ∈ E, (∀ j ∈ (s.live now).keys, stamp s j ≤ stamp s k) →
          ∃ e, (s.live now).get? k = some e ∧ s.maxmemoryBytes < Store.entryUsage k e) ∧
    (s.maxmemoryPolicy = .volatileTtl →
      ((s.enforceMemoryLimit now).1 = none ↔ s.maxmemoryBytes <
        Store.usageOf ((s.live now).filter fun _ e => e.expireAtMs.isNone)) ∧
      ∀ E s', s.enforceMemoryLimit now = (some E, s') →
        (∀ k ∈ E, ∃ e d, (s.live now).get? k = some e ∧ e.expireAtMs = some d) ∧
        E.Pairwise (fun j k => deadlineOf (s.live now) j ≤ deadlineOf (s.live now) k) ∧
        ∀ k ∈ E, ∀ j e d, s'.entries.get? j = some e → e.expireAtMs = some d →
          deadlineOf (s.live now) k ≤ d) ∧
    (s.maxmemoryPolicy = .noeviction →
      ((s.enforceMemoryLimit now).1 = none ↔ s.maxmemoryBytes < Store.usageOf (s.live now)) ∧
      (s.enforceMemoryLimit now).2.entries = s.live now) := by
  refine ⟨?_, ?_, ?_, ?_, ?_⟩
  · intro extra
    rw [enforceLoop_terminates now extra _ s (Nat.lt_succ_self _), Store.enforceMemoryLimit,
      if_neg (by omega)]
  · intro E s' h
    obtain ⟨hent, hkeys, husage⟩ := entries_of_evicted hM h
    have hafter : (s'.purge now).entries = s'.entries := by
      have hf : Fresh now s'.entries := by
        rw [hent]
        exact (fresh_live s now).eraseMany E
      rw [purge_of_fresh hf]
    have hchosen : E.Nodup ∧ ∀ E', E' <+: E → E' ≠ E →
        s.maxmemoryBytes < Store.usageOf ((s.live now).eraseMany E') := by
      by_cases hp : s.maxmemoryPolicy = .noeviction
      · rw [enforceMemoryLimit_noeviction hM hp] at h
        split_ifs at h
        · cases h
          exact ⟨List.nodup_nil, fun E' hpre hne => absurd (List.prefix_nil.mp hpre) hne⟩
        · cases h
      · have hwell := chosenWell_of_evicted hM hp h
        have hneeded := hwell.needed
        rw [(sameLimits_purge s now).1, entries_purge] at hneeded
        exact ⟨hwell.nodup, hneeded⟩
    refine ⟨?_, hent, hchosen.1, hkeys, hchosen.2⟩
    simp only [Store.memoryUsage]
    rw [hafter]
    exact husage
  · intro hp
    have hp' : s.maxmemoryPolicy ≠ .noeviction := by
      rw [hp]
      decide
    have hsome := lru_never_fails now hM hp
    rcases hr : s.enforceMemoryLimit now with ⟨_ | E, s'⟩
    · rw [hr] at hsome
      exact absurd rfl hsome
    · have hwell := chosenWell_of_evicted hM hp' hr
      obtain ⟨hordered, hsurvivors⟩ := hwell.lru hs hp
      refine ⟨E, s', rfl, hordered, ?_, fun k hk hmax => hwell.newest hs hp hk hmax⟩
      rw [(entries_of_evicted hM hr).1]
      exact hsurvivors
  · intro hp
    have hp' : s.maxmemoryPolicy ≠ .noeviction := by
      rw [hp]
      decide
    refine ⟨?_, ?_⟩
    · rw [enforceMemoryLimit_eq_none hM hp', hp]
      have hfilter : (fun (_ : Bytes) (e : KeyEntry) => !evictable .volatileTtl e) =
          fun _ e => e.expireAtMs.isNone := by
        funext _ e
        cases hx : e.expireAtMs <;> simp [evictable, hx]
      rw [hfilter]
    · intro E s' h
      obtain ⟨hdeadline, hordered, hsurvivors⟩ := (chosenWell_of_evicted hM hp' h).ttl hp
      refine ⟨hdeadline, hordered, ?_⟩
      rw [(entries_of_evicted hM h).1]
      exact hsurvivors
  · intro hp
    rw [enforceMemoryLimit_noeviction hM hp, entries_purge]
    refine ⟨?_, rfl⟩
    split_ifs with hu
    · simp only [false_iff]
      omega
    · simp only [true_iff]
      omega

/-- Three keys in a store with room for two of them. -/
def crowdedStore : Store :=
  ((({ maxmemoryBytes := 140, maxmemoryPolicy := .allkeysLru } : Store).setString 0
    (ascii "a") (ascii "x") none).setString 0 (ascii "b") (ascii "x") none).setString 0
    (ascii "c") (ascii "x") none

/-- The key that was used longest ago goes, and no other. -/
theorem enforceMemoryLimit_exact_crowded :
    (crowdedStore.enforceMemoryLimit 0).1 = some [ascii "a"] ∧
    (crowdedStore.enforceMemoryLimit 0).2.entries =
      (crowdedStore.live 0).eraseMany [ascii "a"] := by
  have hs : Coherent crowdedStore :=
    (((coherent_empty 140 .allkeysLru).setString 0 _ _ none).setString 0 _ _ none).setString 0 _ _
      none
  have hfst : (crowdedStore.enforceMemoryLimit 0).1 = some [ascii "a"] := by decide +kernel
  exact ⟨hfst, ((enforceMemoryLimit_exact 0 hs (by decide)).2.1 [ascii "a"] _
    (Prod.ext hfst rfl)).2.1⟩

end ByoRedis.Analysis
