import ByoRedis.Analysis.StoreFacts
import Mathlib.Algebra.Order.BigOperators.Group.List

/-!
# Eviction

`enforce_memory_limit` on a store without expired entries: what it deletes is exactly the
list it returns, all of it keys of the store, and when it returns a list the limit is
met. The usage of a dictionary never grows when keys are deleted, so a store within its
limit stays within it.
-/

set_option autoImplicit false

namespace ByoRedis.Analysis

open ByoRedis.Model ByoRedis.Lib ByoRedis.Interface

/-! ## The victim -/

/-- The minimum is one of the keys. -/
theorem mem_of_minBy {f : Bytes → ℤ} {l : List Bytes} {k : Bytes}
    (h : Store.minBy f l = some k) : k ∈ l := by
  induction l generalizing k with
  | nil => cases h
  | cons a l ih =>
    simp only [Store.minBy] at h
    cases hm : Store.minBy f l with
    | none =>
      rw [hm] at h
      cases h
      simp
    | some b =>
      simp only [hm] at h
      split_ifs at h
      · cases h
        exact List.mem_cons_of_mem _ (ih hm)
      · cases h
        simp

/-- There is a minimum unless there is no key. -/
theorem minBy_eq_none {f : Bytes → ℤ} {l : List Bytes} (h : Store.minBy f l = none) : l = [] := by
  cases l with
  | nil => rfl
  | cons a l =>
    simp only [Store.minBy] at h
    split at h
    · cases h
    · split_ifs at h

/-- A candidate is a key of the store. -/
theorem mem_keys_of_candidates {s : Store} {k : Bytes} (h : k ∈ s.candidates) :
    k ∈ s.entries.keys := by
  obtain ⟨e, he, rfl⟩ := List.mem_map.mp h
  exact List.mem_map.mpr ⟨e, (List.mem_filter.mp he).1, rfl⟩

/-- The evicted key is a key of the store.
SOURCE: storage/store.py:299-314 -/
theorem victim_mem {s : Store} {k : Bytes} (h : s.victim = some k) : k ∈ s.entries.keys := by
  unfold Store.victim at h
  split at h
  · exact mem_keys_of_candidates (mem_of_minBy h)
  · exact mem_keys_of_candidates (mem_of_minBy h)
  · cases h

/-! ## Usage -/

/-- Deleting keys does not add to the usage.
SOURCE: storage/store.py:276-291 -/
theorem usageOf_filter_le (d : Entries) (p : Bytes → KeyEntry → Bool) :
    Store.usageOf (d.filter p) ≤ Store.usageOf d := by
  unfold Store.usageOf
  rw [Dict.entries_filter]
  exact (List.filter_sublist.map _).sum_le_sum (by simp)

/-- Each eviction leaves fewer keys. -/
theorem size_erase_lt {d : Entries} {k : Bytes} (h : k ∈ d.keys) :
    (d.erase k).size < d.size := by
  unfold Dict.size Dict.erase
  rw [Dict.entries_filter]
  obtain ⟨e, he, hk⟩ := List.mem_map.mp h
  apply List.length_filter_lt_length_iff_exists.mpr
  exact ⟨e, he, by simp [hk]⟩

/-- Nothing expired appears when entries go. -/
theorem Fresh.filter {now : ℤ} {d : Entries} (h : Fresh now d) (p : Bytes → KeyEntry → Bool) :
    Fresh now (d.filter p) :=
  fun e he => h e (List.mem_filter.mp he).1

/-- Nothing expired appears when keys are erased. -/
theorem Fresh.eraseMany {now : ℤ} {d : Entries} (h : Fresh now d) (keys : List Bytes) :
    Fresh now (d.eraseMany keys) := by
  rw [Dict.eraseMany_eq_filter]
  exact h.filter _

/-- No deadline appears when keys are erased. -/
theorem Timeless.eraseMany {d : Entries} (h : Timeless d) (keys : List Bytes) :
    Timeless (d.eraseMany keys) := by
  rw [Dict.eraseMany_eq_filter]
  exact fun e he => h e (List.mem_filter.mp he).1

/-! ## The loop -/

/-- The result of the loop with enough fuel: the list it returns is what it deleted, in
order, and the limit is met.
SOURCE: storage/store.py:298-319 -/
theorem enforceLoop_spec {now : ℤ} (fuel : ℕ) (s : Store) (hf : Fresh now s.entries)
    (hfuel : s.entries.size < fuel) :
    SameLimits s (Store.enforceLoop now fuel s).2 ∧
    ∀ evicted, (Store.enforceLoop now fuel s).1 = some evicted →
      (Store.enforceLoop now fuel s).2.entries = s.entries.eraseMany evicted ∧
      (∀ k ∈ evicted, k ∈ s.entries.keys) ∧
      Store.usageOf (s.entries.eraseMany evicted) ≤ s.maxmemoryBytes := by
  induction fuel generalizing s with
  | zero => omega
  | succ fuel ih =>
    simp only [Store.enforceLoop]
    rw [purge_of_fresh hf]
    by_cases hu : Store.usageOf s.entries ≤ s.maxmemoryBytes
    · rw [if_pos hu]
      refine ⟨SameLimits.refl s, ?_⟩
      intro evicted h
      cases h
      exact ⟨rfl, by simp, by simpa using hu⟩
    · rw [if_neg hu]
      cases hv : s.victim with
      | none =>
        refine ⟨SameLimits.refl s, ?_⟩
        intro evicted h
        cases h
      | some key =>
        have hmem := victim_mem hv
        have hstep := ih (s.evict key) (hf.filter _)
          (by have := size_erase_lt hmem
              show (s.entries.erase key).size < fuel
              omega)
        refine ⟨hstep.1, ?_⟩
        intro evicted h
        obtain ⟨rest, hrest, rfl⟩ := Option.map_eq_some_iff.mp h
        obtain ⟨he, hk, hle⟩ := hstep.2 rest hrest
        refine ⟨he, ?_, hle⟩
        intro k hkm
        rcases List.mem_cons.mp hkm with rfl | hkm
        · exact hmem
        · have := hk k hkm
          obtain ⟨e, hes, rfl⟩ := List.mem_map.mp this
          exact List.mem_map.mpr ⟨e, (List.mem_filter.mp hes).1, rfl⟩

/-- **`enforce_memory_limit` deletes what it returns and meets the limit.**
SOURCE: storage/store.py:293-319 -/
theorem enforceMemoryLimit_spec (now : ℤ) {s : Store} (hf : Fresh now s.entries) :
    SameLimits s (s.enforceMemoryLimit now).2 ∧
    ∀ evicted, (s.enforceMemoryLimit now).1 = some evicted →
      (s.enforceMemoryLimit now).2.entries = s.entries.eraseMany evicted ∧
      (∀ k ∈ evicted, k ∈ s.entries.keys) ∧
      (s.maxmemoryBytes = 0 ∨
        Store.usageOf (s.entries.eraseMany evicted) ≤ s.maxmemoryBytes) := by
  unfold Store.enforceMemoryLimit
  split_ifs with h0
  · refine ⟨SameLimits.refl s, ?_⟩
    intro evicted h
    cases h
    exact ⟨rfl, by simp, Or.inl h0⟩
  · obtain ⟨h1, h2⟩ := enforceLoop_spec (s.entries.size + 1) s hf (by omega)
    refine ⟨h1, ?_⟩
    intro evicted h
    obtain ⟨he, hk, hle⟩ := h2 evicted h
    exact ⟨he, hk, Or.inr hle⟩

/-- Without a limit nothing is evicted.
SOURCE: storage/store.py:295-296 -/
theorem enforceMemoryLimit_unlimited {s : Store} (h : s.maxmemoryBytes = 0) (now : ℤ) :
    s.enforceMemoryLimit now = (some [], s) := by
  rw [Store.enforceMemoryLimit, if_pos h]

/-- Within the limit nothing is evicted.
SOURCE: storage/store.py:298 -/
theorem enforceMemoryLimit_within {now : ℤ} {s : Store} (hf : Fresh now s.entries)
    (h : s.maxmemoryBytes = 0 ∨ Store.usageOf s.entries ≤ s.maxmemoryBytes) :
    s.enforceMemoryLimit now = (some [], s) := by
  unfold Store.enforceMemoryLimit
  split_ifs with h0
  · rfl
  · rcases h with h | h
    · exact absurd h h0
    · simp only [Store.enforceLoop]
      rw [purge_of_fresh hf, if_pos h]

end ByoRedis.Analysis
