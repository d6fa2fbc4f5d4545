import Mathlib.Algebra.GroupWithZero.Nat
import Mathlib.Data.List.Nodup
import Mathlib.Data.List.Lookmap

/-!
# Insertion-ordered dictionaries

`Dict κ ν` is a finite map that remembers the order in which its keys were first
inserted: the dictionary of Python. Storing under a present key keeps that key's
place, storing under a new one appends it, and a deleted key loses its place.
Distinctness of keys is a field of the structure, so no dictionary with a repeated
key can be built.
-/

set_option autoImplicit false

namespace ByoRedis.Lib

/-- A finite map with its keys in order of first insertion. -/
structure Dict (κ ν : Type) where
  entries : List (κ × ν)
  nodup : (entries.map Prod.fst).Nodup
  deriving DecidableEq

namespace Dict

variable {κ ν : Type}

/-- A dictionary is its entries. -/
@[ext] theorem ext {d e : Dict κ ν} (h : d.entries = e.entries) : d = e := by
  cases d; cases e; simpa using h

/-- The dictionary with no keys. -/
def empty : Dict κ ν := ⟨[], List.nodup_nil⟩

/-- The keys, in order of first insertion. -/
def keys (d : Dict κ ν) : List κ := d.entries.map Prod.fst

/-- The number of keys. -/
def size (d : Dict κ ν) : ℕ := d.entries.length

/-- The empty one has none. -/
@[simp] theorem entries_empty : (empty : Dict κ ν).entries = [] := rfl

/-- Keeping the entries that satisfy `p`, in their order. -/
def filter (d : Dict κ ν) (p : κ → ν → Bool) : Dict κ ν :=
  ⟨d.entries.filter fun e => p e.1 e.2,
    d.nodup.sublist (List.filter_sublist.map Prod.fst)⟩

/-- Filtering filters the entries. -/
@[simp] theorem entries_filter (d : Dict κ ν) (p : κ → ν → Bool) :
    (d.filter p).entries = d.entries.filter fun e => p e.1 e.2 := rfl

/-- Filters compose to the filter by the conjunction. -/
theorem filter_filter (d : Dict κ ν) (p q : κ → ν → Bool) :
    (d.filter p).filter q = d.filter fun k v => p k v && q k v := by
  ext1
  simp only [entries_filter, List.filter_filter]
  congr 1
  funext e
  exact Bool.and_comm _ _

/-- A filter that no entry fails keeps the dictionary. -/
theorem filter_eq_self (d : Dict κ ν) (p : κ → ν → Bool)
    (h : ∀ e ∈ d.entries, p e.1 e.2 = true) : d.filter p = d := by
  ext1
  simpa using h

variable [DecidableEq κ]

/-- The value stored under `k`. -/
def get? (d : Dict κ ν) (k : κ) : Option ν :=
  (d.entries.find? fun e => e.1 = k).map Prod.snd

/-- Deleting `k`; nothing happens when it is absent. -/
def erase (d : Dict κ ν) (k : κ) : Dict κ ν := d.filter fun j _ => j ≠ k

/-- Storing `v` under `k`: in place when `k` is present, else at the end. -/
def insert (d : Dict κ ν) (k : κ) (v : ν) : Dict κ ν :=
  if h : k ∈ d.keys then
    ⟨d.entries.map fun e => if e.1 = k then (k, v) else e, by
      have hk : (d.entries.map fun e => if e.1 = k then (k, v) else e).map Prod.fst
          = d.entries.map Prod.fst := by
        rw [List.map_map]
        apply List.map_congr_left
        intro e _
        by_cases he : e.1 = k <;> simp [he]
      rw [hk]
      exact d.nodup⟩
  else
    ⟨d.entries ++ [(k, v)], by
      rw [List.map_append, List.nodup_append]
      refine ⟨d.nodup, by simp, ?_⟩
      intro a ha b hb hab
      simp only [List.map_cons, List.map_nil, List.mem_singleton] at hb
      exact h (by simpa [keys, ← hb, ← hab] using ha)⟩

/-- Storing a list of pairs one after the other. -/
def insertMany (d : Dict κ ν) (l : List (κ × ν)) : Dict κ ν :=
  l.foldl (fun d e => d.insert e.1 e.2) d

/-- Deleting a list of keys one after the other. -/
def eraseMany (d : Dict κ ν) (l : List κ) : Dict κ ν := l.foldl erase d

/-- Nothing to insert. -/
@[simp] theorem insertMany_nil (d : Dict κ ν) : d.insertMany [] = d := rfl

/-- One insertion before the rest. -/
@[simp] theorem insertMany_cons (d : Dict κ ν) (e : κ × ν) (l : List (κ × ν)) :
    d.insertMany (e :: l) = (d.insert e.1 e.2).insertMany l := rfl

/-- Nothing to erase. -/
@[simp] theorem eraseMany_nil (d : Dict κ ν) : d.eraseMany [] = d := rfl

/-- One erasure before the rest. -/
@[simp] theorem eraseMany_cons (d : Dict κ ν) (k : κ) (l : List κ) :
    d.eraseMany (k :: l) = (d.erase k).eraseMany l := rfl

/-! ## Reading a dictionary -/

/-- No key is in the empty dictionary. -/
@[simp] theorem get?_empty (k : κ) : (empty : Dict κ ν).get? k = none := rfl

/-- A lookup finds exactly the stored pairs. -/
theorem get?_eq_some_iff (d : Dict κ ν) (k : κ) (v : ν) :
    d.get? k = some v ↔ (k, v) ∈ d.entries := by
  obtain ⟨l, hl⟩ := d
  unfold get?
  induction l with
  | nil => simp
  | cons e l ih =>
    obtain ⟨j, w⟩ := e
    simp only [List.map_cons, List.nodup_cons] at hl
    by_cases hj : j = k
    · subst hj
      have hnot : ∀ x, (j, x) ∉ l := fun x hx => hl.1 (List.mem_map.mpr ⟨_, hx, rfl⟩)
      simp [hnot, eq_comm]
    · have hj' : ¬ k = j := fun h => hj h.symm
      rw [List.find?_cons_of_neg (by simpa using hj), List.mem_cons]
      simpa [hj'] using ih hl.2

/-- A lookup fails for the keys that are not there. -/
theorem get?_eq_none_iff (d : Dict κ ν) (k : κ) : d.get? k = none ↔ k ∉ d.keys := by
  rw [← not_iff_not, not_not, ← ne_eq, Option.ne_none_iff_exists']
  simp only [get?_eq_some_iff, keys, List.mem_map]
  constructor
  · rintro ⟨v, hv⟩
    exact ⟨_, hv, rfl⟩
  · rintro ⟨⟨j, v⟩, hv, rfl⟩
    exact ⟨v, hv⟩

/-- A key is one whose lookup succeeds. -/
theorem mem_keys_iff (d : Dict κ ν) (k : κ) : k ∈ d.keys ↔ ∃ v, d.get? k = some v := by
  rw [← not_iff_not, ← get?_eq_none_iff, Option.eq_none_iff_forall_ne_some, not_exists]

/-- What a lookup finds has its key there. -/
theorem mem_keys_of_get? {d : Dict κ ν} {k : κ} {v : ν} (h : d.get? k = some v) :
    k ∈ d.keys := (d.mem_keys_iff k).mpr ⟨v, h⟩

/-- A lookup after filtering. -/
theorem get?_filter (d : Dict κ ν) (p : κ → ν → Bool) (k : κ) :
    (d.filter p).get? k = (d.get? k).filter (p k) := by
  apply Option.ext
  intro v
  rw [get?_eq_some_iff, Option.filter_eq_some_iff, get?_eq_some_iff, entries_filter,
    List.mem_filter]

/-- An erased key is not found. -/
theorem get?_erase_self (d : Dict κ ν) (k : κ) : (d.erase k).get? k = none := by
  rw [erase, get?_filter]
  cases d.get? k <;> simp [Option.filter]

/-- The other keys are found as before. -/
theorem get?_erase_of_ne (d : Dict κ ν) {j k : κ} (h : j ≠ k) :
    (d.erase k).get? j = d.get? j := by
  rw [erase, get?_filter]
  cases d.get? j <;> simp [Option.filter, h]

/-! ## Storing -/

/-- A new value for a key stands in the place of the old one. -/
theorem entries_insert_of_mem (d : Dict κ ν) {k : κ} (v : ν) (h : k ∈ d.keys) :
    (d.insert k v).entries = d.entries.map fun e => if e.1 = k then (k, v) else e := by
  rw [insert, dif_pos h]

/-- A new key goes to the end. -/
theorem entries_insert_of_notMem (d : Dict κ ν) {k : κ} (v : ν) (h : k ∉ d.keys) :
    (d.insert k v).entries = d.entries ++ [(k, v)] := by
  rw [insert, dif_neg h]

/-- So it does among the keys. -/
theorem keys_insert_of_notMem (d : Dict κ ν) {k : κ} (v : ν) (h : k ∉ d.keys) :
    (d.insert k v).keys = d.keys ++ [k] := by
  rw [keys, entries_insert_of_notMem d v h, List.map_append, keys]
  rfl

/-- What was inserted is found. -/
@[simp] theorem get?_insert_self (d : Dict κ ν) (k : κ) (v : ν) :
    (d.insert k v).get? k = some v := by
  rw [get?_eq_some_iff]
  by_cases h : k ∈ d.keys
  · rw [entries_insert_of_mem d v h]
    obtain ⟨w, hw⟩ := (d.mem_keys_iff k).mp h
    exact List.mem_map.mpr ⟨(k, w), (d.get?_eq_some_iff k w).mp hw, by simp⟩
  · rw [entries_insert_of_notMem d v h]
    simp

/-- The other keys are found as before. -/
theorem get?_insert_of_ne (d : Dict κ ν) {j k : κ} (v : ν) (hne : j ≠ k) :
    (d.insert k v).get? j = d.get? j := by
  apply Option.ext
  intro w
  rw [get?_eq_some_iff, get?_eq_some_iff]
  by_cases h : k ∈ d.keys
  · rw [entries_insert_of_mem d v h, List.mem_map]
    constructor
    · rintro ⟨e, he, hew⟩
      by_cases hk : e.1 = k
      · rw [if_pos hk] at hew
        exact absurd (congrArg Prod.fst hew).symm hne
      · rw [if_neg hk] at hew
        exact hew ▸ he
    · intro hw
      exact ⟨(j, w), hw, by simp [hne]⟩
  · rw [entries_insert_of_notMem d v h]
    simp [hne]

/-- A lookup after an insertion. -/
theorem get?_insert (d : Dict κ ν) (j k : κ) (v : ν) :
    (d.insert k v).get? j = if j = k then some v else d.get? j := by
  by_cases h : j = k
  · rw [if_pos h, h, get?_insert_self]
  · rw [if_neg h, get?_insert_of_ne d v h]

/-- A lookup after an erasure. -/
theorem get?_erase (d : Dict κ ν) (j k : κ) :
    (d.erase k).get? j = if j = k then none else d.get? j := by
  by_cases h : j = k
  · rw [if_pos h, h, get?_erase_self]
  · rw [if_neg h, get?_erase_of_ne d h]

/-- Deleting an absent key changes nothing. -/
theorem erase_eq_self (d : Dict κ ν) {k : κ} (h : k ∉ d.keys) : d.erase k = d := by
  apply filter_eq_self
  intro e he
  have : e.1 ∈ d.keys := List.mem_map.mpr ⟨e, he, rfl⟩
  simpa using fun hk : e.1 = k => h (hk ▸ this)

/-- Storing twice under a fresh key is storing the second value. -/
theorem insert_insert_of_notMem (d : Dict κ ν) {k : κ} (v w : ν) (h : k ∉ d.keys) :
    (d.insert k v).insert k w = d.insert k w := by
  have hkeys := keys_insert_of_notMem d v h
  have hstay : d.entries.map (fun e => if e.1 = k then (k, w) else e) = d.entries.map id := by
    apply List.map_congr_left
    intro e he
    rw [if_neg]
    · rfl
    · rintro rfl
      exact h (List.mem_map.mpr ⟨e, he, rfl⟩)
  ext1
  rw [entries_insert_of_mem _ w (by rw [hkeys]; simp), entries_insert_of_notMem d v h,
    entries_insert_of_notMem d w h, List.map_append, hstay, List.map_id]
  simp

/-- Storing pairs with fresh, distinct keys appends them. -/
theorem entries_insertMany (d : Dict κ ν) (l : List (κ × ν))
    (hl : (l.map Prod.fst).Nodup) (hd : ∀ e ∈ l, e.1 ∉ d.keys) :
    (d.insertMany l).entries = d.entries ++ l := by
  induction l generalizing d with
  | nil => simp
  | cons e l ih =>
    simp only [List.map_cons, List.nodup_cons] at hl
    rw [insertMany_cons, ih _ hl.2]
    · rw [entries_insert_of_notMem d e.2 (hd e (by simp)), List.append_assoc]
      rfl
    · intro f hf
      rw [keys_insert_of_notMem d e.2 (hd e (by simp)), List.mem_append, not_or]
      refine ⟨hd f (List.mem_cons_of_mem _ hf), ?_⟩
      simp only [List.mem_singleton]
      intro he
      exact hl.1 (he ▸ List.mem_map.mpr ⟨f, hf, rfl⟩)

/-- A dictionary is rebuilt by storing its own entries in order. -/
theorem insertMany_entries (d : Dict κ ν) : empty.insertMany d.entries = d := by
  ext1
  rw [entries_insertMany _ _ d.nodup (by simp [keys])]
  simp

/-- An entry after a store is the one stored or was there before. -/
theorem mem_entries_insert {d : Dict κ ν} {k : κ} {v : ν} {p : κ × ν}
    (h : p ∈ (d.insert k v).entries) : p = (k, v) ∨ p ∈ d.entries := by
  have hget := ((d.insert k v).get?_eq_some_iff p.1 p.2).mpr h
  rw [get?_insert] at hget
  split_ifs at hget with hk
  · cases hget
    exact Or.inl (Prod.ext hk rfl)
  · exact Or.inr ((d.get?_eq_some_iff p.1 p.2).mp hget)

/-- After insertions an entry is an inserted one or an old one. -/
theorem mem_entries_insertMany {d : Dict κ ν} {l : List (κ × ν)} {p : κ × ν}
    (h : p ∈ (d.insertMany l).entries) : p ∈ l ∨ p ∈ d.entries := by
  induction l generalizing d with
  | nil => exact Or.inr h
  | cons q l ih =>
    rw [insertMany_cons] at h
    rcases ih h with h | h
    · exact Or.inl (List.mem_cons_of_mem _ h)
    · rcases mem_entries_insert h with rfl | h
      · exact Or.inl List.mem_cons_self
      · exact Or.inr h

/-- Insertions leave a dictionary empty only when there is nothing to insert. -/
theorem entries_insertMany_ne_nil {d : Dict κ ν} {l : List (κ × ν)}
    (h : l ≠ [] ∨ d.entries ≠ []) : (d.insertMany l).entries ≠ [] := by
  induction l generalizing d with
  | nil => exact h.resolve_left (fun hne => hne rfl)
  | cons q l ih =>
    rw [insertMany_cons]
    refine ih (Or.inr ?_)
    intro hnil
    have hget := get?_insert_self d q.1 q.2
    rw [get?_eq_some_iff, hnil] at hget
    cases hget

/-- Deleting several keys is one filter. -/
theorem eraseMany_eq_filter (d : Dict κ ν) (l : List κ) :
    d.eraseMany l = d.filter fun k _ => k ∉ l := by
  induction l generalizing d with
  | nil => exact (filter_eq_self d _ (by simp)).symm
  | cons k l ih =>
    rw [eraseMany_cons, ih, erase, filter_filter]
    congr 1
    funext j v
    by_cases h : j = k <;> simp [h]

/-- A lookup after erasures. -/
theorem get?_eraseMany (d : Dict κ ν) (l : List κ) (j : κ) :
    (d.eraseMany l).get? j = if j ∈ l then none else d.get? j := by
  rw [eraseMany_eq_filter, get?_filter]
  by_cases h : j ∈ l
  · rw [if_pos h]
    cases d.get? j <;> simp [Option.filter, h]
  · rw [if_neg h]
    cases d.get? j <;> simp [Option.filter, h]

/-! ## Totals -/

/-- The sum of a number for each entry. -/
def total (f : κ → ν → ℕ) (d : Dict κ ν) : ℕ := (d.entries.map fun e => f e.1 e.2).sum

omit [DecidableEq κ] in
/-- Over a filter, the entries left out count nothing. -/
theorem total_filter (f : κ → ν → ℕ) (p : κ → ν → Bool) (d : Dict κ ν) :
    (d.filter p).total f = d.total fun k v => if p k v then f k v else 0 := by
  unfold total
  rw [entries_filter]
  induction d.entries with
  | nil => rfl
  | cons e l ih =>
    simp only [List.map_cons, List.sum_cons, List.filter_cons]
    by_cases h : p e.1 e.2 = true
    · rw [if_pos h, if_pos h, List.map_cons, List.sum_cons, ih]
    · rw [if_neg h, if_neg h, Nat.zero_add, ih]

omit [DecidableEq κ] in
/-- The total splits along a filter. -/
theorem total_filter_add (f : κ → ν → ℕ) (p : κ → ν → Bool) (d : Dict κ ν) :
    (d.filter fun k v => !p k v).total f + (d.filter p).total f = d.total f := by
  rw [total_filter, total_filter]
  unfold total
  induction d.entries with
  | nil => rfl
  | cons e l ih =>
    simp only [List.map_cons, List.sum_cons]
    rw [← ih]
    cases p e.1 e.2 with
    | true => simp [Nat.add_left_comm]
    | false => simp [Nat.add_assoc]

/-- The total is that of a key and that of the others. -/
theorem total_split (f : κ → ν → ℕ) (d : Dict κ ν) (k : κ) :
    d.total f = (d.erase k).total f + (d.get? k).elim 0 (f k) := by
  obtain ⟨l, hl⟩ := d
  unfold total erase get?
  simp only [entries_filter]
  induction l with
  | nil => rfl
  | cons e l ih =>
    obtain ⟨j, v⟩ := e
    simp only [List.map_cons, List.nodup_cons] at hl
    have ih' := ih hl.2
    by_cases hj : j = k
    · subst hj
      have hnone : l.find? (fun e => decide (e.1 = j)) = none := by
        rw [List.find?_eq_none]
        intro e he
        simpa using fun heq : e.1 = j => hl.1 (heq ▸ List.mem_map_of_mem he)
      rw [hnone] at ih'
      simp only [Option.map_none, Option.elim_none, Nat.add_zero] at ih'
      simp [ih', Nat.add_comm]
    · rw [List.map_cons, List.sum_cons, ih', List.filter_cons_of_pos (by simpa using hj),
        List.find?_cons_of_neg (by simpa using hj), List.map_cons, List.sum_cons, Nat.add_assoc]

/-- An insertion is undone by erasing its key. -/
theorem erase_insert (d : Dict κ ν) (k : κ) (v : ν) : (d.insert k v).erase k = d.erase k := by
  ext1
  unfold erase
  rw [entries_filter, entries_filter]
  by_cases h : k ∈ d.keys
  · rw [entries_insert_of_mem d v h]
    induction d.entries with
    | nil => rfl
    | cons e l ih =>
      rw [List.map_cons, List.filter_cons, List.filter_cons, ih]
      by_cases he : e.1 = k <;> simp [he]
  · rw [entries_insert_of_notMem d v h, List.filter_append]
    simp

/-- What an update in place does to the total. -/
theorem total_insert (f : κ → ν → ℕ) (d : Dict κ ν) {k : κ} {v : ν} (w : ν)
    (h : d.get? k = some v) : (d.insert k w).total f + f k v = d.total f + f k w := by
  rw [total_split f d k, total_split f (d.insert k w) k, erase_insert, get?_insert_self, h]
  simp only [Option.elim_some]
  omega

end Dict

end ByoRedis.Lib
