import Mathlib.Data.List.Basic

/-!
# Reading a stream into a buffer

A stream arrives in chunks. `fill k buf cs` appends chunks to a buffer until it holds `k`
symbols; what it reads depends on where the chunks end. `fill_fill` says that filling in two
goes is filling in one, `fill_append` that a part of the buffer may be set aside, and
`cutIn_iff` what the length of the filled buffer says about the chunks.
-/

set_option autoImplicit false

namespace ByoRedis.Lib.Chunks

variable {β : Type}

/-- The longer of two fronts of a stream begins with the shorter. -/
theorem append_split {a b l y : List β} (h : a ++ b = l ++ y) (hle : l.length ≤ a.length) :
    ∃ x, a = l ++ x ∧ x ++ b = y := by
  rcases List.append_eq_append_iff.mp h with ⟨x, hl, hb⟩ | ⟨x, ha, hy⟩
  · have hx : x = [] := by
      rw [hl, List.length_append] at hle
      exact List.length_eq_zero_iff.mp (by omega)
    subst hx
    rw [List.append_nil] at hl
    exact ⟨[], by rw [hl, List.append_nil], hb⟩
  · exact ⟨x, ha, hy.symm⟩

/-- Appending chunks to the buffer until it holds at least `k` symbols: the buffer and the
chunks left. -/
def fill (k : ℕ) : List β → List (List β) → List β × List (List β)
  | buf, [] => (buf, [])
  | buf, c :: cs => if k ≤ buf.length then (buf, c :: cs) else fill k (buf ++ c) cs

/-- A buffer with enough in it takes no chunk. -/
theorem fill_of_le {k : ℕ} {buf : List β} (h : k ≤ buf.length) (cs : List (List β)) :
    fill k buf cs = (buf, cs) := by
  cases cs with
  | nil => rfl
  | cons c cs => rw [fill, if_pos h]

/-- A buffer with too little in it takes the next chunk. -/
theorem fill_of_lt {k : ℕ} {buf : List β} (h : buf.length < k) (c : List β)
    (cs : List (List β)) : fill k buf (c :: cs) = fill k (buf ++ c) cs := by
  rw [fill, if_neg (by omega)]

/-- No symbol is lost. -/
theorem fill_flatten (k : ℕ) (buf : List β) (cs : List (List β)) :
    (fill k buf cs).1 ++ (fill k buf cs).2.flatten = buf ++ cs.flatten := by
  induction cs generalizing buf with
  | nil => rfl
  | cons c cs ih =>
    by_cases h : k ≤ buf.length
    · rw [fill_of_le h]
    · rw [fill_of_lt (by omega), ih, List.append_assoc, List.flatten_cons]

/-- Filling up to `k` on the way to `k'` changes nothing. -/
theorem fill_fill {k k' : ℕ} (h : k ≤ k') (buf : List β) (cs : List (List β)) :
    fill k' (fill k buf cs).1 (fill k buf cs).2 = fill k' buf cs := by
  induction cs generalizing buf with
  | nil => rfl
  | cons c cs ih =>
    by_cases hk : k ≤ buf.length
    · rw [fill_of_le hk]
    · rw [fill_of_lt (by omega), ih, fill_of_lt (by omega : buf.length < k')]

/-- The front of the buffer does not take part. -/
theorem fill_append (k : ℕ) (a buf : List β) (cs : List (List β)) :
    fill (a.length + k) (a ++ buf) cs = (a ++ (fill k buf cs).1, (fill k buf cs).2) := by
  induction cs generalizing buf with
  | nil => rfl
  | cons c cs ih =>
    by_cases h : k ≤ buf.length
    · rw [fill_of_le h, fill_of_le (by rw [List.length_append]; omega)]
    · have hlt : (a ++ buf).length < a.length + k := by
        rw [List.length_append]
        omega
      rw [fill_of_lt hlt, List.append_assoc, ih, fill_of_lt (by omega : buf.length < k)]

/-- Filling stops at the first chunk that brings enough. -/
theorem fill_split {k : ℕ} (buf : List β) (pre post : List (List β))
    (h : k ≤ buf.length + pre.flatten.length) :
    ∃ pre' mid, pre = pre' ++ mid ∧
      fill k buf (pre ++ post) = (buf ++ pre'.flatten, mid ++ post) := by
  induction pre generalizing buf with
  | nil => exact ⟨[], [], rfl, by rw [fill_of_le (by simpa using h)]; simp⟩
  | cons c pre ih =>
    by_cases hk : k ≤ buf.length
    · exact ⟨[], c :: pre, rfl, by rw [fill_of_le hk]; simp⟩
    · have hpre : k ≤ (buf ++ c).length + pre.flatten.length := by
        rw [List.flatten_cons, List.length_append] at h
        rw [List.length_append]
        omega
      obtain ⟨pre', mid, rfl, hfill⟩ := ih (buf ++ c) hpre
      refine ⟨c :: pre', mid, rfl, ?_⟩
      rw [List.cons_append, fill_of_lt (by omega), hfill, List.flatten_cons, List.append_assoc]

/-- Chunks that are wanted to the last symbol are read to the last chunk. -/
theorem fill_exact (buf : List β) {cs : List (List β)} (hcs : ∀ c ∈ cs, c ≠ [])
    (post : List (List β)) :
    fill (buf.length + cs.flatten.length) buf (cs ++ post) = (buf ++ cs.flatten, post) := by
  induction cs generalizing buf with
  | nil => rw [List.nil_append, fill_of_le (by simp), List.flatten_nil, List.append_nil]
  | cons c cs ih =>
    have hpos : 0 < c.length := List.length_pos_iff.mpr (hcs c List.mem_cons_self)
    have hrest := ih (buf ++ c) fun d hd => hcs d (List.mem_cons_of_mem c hd)
    rw [List.length_append, Nat.add_assoc] at hrest
    rw [List.flatten_cons, List.length_append, List.cons_append, fill_of_lt (by omega), hrest,
      List.append_assoc]

/-- The buffer fills when the chunks suffice. -/
theorem le_length_fill {k : ℕ} {buf : List β} {cs : List (List β)}
    (h : k ≤ buf.length + cs.flatten.length) : k ≤ (fill k buf cs).1.length := by
  induction cs generalizing buf with
  | nil => simpa [fill] using h
  | cons c cs ih =>
    by_cases hk : k ≤ buf.length
    · rw [fill_of_le hk]
      exact hk
    · rw [fill_of_lt (by omega)]
      refine ih ?_
      rw [List.flatten_cons, List.length_append] at h
      rw [List.length_append]
      omega

/-- The last chunk is the only one that goes beyond `k`. -/
theorem length_fill_le {k w : ℕ} {buf : List β} {cs : List (List β)} (hbuf : buf.length ≤ k + w)
    (hcs : ∀ c ∈ cs, c.length ≤ w) : (fill k buf cs).1.length ≤ k + w := by
  induction cs generalizing buf with
  | nil => exact hbuf
  | cons c cs ih =>
    by_cases hk : k ≤ buf.length
    · rw [fill_of_le hk]
      exact hbuf
    · rw [fill_of_lt (by omega)]
      have hc := hcs c List.mem_cons_self
      refine ih ?_ fun d hd => hcs d (List.mem_cons_of_mem c hd)
      rw [List.length_append]
      omega

/-- The chunks that are left are chunks that were given. -/
theorem mem_of_mem_fill {k : ℕ} {buf c : List β} {cs : List (List β)}
    (h : c ∈ (fill k buf cs).2) : c ∈ cs := by
  obtain ⟨pre', mid, hcs, hfill⟩ : ∃ pre' mid, cs = pre' ++ mid ∧ (fill k buf cs).2 = mid := by
    induction cs generalizing buf with
    | nil => exact ⟨[], [], rfl, rfl⟩
    | cons d cs ih =>
      by_cases hk : k ≤ buf.length
      · exact ⟨[], d :: cs, rfl, by rw [fill_of_le hk]⟩
      · rw [fill_of_lt (by omega)] at h ⊢
        obtain ⟨pre', mid, rfl, hmid⟩ := ih h
        exact ⟨d :: pre', mid, rfl, hmid⟩
  rw [hfill] at h
  rw [hcs]
  exact List.mem_append_right _ h

/-- Some chunk ends at a position from `a` on and before `b`. -/
def CutIn (cs : List (List β)) (a b : ℕ) : Prop :=
  ∃ pre post, cs = pre ++ post ∧ a ≤ pre.flatten.length ∧ pre.flatten.length < b

/-- A cut lies behind `a` and before `b` when the buffer that fills to `a` ends before `b`. -/
theorem cutIn_iff {cs : List (List β)} {a : ℕ} (b : ℕ) (h : a ≤ cs.flatten.length) :
    CutIn cs a b ↔ (fill a [] cs).1.length < b := by
  constructor
  · rintro ⟨pre, post, rfl, ha, hb⟩
    obtain ⟨pre', mid, rfl, hfill⟩ := fill_split [] pre post (by simpa using ha)
    rw [hfill]
    rw [List.flatten_append, List.length_append] at hb
    simp only [List.nil_append]
    omega
  · intro hb
    obtain ⟨pre', mid, hcs, hfill⟩ := fill_split [] cs [] (by simpa using h)
    rw [List.append_nil] at hfill
    have hlong := @le_length_fill β a [] cs (by simpa using h)
    rw [hfill] at hb hlong
    exact ⟨pre', mid, hcs, by simpa using hlong, by simpa using hb⟩

/-- No chunk has symbols on both sides of position `b`. -/
def NotAcross (b : ℕ) (cs : List (List β)) : Prop :=
  ∀ pre c post, cs = pre ++ c :: post →
    b ≤ pre.flatten.length ∨ pre.flatten.length + c.length ≤ b

/-- The first of the chunks do not cross it either. -/
theorem NotAcross.of_append {b : ℕ} {cs late : List (List β)} (h : NotAcross b (cs ++ late)) :
    NotAcross b cs := by
  intro pre c post hcs
  refine h pre c (post ++ late) ?_
  rw [hcs, List.append_assoc, List.cons_append]

/-- The first of the chunks are as long as that. -/
theorem NotAcross.of_cut {b : ℕ} {front back : List (List β)} (h : front.flatten.length = b) :
    NotAcross b (front ++ back) := by
  intro pre c post hcs
  obtain ⟨mid, rfl, -⟩ | ⟨mid, rfl, hmid⟩ := List.append_eq_append_iff.mp hcs
  · left
    rw [List.flatten_append, List.length_append]
    omega
  · cases mid with
    | nil =>
      left
      rw [List.append_nil] at h
      exact Nat.le_of_eq h.symm
    | cons c' mid =>
      cases (List.cons.inj hmid).1
      right
      simp only [List.flatten_append, List.flatten_cons, List.length_append] at h
      omega

/-- A chunk ends at a position that no chunk crosses. -/
theorem NotAcross.cutIn {b w : ℕ} {cs : List (List β)} (h : NotAcross b cs)
    (hb : b ≤ cs.flatten.length) (hw : 0 < w) : CutIn cs b (b + w) := by
  rw [cutIn_iff _ hb]
  have hshort : ∀ (buf : List β) (pre cs : List (List β)), NotAcross b (pre ++ cs) →
      buf.length = pre.flatten.length → buf.length ≤ b → (fill b buf cs).1.length ≤ b := by
    intro buf pre cs
    induction cs generalizing buf pre with
    | nil => exact fun _ _ hle => hle
    | cons c cs ih =>
      intro hacross hlen hle
      by_cases hfull : b ≤ buf.length
      · rw [fill_of_le hfull]
        exact hle
      · rw [fill_of_lt (by omega)]
        have hc := hacross pre c cs rfl
        refine ih (buf ++ c) (pre ++ [c]) ?_ ?_ ?_
        · rw [List.append_assoc]
          exact hacross
        · rw [List.length_append, hlen, List.flatten_append, List.flatten_singleton,
            List.length_append]
        · rw [List.length_append]
          omega
  have hle := hshort [] [] cs h rfl (Nat.zero_le b)
  omega

/-- Single symbols cross nothing. -/
theorem NotAcross.append_singles {b : ℕ} {cs : List (List β)} (h : NotAcross b cs)
    (late : List β) : NotAcross b (cs ++ late.map fun x => [x]) := by
  intro pre c post hcs
  obtain ⟨mid, hpre, hrest⟩ | ⟨mid, hpre, hrest⟩ := List.append_eq_append_iff.mp hcs
  · have hmem : c ∈ late.map fun x => [x] := by
      rw [hrest]
      exact List.mem_append_right _ List.mem_cons_self
    obtain ⟨x, -, rfl⟩ := List.mem_map.mp hmem
    rw [List.length_singleton]
    omega
  · cases mid with
    | nil =>
      have hmem : c ∈ late.map fun x => [x] := by
        rw [List.nil_append] at hrest
        rw [← hrest]
        exact List.mem_cons_self
      obtain ⟨x, -, rfl⟩ := List.mem_map.mp hmem
      rw [List.length_singleton]
      omega
    | cons c' mid =>
      obtain ⟨rfl, -⟩ := List.cons.inj hrest
      exact h pre c mid hpre

end ByoRedis.Lib.Chunks
