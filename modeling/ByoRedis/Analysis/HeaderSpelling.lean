import ByoRedis.Analysis.LinesRead
import ByoRedis.Interface.RespGrammar

/-!
# How a length may be spelled

The parser hands the line of a header to `int()`, which also reads a number with white space
around it, a sign in front of it or underscores in it. `framing_iff` says for which lines the
parser stays within the grammar of RESP2: for those that use none of these spellings.
-/

set_option autoImplicit false

namespace ByoRedis.Analysis

open ByoRedis.Model ByoRedis.Interface ByoRedis.Lib.Framing

/-! ## Spellings -/

/-- The lines of `$` and `*` headers. -/
def IsHeader (l : UInt8 × Bytes) : Prop := l.1 = 36 ∨ l.1 = 42

/-- The line uses none of the spellings that `int()` reads and RESP2 does not know: white space,
underscores and, in a header, a plus sign or a minus sign other than that of `-1`. The line of a
simple string or an error has no CR and no LF in it. -/
def Plain (l : UInt8 × Bytes) : Prop :=
  if l.1 = 43 ∨ l.1 = 45 then cr ∉ l.2 ∧ lf ∉ l.2
  else (∀ b ∈ l.2, isSpace b = false ∧ b ≠ 95) ∧
    (l.1 ≠ 58 → 43 ∉ l.2 ∧ (45 ∈ l.2 → l.2 = ascii "-1"))

instance (l : UInt8 × Bytes) : Decidable (Plain l) :=
  have : Decidable (∀ b ∈ l.2, isSpace b = false ∧ b ≠ 95) := List.decidableBAll _ _
  inferInstanceAs (Decidable (if l.1 = 43 ∨ l.1 = 45 then cr ∉ l.2 ∧ lf ∉ l.2
    else (∀ b ∈ l.2, isSpace b = false ∧ b ≠ 95) ∧
      (l.1 ≠ 58 → 43 ∉ l.2 ∧ (45 ∈ l.2 → l.2 = ascii "-1"))))

/-- `int()` reads the header's line as a length within the limit of its type.
SOURCE: protocol/parser.py:94-103, 119-128 -/
def HeaderAccepted (lim : Limits) (l : UInt8 × Bytes) : Prop :=
  ∃ v : ℤ, pyInt l.2 = some v ∧ -1 ≤ v ∧
    v ≤ ((if l.1 = 36 then lim.maxBulkLen else lim.maxArrayLen : ℕ) : ℤ)

/-! ## Spellings of numbers -/

/-- Without underscores a literal is its digits. -/
theorem digits_of_digitsOf {line ds : Bytes} (h : digitsOf line = some ds)
    (hplain : (95 : UInt8) ∉ line) : Digits line := by
  induction line using digitsOf.induct generalizing ds with
  | case1 => cases h
  | case2 d hd => exact ⟨List.cons_ne_nil _ _, by simpa using hd⟩
  | case3 d hd => simp [digitsOf, hd] at h
  | case4 d rest hd => simp at hplain
  | case5 d u rest hd hu ih =>
    simp only [digitsOf, hd, if_true, if_neg hu] at h
    obtain ⟨ds', hds', -⟩ := Option.map_eq_some_iff.mp h
    obtain ⟨-, hrest⟩ := ih hds' fun hmem => hplain (List.mem_cons_of_mem _ hmem)
    refine ⟨List.cons_ne_nil _ _, ?_⟩
    intro b hb
    rcases List.mem_cons.mp hb with rfl | hb
    · exact hd
    · exact hrest b hb
  | case6 d u rest hd => simp [digitsOf, hd] at h

/-- What `int()` reads without an underscore is digits. -/
theorem digits_of_parseDigits {line : Bytes} (h : parseDigits line ≠ none)
    (hplain : (95 : UInt8) ∉ line) : Digits line := by
  unfold parseDigits at h
  cases hds : digitsOf line with
  | none =>
    rw [hds] at h
    exact absurd rfl h
  | some ds => exact digits_of_digitsOf hds hplain

/-- What `int()` reads is an integer of the grammar if it has no white space and no underscore
in it. -/
theorem integerLine_of_pyInt {line : Bytes} {v : ℤ} (h : pyInt line = some v)
    (hplain : ∀ b ∈ line, isSpace b = false ∧ b ≠ 95) : IntegerLine line := by
  have hstrip : strip line = line := strip_of_notSpace fun b hb => (hplain b hb).1
  have hdigits : ∀ {r : Bytes}, (∀ b ∈ r, b ∈ line) → parseDigits r ≠ none → Digits r :=
    fun hr hsome => digits_of_parseDigits hsome fun hmem => (hplain 95 (hr 95 hmem)).2 rfl
  rw [pyInt, hstrip] at h
  split at h
  · rename_i r
    refine Or.inr ⟨r, hdigits (fun b hb => List.mem_cons_of_mem _ hb) ?_, Or.inr rfl⟩
    intro hnone
    rw [hnone] at h
    cases h
  · rename_i r
    refine Or.inr ⟨r, hdigits (fun b hb => List.mem_cons_of_mem _ hb) ?_, Or.inl rfl⟩
    intro hnone
    rw [hnone] at h
    cases h
  · refine Or.inl (hdigits (fun b hb => hb) ?_)
    intro hnone
    rw [hnone] at h
    cases h

/-- Digits are read by their value.
SOURCE: protocol/parser.py:94-95 -/
theorem pyInt_digits {line : Bytes} (h : Digits line) :
    pyInt line = if line.length ≤ maxStrDigits then some (digitsValue line : ℤ) else none := by
  have hspace : ∀ b ∈ line, isSpace b = false := fun b hb => not_isSpace_of_isDigit (h.2 b hb)
  have hparse : parseDigits line =
      if line.length ≤ maxStrDigits then some (digitsValue line) else none := by
    rw [parseDigits, digitsOf_digits h.1 h.2]
  rw [pyInt, strip_of_notSpace hspace]
  split
  · exact absurd (h.2 45 (by simp)) (by decide)
  · exact absurd (h.2 43 (by simp)) (by decide)
  · rw [hparse]
    split_ifs <;> rfl

/-- A header's line that is read and plain is one of the grammar. -/
theorem lengthLine_of_plain {p : UInt8} {line : Bytes} {v : ℤ} (hp : IsHeader (p, line))
    (h : pyInt line = some v) (hplain : Plain (p, line)) : LengthLine line := by
  have hsign : ¬ (p = 43 ∨ p = 45) := by
    rcases hp with hp | hp <;> simp only at hp <;> subst hp <;> decide
  have hint : p ≠ 58 := by
    rcases hp with hp | hp <;> simp only at hp <;> subst hp <;> decide
  rw [Plain, if_neg hsign] at hplain
  obtain ⟨hbytes, hsigns⟩ := hplain
  obtain ⟨hplus, hminus⟩ := hsigns hint
  rcases integerLine_of_pyInt h hbytes with hdigits | ⟨r, hr, rfl | rfl⟩
  · exact Or.inr hdigits
  · exact absurd (List.mem_cons_self) hplus
  · exact Or.inl (hminus List.mem_cons_self)

/-- The byte of a digit is no white space, no underscore and no sign. -/
theorem digit_ne {b : UInt8} (h : isDigit b = true) :
    isSpace b = false ∧ b ≠ 95 ∧ b ≠ 43 ∧ b ≠ 45 ∧ b ≠ cr := by
  refine ⟨not_isSpace_of_isDigit h, ?_, ?_, ?_, ?_⟩ <;>
  · rintro rfl
    exact absurd h (by decide)

variable {line : Bytes}

/-- A header of digits is plain. -/
theorem plain_digits {p : UInt8} (hp : IsHeader (p, line)) (h : Digits line) :
    Plain (p, line) := by
  have hsign : ¬ (p = 43 ∨ p = 45) := by
    rcases hp with hp | hp <;> simp only at hp <;> subst hp <;> decide
  rw [Plain, if_neg hsign]
  refine ⟨fun b hb => ⟨(digit_ne (h.2 b hb)).1, (digit_ne (h.2 b hb)).2.1⟩, fun _ => ⟨?_, ?_⟩⟩
  · intro hmem
    exact (digit_ne (h.2 43 hmem)).2.2.1 rfl
  · intro hmem
    exact absurd rfl (digit_ne (h.2 45 hmem)).2.2.2.1

/-- The lines of the grammar's headers are plain. -/
theorem plain_lengthLine {p : UInt8} (hp : IsHeader (p, line)) (h : LengthLine line) :
    Plain (p, line) := by
  rcases h with rfl | h
  · rcases hp with hp | hp <;> simp only at hp <;> subst hp <;> decide +kernel
  · exact plain_digits hp h

/-- So are those of its integers. -/
theorem plain_integerLine (h : IntegerLine line) : Plain (58, line) := by
  have hsign : ¬ ((58 : UInt8) = 43 ∨ (58 : UInt8) = 45) := by decide
  rw [Plain, if_neg hsign]
  refine ⟨?_, fun hne => absurd rfl hne⟩
  intro b hb
  rcases h with h | ⟨digits, h, rfl | rfl⟩
  · exact ⟨(digit_ne (h.2 b hb)).1, (digit_ne (h.2 b hb)).2.1⟩
  all_goals
    rcases List.mem_cons.mp hb with rfl | hb
    · decide
    · exact ⟨(digit_ne (h.2 b hb)).1, (digit_ne (h.2 b hb)).2.1⟩

/-- A number that is written plainly has no CR in it. -/
theorem cr_notMem_of_plain {p : UInt8} (h : Plain (p, line)) : cr ∉ line := by
  intro hmem
  rw [Plain] at h
  split_ifs at h
  · exact h.1 hmem
  · exact absurd (h.1 cr hmem).1 (by decide)

/-! ## Plain lines and derivations -/

/-- The elements of an array, one after the other. -/
theorem items_of_plain {item : Bytes → Parse RespValue} {lines : Bytes → List (UInt8 × Bytes)}
    (hitem : ∀ {buf : Bytes} {v : RespValue} {n : ℕ}, item buf = .done v n →
      (∀ l ∈ lines buf, Plain l) → Resp2 (buf.take n))
    {count n : ℕ} {buf : Bytes} {vs : List RespValue}
    (h : parseItems item count buf = .done vs n)
    (hplain : ∀ l ∈ itemLines item lines count buf, Plain l) :
    ∃ items : List Bytes, items.length = count ∧ items.flatten = buf.take n ∧
      ∀ i ∈ items, Resp2 i := by
  induction count generalizing buf vs n with
  | zero =>
    cases h
    exact ⟨[], rfl, rfl, nofun⟩
  | succ count ih =>
    rw [parseItems] at h
    cases hfirst : item buf with
    | more =>
      rw [hfirst] at h
      cases h
    | fail e =>
      rw [hfirst] at h
      cases h
    | done v m =>
      rw [hfirst] at h
      simp only at h
      cases hrest : parseItems item count (buf.drop m) with
      | more =>
        rw [hrest] at h
        cases h
      | fail e =>
        rw [hrest] at h
        cases h
      | done vs' m' =>
        rw [hrest] at h
        cases h
        simp only [itemLines, hfirst, List.mem_append] at hplain
        obtain ⟨items, hlen, hflat, hall⟩ := ih hrest fun l hl => hplain l (Or.inr hl)
        refine ⟨buf.take m :: items, ?_, ?_, ?_⟩
        · rw [List.length_cons, hlen]
        · rw [List.flatten_cons, hflat, List.take_add]
        · intro i hi
          rcases List.mem_cons.mp hi with rfl | hi
          · exact hitem hfirst fun l hl => hplain l (Or.inl hl)
          · exact hall i hi

/-- The bytes of a line with its type prefix. -/
theorem take_line (p : UInt8) {rest : Bytes} {m : ℕ} (h : readLine rest = some (line, m)) :
    (p :: rest).take (1 + m) = p :: (line ++ crlf) := by
  rw [Nat.add_comm, List.take_succ_cons, readLine_split h]

/-- The bytes of a header and of `k` bytes behind it. -/
theorem take_body (p : UInt8) {rest : Bytes} {m : ℕ} (h : readLine rest = some (line, m)) (k : ℕ) :
    (p :: rest).take (1 + m + k) = p :: (line ++ crlf) ++ (rest.drop m).take k := by
  rw [List.take_add, take_line p h]
  congr 2
  rw [Nat.add_comm, List.drop_succ_cons]

/-- One value whose lines are plain. -/
theorem resp2_of_reads {lim : Limits} {levels : ℕ} {buf : Bytes} {n : ℕ}
    {ls : List (UInt8 × Bytes)} (h : Reads lim levels buf n ls) (hplain : ∀ l ∈ ls, Plain l)
    (ih : ∀ {inner : ℕ} {buf : Bytes} {v : RespValue} {n : ℕ}, levels = inner + 1 →
      tryParse lim inner buf = .done v n → (∀ l ∈ linesRead lim inner buf, Plain l) →
      Resp2 (buf.take n)) : Resp2 (buf.take n) := by
  have hdigits : ∀ {p : UInt8} {line : Bytes} {k : ℕ}, IsHeader (p, line) →
      pyInt line = some (k : ℤ) → Plain (p, line) → Digits line ∧ digitsValue line = k := by
    intro p line k hp hint hline
    have hlength := lengthLine_of_plain hp hint hline
    rcases hlength with rfl | hd
    · have hneg : pyInt (ascii "-1") = some (-1) := by decide +kernel
      rw [hneg] at hint
      cases hint
    · refine ⟨hd, ?_⟩
      rw [pyInt_digits hd] at hint
      split_ifs at hint
      exact Int.ofNat.inj (Option.some.inj hint)
  have hnull : ∀ {p : UInt8} {line : Bytes}, IsHeader (p, line) → pyInt line = some (-1) →
      Plain (p, line) → line = ascii "-1" := by
    intro p line hp hint hline
    have hlength := lengthLine_of_plain hp hint hline
    rcases hlength with rfl | hd
    · rfl
    · rw [pyInt_digits hd] at hint
      split_ifs at hint
      cases hint
  cases h with
  | text hp hline =>
    rename_i p rest line m
    have htext : TextLine line := by
      have hpl := hplain _ List.mem_cons_self
      rwa [Plain, if_pos hp] at hpl
    rw [take_line p hline]
    rcases hp with rfl | rfl
    · exact .simple htext
    · exact .error htext
  | integer hline hint =>
    rw [take_line 58 hline]
    have hpl := hplain _ List.mem_cons_self
    exact .integer (integerLine_of_pyInt hint hpl.1)
  | nullBulk hline hint =>
    rw [take_line 36 hline, hnull (Or.inl rfl) hint (hplain _ List.mem_cons_self)]
    exact .nullBulk
  | bulk hline hint hlen htrailer =>
    rename_i rest line m k
    obtain ⟨hd, hvalue⟩ := hdigits (Or.inl rfl) hint (hplain _ List.mem_cons_self)
    have hdata : ((rest.drop m).take k).length = k := by
      rw [List.length_take]
      omega
    rw [Nat.add_assoc (1 + m), take_body 36 hline, List.take_add, htrailer, ← List.append_assoc]
    exact .bulk hd (hvalue.trans hdata.symm)
  | nullArray hline hint =>
    rw [take_line 42 hline, hnull (Or.inr rfl) hint (hplain _ List.mem_cons_self)]
    exact .nullArray
  | array hline hint hitems =>
    rename_i inner rest line m k j vs
    obtain ⟨hd, hvalue⟩ := hdigits (Or.inr rfl) hint (hplain _ List.mem_cons_self)
    obtain ⟨items, hlen, hflat, hall⟩ := items_of_plain (fun hdone hp => ih rfl hdone hp) hitems
      fun l hl => hplain l (List.mem_cons_of_mem _ hl)
    rw [take_body 42 hline, ← hflat]
    exact .array hd (hvalue.trans hlen.symm) hall

/-- **Plain lines make a derivation.** A value whose lines are plain is a frame of RESP2.
SOURCE: protocol/parser.py:58-137 -/
theorem resp2_of_plain {lim : Limits} {levels : ℕ} {buf : Bytes} {v : RespValue} {n : ℕ}
    (h : tryParse lim levels buf = .done v n)
    (hplain : ∀ l ∈ linesRead lim levels buf, Plain l) : Resp2 (buf.take n) := by
  induction levels generalizing buf v n with
  | zero => exact resp2_of_reads (reads_of_done h) hplain nofun
  | succ levels ih =>
    apply resp2_of_reads (reads_of_done h) hplain
    intro inner buf v n hinner hdone hp
    cases hinner
    exact ih hdone hp

/-! ## Derivations have plain lines -/

/-- What is read behind a line that is known. -/
theorem reads_line {lim : Limits} {levels : ℕ} {p : UInt8} {rest : Bytes} {n : ℕ}
    {ls : List (UInt8 × Bytes)} (h : Reads lim levels (p :: (line ++ (crlf ++ rest))) n ls)
    (hcr : cr ∉ line) :
    ls = [(p, line)] ∧ (n = line.length + 3 ∧ (IsHeader (p, line) → pyInt line = some (-1)) ∨
      p = 36 ∧ ∃ k : ℕ, pyInt line = some (k : ℤ) ∧ n = line.length + 3 + k + 2) ∨
    p = 42 ∧ ∃ (inner k j : ℕ) (vs : List RespValue), levels = inner + 1 ∧
      pyInt line = some (k : ℤ) ∧ parseItems (tryParse lim inner) k rest = .done vs j ∧
      n = line.length + 3 + j ∧
      ls = (42, line) :: itemLines (tryParse lim inner) (linesRead lim inner) k rest := by
  have hknown := readLine_text line rest hcr
  have hdrop : (line ++ (crlf ++ rest)).drop (line.length + 2) = rest := by
    rw [← List.append_assoc, List.drop_left' (by simp [crlf])]
  cases h with
  | text hp hline =>
    rw [hknown] at hline
    cases hline
    refine Or.inl ⟨rfl, Or.inl ⟨by omega, fun hheader => ?_⟩⟩
    rcases hp with rfl | rfl <;> rcases hheader with hheader | hheader <;> cases hheader
  | integer hline hint =>
    rw [hknown] at hline
    cases hline
    refine Or.inl ⟨rfl, Or.inl ⟨by omega, fun hheader => ?_⟩⟩
    rcases hheader with hheader | hheader <;> cases hheader
  | nullBulk hline hint =>
    rw [hknown] at hline
    cases hline
    exact Or.inl ⟨rfl, Or.inl ⟨by omega, fun _ => hint⟩⟩
  | bulk hline hint hlen htrailer =>
    rw [hknown] at hline
    cases hline
    exact Or.inl ⟨rfl, Or.inr ⟨rfl, _, hint, by omega⟩⟩
  | nullArray hline hint =>
    rw [hknown] at hline
    cases hline
    exact Or.inl ⟨rfl, Or.inl ⟨by omega, fun _ => hint⟩⟩
  | array hline hint hitems =>
    rw [hknown] at hline
    cases hline
    rw [hdrop] at hitems ⊢
    exact Or.inr ⟨rfl, _, _, _, _, rfl, hint, hitems, by omega, rfl⟩

/-- The elements of a derived array are read one by one, whatever follows them. -/
theorem plain_items {item : Bytes → Parse RespValue} {lines : Bytes → List (UInt8 × Bytes)}
    {items : List Bytes}
    (hitem : ∀ i ∈ items, ∀ {ext : Bytes} {v : RespValue} {n : ℕ}, item (i ++ ext) = .done v n →
      n = i.length ∧ ∀ l ∈ lines (i ++ ext), Plain l)
    {ext : Bytes} {vs : List RespValue} {n : ℕ}
    (h : parseItems item items.length (items.flatten ++ ext) = .done vs n) :
    n = items.flatten.length ∧
      ∀ l ∈ itemLines item lines items.length (items.flatten ++ ext), Plain l := by
  induction items generalizing vs n with
  | nil =>
    cases h
    exact ⟨rfl, nofun⟩
  | cons i items ih =>
    rw [List.length_cons, List.flatten_cons, List.append_assoc] at h ⊢
    rw [parseItems] at h
    cases hfirst : item (i ++ (items.flatten ++ ext)) with
    | more =>
      rw [hfirst] at h
      cases h
    | fail e =>
      rw [hfirst] at h
      cases h
    | done v m =>
      rw [hfirst] at h
      obtain ⟨rfl, hplain⟩ := hitem i List.mem_cons_self hfirst
      simp only [List.drop_left] at h
      cases hrest : parseItems item items.length (items.flatten ++ ext) with
      | more =>
        rw [hrest] at h
        cases h
      | fail e =>
        rw [hrest] at h
        cases h
      | done vs' m' =>
        rw [hrest] at h
        cases h
        obtain ⟨rfl, hothers⟩ := ih (fun j hj => hitem j (List.mem_cons_of_mem _ hj)) hrest
        refine ⟨List.length_append.symm, ?_⟩
        intro l hl
        simp only [itemLines, hfirst, List.drop_left, List.mem_append] at hl
        rcases hl with hl | hl
        · exact hplain l hl
        · exact hothers l hl

/-- A line in front of a buffer begins with its type. -/
theorem frame_append (p : UInt8) (line rest : Bytes) :
    [p] ++ line ++ crlf ++ rest = p :: (line ++ (crlf ++ rest)) := by
  simp

/-- The length of a line with its type and its end. -/
theorem length_frame (p : UInt8) (line : Bytes) :
    ([p] ++ line ++ crlf).length = line.length + 3 := by
  simp [crlf]

/-- A derived frame without a body. -/
theorem plain_of_line {lim : Limits} {levels : ℕ} {p : UInt8} {ext : Bytes} {v : RespValue}
    {n : ℕ} (hplain : Plain (p, line))
    (hbody : IsHeader (p, line) → ∀ k : ℕ, pyInt line ≠ some (k : ℤ))
    (hdone : tryParse lim levels ([p] ++ line ++ crlf ++ ext) = .done v n) :
    n = ([p] ++ line ++ crlf).length ∧
      ∀ l ∈ linesRead lim levels ([p] ++ line ++ crlf ++ ext), Plain l := by
  rw [frame_append] at hdone ⊢
  rw [length_frame]
  rcases reads_line (reads_of_done hdone) (cr_notMem_of_plain hplain) with
    ⟨hls, ⟨hn, -⟩ | ⟨hp, k, hint, -⟩⟩ | ⟨hp, -, k, -, -, -, hint, -⟩
  · rw [hls]
    refine ⟨hn, ?_⟩
    intro l hl
    rw [List.mem_singleton.mp hl]
    exact hplain
  · exact absurd hint (hbody (Or.inl hp) k)
  · exact absurd hint (hbody (Or.inr hp) k)

/-- The number that digits stand for. -/
theorem eq_digitsValue {i : ℤ} (hd : Digits line) (h : pyInt line = some i) :
    i = digitsValue line := by
  rw [pyInt_digits hd] at h
  split_ifs at h
  exact (Option.some.inj h).symm

/-- The null length. -/
theorem pyInt_minusOne : pyInt (ascii "-1") = some (-1) := by decide +kernel

/-- The null frames have no body. -/
theorem pyInt_minusOne_ne (k : ℕ) : pyInt (ascii "-1") ≠ some (k : ℤ) := by
  rw [pyInt_minusOne]
  intro h
  cases h

/-- A derived bulk string. -/
theorem plain_of_bulk {lim : Limits} {levels : ℕ} {data ext : Bytes} {v : RespValue} {n : ℕ}
    (hd : Digits line) (hlen : digitsValue line = data.length)
    (hdone : tryParse lim levels ([36] ++ line ++ crlf ++ data ++ crlf ++ ext) = .done v n) :
    n = ([36] ++ line ++ crlf ++ data ++ crlf).length ∧
      ∀ l ∈ linesRead lim levels ([36] ++ line ++ crlf ++ data ++ crlf ++ ext), Plain l := by
  have hplain : Plain (36, line) := plain_digits (Or.inl rfl) hd
  have hbytes : [36] ++ line ++ crlf ++ data ++ crlf ++ ext =
      36 :: (line ++ (crlf ++ (data ++ (crlf ++ ext)))) := by simp
  have hlength : ([36] ++ line ++ crlf ++ data ++ crlf).length =
      line.length + 3 + data.length + 2 := by
    rw [List.length_append, List.length_append, length_frame]
    rfl
  rw [hbytes] at hdone ⊢
  rw [hlength]
  rcases reads_line (reads_of_done hdone) (cr_notMem_of_plain hplain) with
    ⟨hls, ⟨-, hnull⟩ | ⟨-, k, hint, hn⟩⟩ | ⟨hp, -⟩
  · have hvalue := eq_digitsValue hd (hnull (Or.inl rfl))
    omega
  · have hvalue := eq_digitsValue hd hint
    rw [hls]
    refine ⟨by omega, ?_⟩
    intro l hl
    rw [List.mem_singleton.mp hl]
    exact hplain
  · cases hp

/-- A derived array. -/
theorem plain_of_array {lim : Limits} {levels : ℕ} {items : List Bytes} {ext : Bytes}
    {v : RespValue} {n : ℕ} (hd : Digits line) (hlen : digitsValue line = items.length)
    (hitems : ∀ i ∈ items, ∀ {levels : ℕ} {ext : Bytes} {v : RespValue} {n : ℕ},
      tryParse lim levels (i ++ ext) = .done v n →
      n = i.length ∧ ∀ l ∈ linesRead lim levels (i ++ ext), Plain l)
    (hdone : tryParse lim levels ([42] ++ line ++ crlf ++ items.flatten ++ ext) = .done v n) :
    n = ([42] ++ line ++ crlf ++ items.flatten).length ∧
      ∀ l ∈ linesRead lim levels ([42] ++ line ++ crlf ++ items.flatten ++ ext), Plain l := by
  have hplain : Plain (42, line) := plain_digits (Or.inr rfl) hd
  have hbytes : [42] ++ line ++ crlf ++ items.flatten ++ ext =
      42 :: (line ++ (crlf ++ (items.flatten ++ ext))) := by simp
  rw [hbytes] at hdone ⊢
  rw [List.length_append, length_frame]
  rcases reads_line (reads_of_done hdone) (cr_notMem_of_plain hplain) with
    ⟨-, ⟨-, hnull⟩ | ⟨hp, -⟩⟩ | ⟨-, inner, k, j, vs, -, hint, hparse, rfl, hls⟩
  · have hvalue := eq_digitsValue hd (hnull (Or.inr rfl))
    omega
  · cases hp
  · have hvalue := eq_digitsValue hd hint
    obtain rfl : k = items.length := by omega
    obtain ⟨rfl, hrest⟩ := plain_items (fun i hi => hitems i hi) hparse
    rw [hls]
    refine ⟨rfl, ?_⟩
    intro l hl
    rcases List.mem_cons.mp hl with rfl | hl
    · exact hplain
    · exact hrest l hl

/-- **Derivations have plain lines.** The parser, when it completes on bytes that begin with a
frame of RESP2, reads that frame, and its lines are plain.
SOURCE: protocol/parser.py:58-137 -/
theorem plain_of_resp2 {lim : Limits} {frame : Bytes} (hframe : Resp2 frame) :
    ∀ {levels : ℕ} {ext : Bytes} {v : RespValue} {n : ℕ},
      tryParse lim levels (frame ++ ext) = .done v n →
      n = frame.length ∧ ∀ l ∈ linesRead lim levels (frame ++ ext), Plain l := by
  induction hframe with
  | simple h => exact plain_of_line h nofun
  | error h => exact plain_of_line h nofun
  | integer h => exact plain_of_line (plain_integerLine h) nofun
  | nullBulk =>
    exact plain_of_line (plain_lengthLine (Or.inl rfl) (Or.inl rfl)) fun _ => pyInt_minusOne_ne
  | bulk h hlen => exact plain_of_bulk h hlen
  | nullArray =>
    exact plain_of_line (plain_lengthLine (Or.inr rfl) (Or.inl rfl)) fun _ => pyInt_minusOne_ne
  | array h hlen hitems ih => exact plain_of_array h hlen ih

/-! ## Lines that are refused -/

/-- A line that is read in an element is refused by the array.
SOURCE: protocol/parser.py:129-137 -/
theorem parseItems_fail {item : Bytes → Parse RespValue} {lines : Bytes → List (UInt8 × Bytes)}
    {l : UInt8 × Bytes} (hitem : ∀ buf, l ∈ lines buf → ∃ e, item buf = .fail e) {count : ℕ}
    {buf : Bytes} (hl : l ∈ itemLines item lines count buf) :
    ∃ e, parseItems item count buf = .fail e := by
  induction count generalizing buf with
  | zero => cases hl
  | succ count ih =>
    rw [itemLines, List.mem_append] at hl
    rw [parseItems]
    rcases hl with hl | hl
    · obtain ⟨e, he⟩ := hitem buf hl
      exact ⟨e, by rw [he]⟩
    · cases hfirst : item buf with
      | more =>
        rw [hfirst] at hl
        cases hl
      | fail e => exact ⟨e, rfl⟩
      | done v n =>
        rw [hfirst] at hl
        obtain ⟨e, he⟩ := ih hl
        exact ⟨e, by simp only [he]⟩

/-- The line of a bulk string's header is refused.
SOURCE: protocol/parser.py:94-103 -/
theorem parseBulkBody_fail {lim : Limits} (h : ¬ HeaderAccepted lim (36, line)) (m : ℕ)
    (body : Bytes) :
    ∃ e, parseBulkBody lim line m body = .fail e := by
  unfold parseBulkBody
  cases hint : pyInt line with
  | none => exact ⟨_, rfl⟩
  | some i =>
    have hout : ¬ (-1 ≤ i ∧ i ≤ (lim.maxBulkLen : ℤ)) := fun hi => h ⟨i, hint, hi⟩
    simp only
    split_ifs
    · omega
    · exact ⟨_, rfl⟩
    · exact ⟨_, rfl⟩
    all_goals omega

/-- The line of an array's header is refused.
SOURCE: protocol/parser.py:119-128 -/
theorem parseArrayBody_fail {lim : Limits} (h : ¬ HeaderAccepted lim (42, line))
    (item : Bytes → Parse RespValue) (m : ℕ) (body : Bytes) :
    ∃ e, parseArrayBody lim item line m body = .fail e := by
  unfold parseArrayBody
  cases hint : pyInt line with
  | none => exact ⟨_, rfl⟩
  | some i =>
    have hout : ¬ (-1 ≤ i ∧ i ≤ (lim.maxArrayLen : ℤ)) := fun hi => h ⟨i, hint, hi⟩
    simp only
    split_ifs
    · omega
    · exact ⟨_, rfl⟩
    · exact ⟨_, rfl⟩
    · omega

/-- Where a line is read: at the front of the buffer, or in an array. -/
theorem mem_valueLines {array : Bytes → List (UInt8 × Bytes)} {buf : Bytes} {l : UInt8 × Bytes}
    (h : l ∈ valueLines array buf) :
    (∃ p rest line m, buf = p :: rest ∧ p ≠ 42 ∧ readLine rest = some (line, m) ∧
      l = (p, line)) ∨ ∃ rest, buf = 42 :: rest ∧ l ∈ array rest := by
  cases buf with
  | nil => cases h
  | cons p rest =>
    rw [valueLines] at h
    split_ifs at h with hp h42
    · rcases hline : readLine rest with _ | ⟨line, m⟩
      · rw [hline] at h
        cases h
      · rw [hline] at h
        refine Or.inl ⟨p, rest, line, m, rfl, ?_, hline, List.mem_singleton.mp h⟩
        rintro rfl
        exact absurd hp (by decide)
    · subst h42
      exact Or.inr ⟨rest, rfl, h⟩
    · cases h

/-- **A header that is not accepted makes the parser raise**, at whatever depth it is read.
SOURCE: protocol/parser.py:90-137 -/
theorem fail_of_not_accepted {lim : Limits} {levels : ℕ} {buf : Bytes} {l : UInt8 × Bytes}
    (hl : l ∈ linesRead lim levels buf) (hheader : IsHeader l) (h : ¬ HeaderAccepted lim l) :
    ∃ e, tryParse lim levels buf = .fail e := by
  have hfront : ∀ {levels : ℕ} {p : UInt8} {rest line : Bytes} {m : ℕ}, p ≠ 42 →
      readLine rest = some (line, m) → l = (p, line) →
      ∃ e, tryParse lim levels (p :: rest) = .fail e := by
    rintro levels p rest line m hp hline rfl
    obtain rfl : p = 36 := hheader.resolve_right hp
    have hbulk : tryParse lim levels (36 :: rest) = parseBulk lim rest := by
      cases levels <;> rfl
    obtain ⟨e, he⟩ := parseBulkBody_fail h m (rest.drop m)
    refine ⟨e, ?_⟩
    rw [hbulk, parseBulk, hline]
    exact he
  induction levels generalizing buf with
  | zero =>
    rcases mem_valueLines hl with ⟨p, rest, line, m, rfl, hp, hline, hpl⟩ | ⟨rest, -, hmem⟩
    · exact hfront hp hline hpl
    · cases hmem
  | succ levels ih =>
    rcases mem_valueLines hl with ⟨p, rest, line, m, rfl, hp, hline, hpl⟩ | ⟨rest, rfl, hmem⟩
    · exact hfront hp hline hpl
    · have harray : tryParse lim (levels + 1) (42 :: rest) =
          parseArray lim (tryParse lim levels) rest := rfl
      rw [harray, parseArray]
      rw [arrayLines] at hmem
      rcases hline : readLine rest with _ | ⟨line, m⟩
      · rw [hline] at hmem
        cases hmem
      · rw [hline] at hmem
        simp only at hmem ⊢
        rcases List.mem_cons.mp hmem with rfl | hmem
        · exact parseArrayBody_fail h _ m _
        · rw [parseArrayBody]
          cases hint : pyInt line with
          | none => exact ⟨_, rfl⟩
          | some i =>
            rw [hint] at hmem
            simp only at hmem ⊢
            split_ifs at hmem with hlong
            · cases hmem
            · obtain ⟨e, he⟩ := parseItems_fail (fun buf hbuf => ih hbuf) hmem
              split_ifs with hnull hneg
              · subst hnull
                cases hmem
              · exact ⟨_, rfl⟩
              · exact ⟨e, by rw [he]⟩

/-- A header that is accepted is waited for or read, but not refused.
SOURCE: protocol/parser.py:94-109, 119-137 -/
theorem not_fail_of_accepted {lim : Limits} {p : UInt8} (hheader : IsHeader (p, line))
    (hline : readLine (line ++ crlf) = some (line, line.length + 2))
    (h : HeaderAccepted lim (p, line)) (e : ProtocolError) :
    tryParse lim 1 (p :: (line ++ crlf)) ≠ .fail e := by
  have hdrop : (line ++ crlf).drop (line.length + 2) = [] := by
    apply List.drop_of_length_le
    simp [crlf]
  obtain ⟨i, hint, hlow, hhigh⟩ := h
  simp only at hint
  rcases hheader with hp | hp
  · simp only at hp
    subst hp
    have hbulk : tryParse lim 1 (36 :: (line ++ crlf)) = parseBulk lim (line ++ crlf) := rfl
    have hmax : i ≤ (lim.maxBulkLen : ℤ) := hhigh
    rw [hbulk, parseBulk, hline]
    simp only [parseBulkBody, hint, hdrop]
    split_ifs with hnull hneg hlong hshort
    · simp
    · omega
    · omega
    · simp
    · exact absurd (Nat.zero_lt_succ _) hshort
    · simp
  · simp only at hp
    subst hp
    have harray : tryParse lim 1 (42 :: (line ++ crlf)) =
        parseArray lim (tryParse lim 0) (line ++ crlf) := rfl
    have hmax : i ≤ (lim.maxArrayLen : ℤ) := hhigh
    rw [harray, parseArray, hline]
    simp only [parseArrayBody, hint, hdrop]
    split_ifs with hnull hneg hlong
    · simp
    · omega
    · omega
    · cases i.toNat with
      | zero => simp [parseItems]
      | succ k =>
        have hempty : parseItems (tryParse lim 0) (k + 1) [] = .more := rfl
        simp [hempty]

/-! ## The framing -/

/-- **When the parser stays within RESP2.** A value that is read is a frame of RESP2, with `-1`
or digits in the line of every header at every depth, exactly when all its lines are plain. A
header's line that is neither `-1` nor digits makes the parser raise, wherever it is read,
exactly when `int()` does not read it as a length within the limit in one of its other spellings.
SOURCE: protocol/parser.py:58-144 -/
theorem framing_iff (lim : Limits) :
    (∀ (levels : ℕ) (buf : Bytes) (v : RespValue) (n : ℕ), tryParse lim levels buf = .done v n →
      ((∀ l ∈ linesRead lim levels buf, IsHeader l → LengthLine l.2) ∧ Resp2 (buf.take n) ↔
        ∀ l ∈ linesRead lim levels buf, Plain l)) ∧
    ∀ (p : UInt8) (line : Bytes), IsHeader (p, line) →
      readLine (line ++ crlf) = some (line, line.length + 2) →
      ((∀ levels buf, (p, line) ∈ linesRead lim levels buf → ¬ LengthLine line →
        ∃ e, tryParse lim levels buf = .fail e) ↔ (HeaderAccepted lim (p, line) → Plain (p, line))) := by
  constructor
  · intro levels buf v n hdone
    constructor
    · rintro ⟨-, hframe⟩
      have hdone' : tryParse lim levels (buf.take n ++ buf.drop n) = .done v n := by
        rw [List.take_append_drop]
        exact hdone
      have hplain := (plain_of_resp2 hframe hdone').2
      rwa [List.take_append_drop] at hplain
    · intro hplain
      refine ⟨fun l hl hheader => ?_, resp2_of_plain hdone hplain⟩
      have haccepted : HeaderAccepted lim l := by
        by_contra hnot
        obtain ⟨e, he⟩ := fail_of_not_accepted hl hheader hnot
        rw [hdone] at he
        cases he
      obtain ⟨i, hint, -⟩ := haccepted
      exact lengthLine_of_plain hheader hint (hplain l hl)
  · intro p line hheader hline
    constructor
    · intro hrefused haccepted
      by_contra hnot
      have hread : (p, line) ∈ linesRead lim 1 (p :: (line ++ crlf)) := by
        rcases hheader with hp | hp
        · simp only at hp
          subst hp
          rw [linesRead_of_line lim 1 (by decide) hline]
          exact List.mem_singleton_self _
        · simp only at hp
          subst hp
          show (42, line) ∈ arrayLines lim (tryParse lim 0) (linesRead lim 0) (line ++ crlf)
          rw [arrayLines, hline]
          exact List.mem_cons_self
      obtain ⟨e, he⟩ := hrefused 1 _ hread fun hlength => hnot (plain_lengthLine hheader hlength)
      exact not_fail_of_accepted hheader hline haccepted e he
    · intro hplain levels buf hl hnot
      apply fail_of_not_accepted hl hheader
      intro haccepted
      obtain ⟨i, hint, -⟩ := id haccepted
      exact hnot (lengthLine_of_plain hheader hint (hplain haccepted))

/-- The number of bytes a completed value takes. -/
def consumed : Parse RespValue → Option ℕ
  | .done _ n => some n
  | _ => none

/-- A frame that was consumed has a value. -/
theorem done_of_consumed {o : Parse RespValue} {n : ℕ} (h : consumed o = some n) :
    ∃ v, o = .done v n := by
  cases o with
  | more => cases h
  | fail e => cases h
  | done v m =>
    cases h
    exact ⟨v, rfl⟩

/-- `PING` with the digits of its lengths, one of them with a leading zero. -/
def plainPing : Bytes := ascii "*1\r\n$04\r\nPING\r\n"

/-- The leading zero is a digit, so this is a frame; a length with a blank in front is not
refused. -/
theorem framing_iff_ping :
    (∃ v, tryParse {} 64 plainPing = .done v plainPing.length ∧ Resp2 plainPing) ∧
    ¬ ∀ levels buf, (36, ascii " 4") ∈ linesRead {} levels buf → ¬ LengthLine (ascii " 4") →
      ∃ e, tryParse {} levels buf = .fail e := by
  constructor
  · obtain ⟨v, h⟩ := done_of_consumed (o := tryParse {} 64 plainPing) (n := plainPing.length)
      (by decide +kernel)
    have hlines : ∀ l ∈ linesRead {} 64 plainPing, Plain l := by decide +kernel
    obtain ⟨-, hframe⟩ := ((framing_iff {}).1 64 plainPing v _ h).mpr hlines
    rw [List.take_length] at hframe
    exact ⟨v, h, hframe⟩
  · have hplain := (framing_iff {}).2 36 (ascii " 4") (Or.inl rfl) (by decide +kernel)
    rw [hplain]
    intro h
    exact absurd (h ⟨4, by decide +kernel, by decide, by decide⟩) (by decide +kernel)

/-- A command whose lengths `int()` reads and RESP2 does not know. -/
def oddEcho : Bytes := ascii "*+1\r\n$1_0\r\n0123456789\r\n"

/-- It is parsed, and it is no frame. -/
theorem framing_iff_oddEcho :
    (∃ v, tryParse {} 64 oddEcho = .done v oddEcho.length) ∧
    linesRead {} 64 oddEcho = [(42, ascii "+1"), (36, ascii "1_0")] ∧
    ¬ LengthLine (ascii "+1") ∧ ¬ LengthLine (ascii "1_0") ∧ ¬ Resp2 oddEcho := by
  have hlines : linesRead {} 64 oddEcho = [(42, ascii "+1"), (36, ascii "1_0")] := by
    decide +kernel
  obtain ⟨v, h⟩ := done_of_consumed (o := tryParse {} 64 oddEcho) (n := oddEcho.length)
    (by decide +kernel)
  refine ⟨⟨v, h⟩, hlines, by decide +kernel, by decide +kernel, ?_⟩
  intro hframe
  rw [← List.append_nil oddEcho] at h
  have hplain := (plain_of_resp2 hframe h).2 (42, ascii "+1")
  rw [List.append_nil, hlines] at hplain
  exact absurd (hplain List.mem_cons_self) (by decide +kernel)

end ByoRedis.Analysis
