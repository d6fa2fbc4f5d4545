import ByoRedis.Analysis.RespParsing

/-!
# The lines the parser reads

`linesRead` are the complete lines that `_try_parse` takes from the front of a buffer, at every
depth, and `Reads` says what a completed value is made of: its line, the bytes behind it, and
the lines of its elements.
-/

set_option autoImplicit false

namespace ByoRedis.Analysis

open ByoRedis.Model ByoRedis.Lib.Framing

/-! ## The lines that are read -/

/-- The lines of `count` values one after the other, up to one that cannot be read. -/
def itemLines (item : Bytes → Parse RespValue) (lines : Bytes → List (UInt8 × Bytes)) :
    ℕ → Bytes → List (UInt8 × Bytes)
  | 0, _ => []
  | count + 1, buf =>
    lines buf ++
      match item buf with
      | .done _ n => itemLines item lines count (buf.drop n)
      | _ => []

/-- The header line of an array and the lines of its elements. -/
def arrayLines (lim : Limits) (item : Bytes → Parse RespValue)
    (lines : Bytes → List (UInt8 × Bytes)) (rest : Bytes) : List (UInt8 × Bytes) :=
  match readLine rest with
  | none => []
  | some (line, n) =>
    (42, line) ::
      match pyInt line with
      | none => []
      | some count =>
        if (lim.maxArrayLen : ℤ) < count then []
        else itemLines item lines count.toNat (rest.drop n)

/-- The lines of a value, whatever it is; `array` are those behind a `*`. -/
def valueLines (array : Bytes → List (UInt8 × Bytes)) : Bytes → List (UInt8 × Bytes)
  | [] => []
  | p :: rest =>
    if p = 43 ∨ p = 45 ∨ p = 58 ∨ p = 36 then
      match readLine rest with
      | none => []
      | some (line, _) => [(p, line)]
    else if p = 42 then array rest
    else []

/-- The complete lines that `_try_parse` reads from the front of a buffer, at every depth, each
with the type prefix in front of it. -/
def linesRead (lim : Limits) : ℕ → Bytes → List (UInt8 × Bytes)
  | 0 => valueLines fun _ => []
  | levels + 1 => valueLines (arrayLines lim (tryParse lim levels) (linesRead lim levels))

/-! ## What is read -/

variable {line : Bytes}

/-- A complete line stands in front of the bytes behind it. -/
theorem readLine_split {buf : Bytes} {n : ℕ} (h : readLine buf = some (line, n)) :
    buf.take n = line ++ crlf := by
  induction buf generalizing line n with
  | nil => cases h
  | cons a buf ih =>
    cases buf with
    | nil => cases h
    | cons b rest =>
      rw [readLine] at h
      by_cases hab : a = cr ∧ b = lf
      · rw [if_pos hab] at h
        cases h
        rw [hab.1, hab.2]
        rfl
      · rw [if_neg hab] at h
        obtain ⟨⟨l, m⟩, hr, heq⟩ := Option.map_eq_some_iff.mp h
        cases heq
        rw [List.take_succ_cons, ih hr]
        rfl

/-- What `_try_parse` reads when it completes: the type prefix and its line, and what is behind
them. -/
inductive Reads (lim : Limits) : ℕ → Bytes → ℕ → List (UInt8 × Bytes) → Prop where
  | text {levels : ℕ} {p : UInt8} {rest line : Bytes} {m : ℕ} (hp : p = 43 ∨ p = 45)
    (hline : readLine rest = some (line, m)) : Reads lim levels (p :: rest) (1 + m) [(p, line)]
  | integer {levels : ℕ} {rest line : Bytes} {m : ℕ} {i : ℤ}
    (hline : readLine rest = some (line, m)) (hint : pyInt line = some i) :
    Reads lim levels (58 :: rest) (1 + m) [(58, line)]
  | nullBulk {levels : ℕ} {rest line : Bytes} {m : ℕ} (hline : readLine rest = some (line, m))
    (hint : pyInt line = some (-1)) : Reads lim levels (36 :: rest) (1 + m) [(36, line)]
  | bulk {levels : ℕ} {rest line : Bytes} {m k : ℕ} (hline : readLine rest = some (line, m))
    (hint : pyInt line = some (k : ℤ)) (hlen : k + 2 ≤ (rest.drop m).length)
    (htrailer : ((rest.drop m).drop k).take 2 = crlf) :
    Reads lim levels (36 :: rest) (1 + m + k + 2) [(36, line)]
  | nullArray {levels : ℕ} {rest line : Bytes} {m : ℕ} (hline : readLine rest = some (line, m))
    (hint : pyInt line = some (-1)) : Reads lim (levels + 1) (42 :: rest) (1 + m) [(42, line)]
  | array {levels : ℕ} {rest line : Bytes} {m k j : ℕ} {vs : List RespValue}
    (hline : readLine rest = some (line, m)) (hint : pyInt line = some (k : ℤ))
    (hitems : parseItems (tryParse lim levels) k (rest.drop m) = .done vs j) :
    Reads lim (levels + 1) (42 :: rest) (1 + m + j)
      ((42, line) :: itemLines (tryParse lim levels) (linesRead lim levels) k (rest.drop m))

/-- A frame of one line has one line read. -/
theorem linesRead_of_line (lim : Limits) (levels : ℕ) {p : UInt8} {rest : Bytes} {m : ℕ}
    (hp : p = 43 ∨ p = 45 ∨ p = 58 ∨ p = 36) (hline : readLine rest = some (line, m)) :
    linesRead lim levels (p :: rest) = [(p, line)] := by
  cases levels <;> simp only [linesRead, valueLines, if_pos hp, hline]

/-- A simple string or an error ends with its line. -/
theorem parseLine_done {value : Str → RespValue} {rest : Bytes} {v : RespValue} {n : ℕ}
    (h : parseLine value rest = .done v n) :
    ∃ line m, readLine rest = some (line, m) ∧ n = 1 + m := by
  unfold parseLine at h
  rcases hline : readLine rest with _ | ⟨line, m⟩
  · rw [hline] at h
    cases h
  · rw [hline] at h
    cases h
    exact ⟨line, m, rfl, rfl⟩

/-- An integer ends with its line. -/
theorem parseInteger_done {rest : Bytes} {v : RespValue} {n : ℕ}
    (h : parseInteger rest = .done v n) :
    ∃ line m i, readLine rest = some (line, m) ∧ pyInt line = some i ∧ n = 1 + m := by
  unfold parseInteger at h
  rcases hline : readLine rest with _ | ⟨line, m⟩
  · rw [hline] at h
    cases h
  · rw [hline] at h
    simp only at h
    cases hint : pyInt line with
    | none =>
      rw [hint] at h
      cases h
    | some i =>
      rw [hint] at h
      cases h
      exact ⟨line, m, i, rfl, hint, rfl⟩

/-- A bulk string is null, or its bytes and its trailer are there.
SOURCE: protocol/parser.py:90-111 -/
theorem parseBulk_done {lim : Limits} {rest : Bytes} {v : RespValue} {n : ℕ}
    (h : parseBulk lim rest = .done v n) :
    ∃ line m, readLine rest = some (line, m) ∧
      (pyInt line = some (-1) ∧ n = 1 + m ∨
        ∃ k : ℕ, pyInt line = some (k : ℤ) ∧ k + 2 ≤ (rest.drop m).length ∧
          ((rest.drop m).drop k).take 2 = crlf ∧ n = 1 + m + k + 2) := by
  unfold parseBulk at h
  rcases hline : readLine rest with _ | ⟨line, m⟩
  · rw [hline] at h
    cases h
  · rw [hline] at h
    refine ⟨line, m, rfl, ?_⟩
    simp only [parseBulkBody] at h
    cases hint : pyInt line with
    | none =>
      rw [hint] at h
      cases h
    | some i =>
      rw [hint] at h
      simp only at h
      split_ifs at h with hnull hneg hlong hshort htrailer
      · cases h
        exact Or.inl ⟨congrArg some hnull, rfl⟩
      · cases h
        refine Or.inr ⟨i.toNat, ?_, by omega, not_not.mp htrailer, rfl⟩
        rw [Int.toNat_of_nonneg (by omega)]

/-- An array is null, or its elements are there.
SOURCE: protocol/parser.py:113-137 -/
theorem parseArray_done {lim : Limits} {item : Bytes → Parse RespValue} {rest : Bytes}
    {v : RespValue} {n : ℕ} (h : parseArray lim item rest = .done v n) :
    ∃ line m, readLine rest = some (line, m) ∧
      (pyInt line = some (-1) ∧ n = 1 + m ∨
        ∃ (k j : ℕ) (vs : List RespValue), pyInt line = some (k : ℤ) ∧ k ≤ lim.maxArrayLen ∧
          parseItems item k (rest.drop m) = .done vs j ∧ n = 1 + m + j) := by
  unfold parseArray at h
  rcases hline : readLine rest with _ | ⟨line, m⟩
  · rw [hline] at h
    cases h
  · rw [hline] at h
    refine ⟨line, m, rfl, ?_⟩
    simp only [parseArrayBody] at h
    cases hint : pyInt line with
    | none =>
      rw [hint] at h
      cases h
    | some i =>
      rw [hint] at h
      simp only at h
      split_ifs at h with hnull hneg hlong
      · cases h
        exact Or.inl ⟨congrArg some hnull, rfl⟩
      · cases hitems : parseItems item i.toNat (rest.drop m) with
        | more =>
          rw [hitems] at h
          cases h
        | fail e =>
          rw [hitems] at h
          cases h
        | done vs j =>
          rw [hitems] at h
          cases h
          refine Or.inr ⟨i.toNat, j, vs, ?_, by omega, hitems, rfl⟩
          rw [Int.toNat_of_nonneg (by omega)]

/-- **What a completed value is.**
SOURCE: protocol/parser.py:58-137 -/
theorem reads_of_done {lim : Limits} {levels : ℕ} {buf : Bytes} {v : RespValue} {n : ℕ}
    (h : tryParse lim levels buf = .done v n) :
    Reads lim levels buf n (linesRead lim levels buf) := by
  have hvalue : ∃ array, tryParse lim levels buf = parseValue lim array buf := by
    cases levels <;> exact ⟨_, rfl⟩
  cases buf with
  | nil =>
    obtain ⟨array, harray⟩ := hvalue
    rw [harray] at h
    cases h
  | cons p rest =>
    by_cases hp : p = 42
    · subst hp
      cases levels with
      | zero => cases h
      | succ levels =>
        have harray : parseArray lim (tryParse lim levels) rest = .done v n := h
        have hlines : linesRead lim (levels + 1) (42 :: rest) =
            arrayLines lim (tryParse lim levels) (linesRead lim levels) rest := rfl
        obtain ⟨line, m, hline, ⟨hint, rfl⟩ | ⟨k, j, vs, hint, hle, hitems, rfl⟩⟩ :=
          parseArray_done harray
        · have hnot : ¬ (lim.maxArrayLen : ℤ) < -1 := by omega
          rw [hlines, arrayLines, hline]
          simp only [hint, if_neg hnot]
          exact .nullArray hline hint
        · have hnot : ¬ (lim.maxArrayLen : ℤ) < k := by omega
          rw [hlines, arrayLines, hline]
          simp only [hint, if_neg hnot, Int.toNat_natCast]
          exact .array hline hint hitems
    · obtain ⟨array, harray⟩ := hvalue
      rw [harray, parseValue] at h
      split_ifs at h with h43 h45 h58 h36
      · obtain ⟨line, m, hline, rfl⟩ := parseLine_done h
        rw [linesRead_of_line lim levels (Or.inl h43) hline]
        exact .text (Or.inl h43) hline
      · obtain ⟨line, m, hline, rfl⟩ := parseLine_done h
        rw [linesRead_of_line lim levels (Or.inr (Or.inl h45)) hline]
        exact .text (Or.inr h45) hline
      · subst h58
        obtain ⟨line, m, i, hline, hint, rfl⟩ := parseInteger_done h
        rw [linesRead_of_line lim levels (by decide) hline]
        exact .integer hline hint
      · subst h36
        obtain ⟨line, m, hline, ⟨hint, rfl⟩ | ⟨k, hint, hlen, htrailer, rfl⟩⟩ := parseBulk_done h
        · rw [linesRead_of_line lim levels (by decide) hline]
          exact .nullBulk hline hint
        · rw [linesRead_of_line lim levels (by decide) hline]
          exact .bulk hline hint hlen htrailer

end ByoRedis.Analysis
