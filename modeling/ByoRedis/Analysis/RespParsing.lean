import ByoRedis.Model.Resp

/-!
# The RESP parser is a lawful decoder, and it reads back what the encoder wrote

Two facts carry every argument about streams of commands. `tryParse_lawful`: the
parser never revises an answer when more bytes arrive, whatever the limits and the
nesting. `tryParse_encodeCommand`: a command that respects the limits is read back from
its encoding, whatever follows it. With `ByoRedis.Lib.Framing` they give what is read
from any segmentation and from any cut of a stream of commands.
-/

set_option autoImplicit false

namespace ByoRedis.Analysis

open ByoRedis.Model ByoRedis.Lib.Framing

/-! ## Lines -/

/-- A line and its length, once complete, do not change when more bytes arrive.
SOURCE: protocol/parser.py:139-144 -/
theorem readLine_append {buf line : Bytes} {n : ℕ} (h : readLine buf = some (line, n))
    (ext : Bytes) : readLine (buf ++ ext) = some (line, n) := by
  induction buf generalizing line n with
  | nil => simp [readLine] at h
  | cons a buf ih =>
    cases buf with
    | nil => simp [readLine] at h
    | cons b rest =>
      simp only [readLine, List.cons_append] at h ⊢
      by_cases hab : a = cr ∧ b = lf
      · rw [if_pos hab] at h ⊢
        exact h
      · rw [if_neg hab] at h ⊢
        rw [Option.map_eq_some_iff] at h
        obtain ⟨⟨l, m⟩, hr, heq⟩ := h
        have hext := ih hr
        rw [List.cons_append] at hext
        rw [hext]
        exact congrArg some heq

/-- A complete line ends inside the buffer, two bytes after its text.
SOURCE: protocol/parser.py:139-144 -/
theorem readLine_length {buf line : Bytes} {n : ℕ} (h : readLine buf = some (line, n)) :
    n = line.length + 2 ∧ n ≤ buf.length := by
  induction buf generalizing line n with
  | nil => simp [readLine] at h
  | cons a buf ih =>
    cases buf with
    | nil => simp [readLine] at h
    | cons b rest =>
      simp only [readLine] at h
      by_cases hab : a = cr ∧ b = lf
      · rw [if_pos hab] at h
        cases h
        simp
      · rw [if_neg hab, Option.map_eq_some_iff] at h
        obtain ⟨⟨l, m⟩, hr, heq⟩ := h
        obtain ⟨h1, h2⟩ := ih hr
        cases heq
        simp only [List.length_cons] at h2 ⊢
        omega

/-- A text without CR is read back as a line.
SOURCE: protocol/parser.py:139-144 -/
theorem readLine_text (line rest : Bytes) (h : cr ∉ line) :
    readLine (line ++ (crlf ++ rest)) = some (line, line.length + 2) := by
  induction line with
  | nil => simp [readLine, crlf]
  | cons a line ih =>
    simp only [List.mem_cons, not_or] at h
    have ihl := ih h.2
    cases line with
    | nil =>
      simp only [List.nil_append] at ihl
      have hne : ¬ (a = cr ∧ cr = lf) := fun hh => h.1 hh.1.symm
      simp only [List.cons_append, List.nil_append, crlf] at ihl ⊢
      rw [readLine, if_neg hne, ihl]
      rfl
    | cons b line =>
      have hne : ¬ (a = cr ∧ b = lf) := fun hh => h.1 hh.1.symm
      simp only [List.cons_append] at ihl ⊢
      rw [readLine, if_neg hne, ihl]
      rfl

/-! ## Decimal lines -/

/-- A decimal digit is one byte. -/
theorem toNat_digit {c : Char} (h : c.isDigit = true) :
    48 ≤ c.toNat ∧ c.toNat ≤ 57 ∧ c.toNat.toUInt8.toNat = c.toNat := by
  simp only [Char.isDigit, Bool.and_eq_true, decide_eq_true_eq] at h
  have h1 : 48 ≤ c.toNat := h.1
  have h2 : c.toNat ≤ 57 := h.2
  refine ⟨h1, h2, ?_⟩
  rw [Nat.toUInt8_eq, UInt8.toNat_ofNat']
  omega

/-- The bytes of a decimal numeral are digits.
SOURCE: protocol/encoder.py:82-87 -/
theorem isDigit_of_mem_natBytes {n : ℕ} {b : UInt8} (h : b ∈ natBytes n) :
    isDigit b = true := by
  obtain ⟨c, hc, rfl⟩ := List.mem_map.mp h
  obtain ⟨h1, h2, hb⟩ :=
    toNat_digit (Nat.isDigit_of_mem_toDigits (by decide) (by decide) hc)
  simp only [isDigit, Bool.and_eq_true, decide_eq_true_eq, UInt8.le_iff_toNat_le, hb]
  exact ⟨h1, h2⟩

/-- A digit is no space. -/
theorem not_isSpace_of_isDigit {b : UInt8} (h : isDigit b = true) : isSpace b = false := by
  simp only [isDigit, Bool.and_eq_true, decide_eq_true_eq, UInt8.le_iff_toNat_le] at h
  simp only [isSpace, Bool.or_eq_false_iff, Bool.and_eq_false_iff, decide_eq_false_iff_not,
    UInt8.le_iff_toNat_le, beq_eq_false_iff_ne, ne_eq, ← UInt8.toNat_inj]
  have h48 : (48 : UInt8).toNat = 48 := rfl
  have h13 : (13 : UInt8).toNat = 13 := rfl
  have h32 : (32 : UInt8).toNat = 32 := rfl
  omega

/-- A number has a digit. -/
theorem natBytes_ne_nil (n : ℕ) : natBytes n ≠ [] := by
  simp [natBytes, natText, Nat.toDigits_ne_nil]

/-- Digits are their own digit groups.
SOURCE: protocol/parser.py:94-97 -/
theorem digitsOf_digits {ds : Bytes} (hne : ds ≠ []) (h : ∀ d ∈ ds, isDigit d = true) :
    digitsOf ds = some ds := by
  induction ds with
  | nil => exact absurd rfl hne
  | cons d ds ih =>
    have hd := h d (by simp)
    cases ds with
    | nil => simp [digitsOf, hd]
    | cons u rest =>
      have hu := h u (by simp)
      have hne95 : u ≠ 95 := by
        rintro rfl
        exact absurd hu (by decide)
      rw [digitsOf, if_pos hd, if_neg hne95,
        ih (by simp) (fun x hx => h x (List.mem_cons_of_mem _ hx))]
      rfl

/-- Text without white space has none to strip. -/
theorem strip_of_notSpace {ds : Bytes} (h : ∀ d ∈ ds, isSpace d = false) : strip ds = ds := by
  have hdrop : ∀ l : Bytes, (∀ d ∈ l, isSpace d = false) → l.dropWhile isSpace = l := by
    intro l hl
    cases l with
    | nil => rfl
    | cons d l =>
      rw [List.dropWhile_cons_of_neg]
      simp [hl d (by simp)]
  rw [strip, hdrop ds h, hdrop ds.reverse (by simpa using h), List.reverse_reverse]

/-- The value of digits is the one of the core library. -/
theorem digitsValue_eq_ofDigitChars (cs : List Char) (init : ℕ)
    (h : ∀ c ∈ cs, c.isDigit = true) :
    (cs.map fun c => c.toNat.toUInt8).foldl (fun n d => 10 * n + (d.toNat - 48)) init =
      Nat.ofDigitChars 10 cs init := by
  induction cs generalizing init with
  | nil => rfl
  | cons c cs ih =>
    obtain ⟨-, -, hb⟩ := toNat_digit (h c (by simp))
    rw [List.map_cons, List.foldl_cons, Nat.ofDigitChars_cons,
      ih _ (fun x hx => h x (List.mem_cons_of_mem _ hx)), hb]
    rfl

/-- The digits of a number have its value. -/
theorem digitsValue_natBytes (n : ℕ) : digitsValue (natBytes n) = n := by
  rw [digitsValue, natBytes, digitsValue_eq_ofDigitChars]
  · exact Nat.ofDigitChars_ten_toDigits
  · intro c hc
    exact Nat.isDigit_of_mem_toDigits (by decide) (by decide) hc

/-- Numerals within the conversion limit of `int()`. -/
def Convertible (n : ℕ) : Prop := (natBytes n).length ≤ maxStrDigits

/-- Every number with at most 4300 digits converts. -/
theorem convertible_of_lt {n : ℕ} (h : n < 10 ^ maxStrDigits) : Convertible n := by
  rw [Convertible, natBytes, List.length_map, natText,
    Nat.length_toDigits_le_iff (by decide) (by decide)]
  exact h

/-- Sizes below 10^10 convert. -/
theorem convertible_of_lt_ten {n : ℕ} (h : n < 10 ^ 10) : Convertible n :=
  convertible_of_lt (h.trans_le (Nat.pow_le_pow_right (by decide) (by decide)))

/-- The digits of a number are read back. -/
theorem parseDigits_natBytes {n : ℕ} (h : Convertible n) : parseDigits (natBytes n) = some n := by
  rw [parseDigits, digitsOf_digits (natBytes_ne_nil n) fun d hd => isDigit_of_mem_natBytes hd]
  simp only
  rw [if_pos (show (natBytes n).length ≤ maxStrDigits from h), digitsValue_natBytes]

/-- The digits of a number have no space. -/
theorem not_isSpace_of_mem_natBytes {n : ℕ} {b : UInt8} (h : b ∈ natBytes n) :
    isSpace b = false := not_isSpace_of_isDigit (isDigit_of_mem_natBytes h)

/-- **`int` undoes `str`** on naturals within the conversion limit.
SOURCE: protocol/parser.py:94-97 -/
theorem pyInt_natBytes {n : ℕ} (h : Convertible n) : pyInt (natBytes n) = some (n : ℤ) := by
  have hparse := parseDigits_natBytes h
  rw [pyInt, strip_of_notSpace fun d hd => not_isSpace_of_mem_natBytes hd]
  obtain ⟨d, ds, hds⟩ := List.exists_cons_of_ne_nil (natBytes_ne_nil n)
  have hd : isDigit d = true := isDigit_of_mem_natBytes (n := n) (by rw [hds]; simp)
  rw [hds] at hparse ⊢
  have h45 : d ≠ 45 := by rintro rfl; exact absurd hd (by decide)
  have h43 : d ≠ 43 := by rintro rfl; exact absurd hd (by decide)
  split
  · rename_i heq; exact absurd (List.cons.inj heq).1 h45
  · rename_i heq; exact absurd (List.cons.inj heq).1 h43
  · rw [hparse]; rfl

/-- A number without a sign. -/
theorem intBytes_of_nonneg {i : ℤ} (h : ¬ i < 0) : intBytes i = natBytes i.natAbs := by
  rw [intBytes, intText, if_neg h]
  rfl

/-- A number with its sign. -/
theorem intBytes_of_neg {i : ℤ} (h : i < 0) : intBytes i = 45 :: natBytes i.natAbs := by
  rw [intBytes, intText, if_pos h]
  rfl

/-- **`int` undoes `str`**, negative numbers included.
SOURCE: protocol/parser.py:69-76 -/
theorem pyInt_intBytes {i : ℤ} (h : Convertible i.natAbs) : pyInt (intBytes i) = some i := by
  by_cases hneg : i < 0
  · have hspace : ∀ d ∈ (45 : UInt8) :: natBytes i.natAbs, isSpace d = false := by
      intro d hd
      rcases List.mem_cons.mp hd with rfl | hd
      · decide
      · exact not_isSpace_of_mem_natBytes hd
    rw [intBytes_of_neg hneg, pyInt, strip_of_notSpace hspace]
    simp only
    rw [parseDigits_natBytes h]
    show some (-(i.natAbs : ℤ)) = some i
    exact congrArg some (by omega)
  · rw [intBytes_of_nonneg hneg, pyInt_natBytes h]
    exact congrArg some (by omega)

/-- The digits of a number have no carriage return. -/
theorem cr_notMem_natBytes (n : ℕ) : cr ∉ natBytes n := by
  intro h
  exact absurd (isDigit_of_mem_natBytes h) (by decide)

/-- A number has no carriage return. -/
theorem cr_notMem_intBytes (i : ℤ) : cr ∉ intBytes i := by
  by_cases hneg : i < 0
  · rw [intBytes_of_neg hneg]
    intro h
    rcases List.mem_cons.mp h with h | h
    · exact absurd h (by decide)
    · exact cr_notMem_natBytes _ h
  · rw [intBytes_of_nonneg hneg]
    exact cr_notMem_natBytes _

/-! ## Lawfulness -/

/-- A parser of what follows a type prefix, whose answers count the prefix and survive
the arrival of more bytes. -/
structure Tail (p : Bytes → Parse RespValue) : Prop where
  pos : ∀ {rest : Bytes} {v : RespValue} {n : ℕ}, p rest = .done v n → 0 < n
  le : ∀ {rest : Bytes} {v : RespValue} {n : ℕ}, p rest = .done v n → n ≤ rest.length + 1
  done_append : ∀ {rest : Bytes} {v : RespValue} {n : ℕ} (ext : Bytes),
    p rest = .done v n → p (rest ++ ext) = .done v n
  fail_append : ∀ {rest : Bytes} {e : ProtocolError} (ext : Bytes),
    p rest = .fail e → p (rest ++ ext) = .fail e

/-- SOURCE: protocol/parser.py:64-68, 83-88 -/
theorem parseLine_tail (value : Str → RespValue) : Tail (parseLine value) := by
  constructor
  case pos =>
    intro rest v n h
    unfold parseLine at h
    split at h
    · cases h
    · cases h; omega
  case le =>
    intro rest v n h
    unfold parseLine at h
    split at h
    · cases h
    · rename_i line m hr
      have := readLine_length hr
      cases h
      omega
  case done_append =>
    intro rest v n ext h
    unfold parseLine at h ⊢
    split at h
    · cases h
    · rename_i line m hr
      rw [readLine_append hr]
      exact h
  case fail_append =>
    intro rest e ext h
    unfold parseLine at h
    split at h <;> cases h

/-- SOURCE: protocol/parser.py:69-76 -/
theorem parseInteger_tail : Tail parseInteger := by
  constructor
  case pos =>
    intro rest v n h
    unfold parseInteger at h
    split at h
    · cases h
    · split at h
      · cases h
      · cases h; omega
  case le =>
    intro rest v n h
    unfold parseInteger at h
    split at h
    · cases h
    · rename_i line m hr
      have := readLine_length hr
      split at h
      · cases h
      · cases h; omega
  case done_append =>
    intro rest v n ext h
    unfold parseInteger at h ⊢
    split at h
    · cases h
    · rename_i line m hr
      rw [readLine_append hr]
      exact h
  case fail_append =>
    intro rest e ext h
    unfold parseInteger at h ⊢
    split at h
    · cases h
    · rename_i line m hr
      rw [readLine_append hr]
      exact h

/-- A reader that reads a header line and then the bytes after it, by a rule that counts
the header and survives the arrival of more bytes. -/
theorem tail_of_line {p : Bytes → Parse RespValue}
    (body : Bytes → ℕ → Bytes → Parse RespValue)
    (hnone : ∀ rest, readLine rest = none → p rest = .more)
    (hsome : ∀ rest line n, readLine rest = some (line, n) → p rest = body line n (rest.drop n))
    (hle : ∀ line n b v m, body line n b = .done v m → 0 < m ∧ m ≤ 1 + n + b.length)
    (hgrow : ∀ line n b r ext, body line n b = r → r ≠ .more → body line n (b ++ ext) = r) :
    Tail p := by
  have hbound : ∀ {rest : Bytes} {v : RespValue} {m : ℕ}, p rest = .done v m →
      0 < m ∧ m ≤ rest.length + 1 := by
    intro rest v m h
    cases hr : readLine rest with
    | none => rw [hnone rest hr] at h; cases h
    | some q =>
      obtain ⟨line, n⟩ := q
      obtain ⟨-, hn⟩ := readLine_length hr
      rw [hsome rest line n hr] at h
      have hb := hle line n _ v m h
      rw [List.length_drop] at hb
      omega
  have hext : ∀ {rest : Bytes} {r : Parse RespValue} (ext : Bytes),
      p rest = r → r ≠ .more → p (rest ++ ext) = r := by
    intro rest r ext h hne
    cases hr : readLine rest with
    | none =>
      rw [hnone rest hr] at h
      exact absurd h.symm hne
    | some q =>
      obtain ⟨line, n⟩ := q
      obtain ⟨-, hn⟩ := readLine_length hr
      rw [hsome rest line n hr] at h
      rw [hsome _ line n (readLine_append hr ext), List.drop_append_of_le_length hn]
      exact hgrow line n _ r ext h hne
  exact ⟨fun h => (hbound h).1, fun h => (hbound h).2,
    fun ext h => hext ext h (by simp), fun ext h => hext ext h (by simp)⟩

/-- SOURCE: protocol/parser.py:90-111 -/
theorem parseBulk_tail (lim : Limits) : Tail (parseBulk lim) := by
  refine tail_of_line (parseBulkBody lim) ?_ ?_ ?_ ?_
  · intro rest h
    simp only [parseBulk, h]
  · intro rest line n h
    simp only [parseBulk, h]
  · intro line n b v m h
    unfold parseBulkBody at h
    split at h
    · cases h
    · split_ifs at h with h1 h2 h3 h4 h5
      · cases h; omega
      · cases h; omega
  · intro line n b r ext h hne
    unfold parseBulkBody at h ⊢
    cases hp : pyInt line with
    | none => simpa only [hp] using h
    | some length =>
      simp only [hp] at h ⊢
      by_cases h1 : length = -1
      · simpa only [if_pos h1] using h
      by_cases h2 : length < -1
      · simpa only [if_neg h1, if_pos h2] using h
      by_cases h3 : (lim.maxBulkLen : ℤ) < length
      · simpa only [if_neg h1, if_neg h2, if_pos h3] using h
      simp only [if_neg h1, if_neg h2, if_neg h3] at h ⊢
      by_cases h4 : b.length < length.toNat + 2
      · rw [if_pos h4] at h
        exact absurd h.symm hne
      have h4' : ¬ (b ++ ext).length < length.toNat + 2 := by
        rw [List.length_append]; omega
      rw [if_neg h4] at h
      rw [if_neg h4', List.drop_append_of_le_length (by omega),
        List.take_append_of_le_length (by rw [List.length_drop]; omega),
        List.take_append_of_le_length (by omega)]
      exact h

/-- A run of items is read the same way when more bytes follow it.
SOURCE: protocol/parser.py:129-137 -/
theorem parseItems_stable {item : Bytes → Parse RespValue} (hi : Lawful item) (count : ℕ) :
    (∀ {buf : Bytes} {vs : List RespValue} {n : ℕ} (ext : Bytes),
      parseItems item count buf = .done vs n →
        n ≤ buf.length ∧ parseItems item count (buf ++ ext) = .done vs n) ∧
    (∀ {buf : Bytes} {e : ProtocolError} (ext : Bytes),
      parseItems item count buf = .fail e → parseItems item count (buf ++ ext) = .fail e) := by
  induction count with
  | zero =>
    constructor
    · intro buf vs n ext h
      simp only [parseItems] at h ⊢
      cases h
      simp
    · intro buf e ext h
      cases h
  | succ count ih =>
    constructor
    · intro buf vs n ext h
      simp only [parseItems] at h ⊢
      cases hb : item buf with
      | more => simp [hb] at h
      | fail e => simp [hb] at h
      | done v m =>
        simp only [hb] at h
        have hle := hi.done_le hb
        cases hr : parseItems item count (buf.drop m) with
        | more => simp [hr] at h
        | fail e => simp [hr] at h
        | done ws k =>
          simp only [hr] at h
          obtain ⟨hk, hext⟩ := ih.1 ext hr
          rw [List.length_drop] at hk
          rw [hi.done_append ext hb]
          simp only
          rw [List.drop_append_of_le_length hle, hext]
          cases h
          exact ⟨by omega, rfl⟩
    · intro buf e ext h
      simp only [parseItems] at h ⊢
      cases hb : item buf with
      | more => simp [hb] at h
      | fail e' =>
        simp only [hb] at h
        rw [hi.fail_append ext hb]
        exact h
      | done v m =>
        simp only [hb] at h
        have hle := hi.done_le hb
        rw [hi.done_append ext hb]
        simp only
        rw [List.drop_append_of_le_length hle]
        cases hr : parseItems item count (buf.drop m) with
        | more => simp [hr] at h
        | fail e' =>
          simp only [hr] at h
          rw [ih.2 ext hr]
          exact h
        | done ws k => simp [hr] at h

/-- SOURCE: protocol/parser.py:113-137 -/
theorem parseArray_tail (lim : Limits) {item : Bytes → Parse RespValue} (hi : Lawful item) :
    Tail (parseArray lim item) := by
  refine tail_of_line (parseArrayBody lim item) ?_ ?_ ?_ ?_
  · intro rest h
    simp only [parseArray, h]
  · intro rest line n h
    simp only [parseArray, h]
  · intro line n b v m h
    unfold parseArrayBody at h
    split at h
    · cases h
    · split_ifs at h
      · cases h; omega
      · split at h
        · cases h
        · cases h
        · rename_i vs k hitems
          have := ((parseItems_stable hi _).1 [] hitems).1
          cases h
          omega
  · intro line n b r ext h hne
    unfold parseArrayBody at h ⊢
    cases hp : pyInt line with
    | none => simpa only [hp] using h
    | some count =>
      simp only [hp] at h ⊢
      split_ifs at h ⊢
      · exact h
      · exact h
      · exact h
      · cases hitems : parseItems item count.toNat b with
        | more =>
          simp only [hitems] at h
          exact absurd h.symm hne
        | fail e =>
          simp only [hitems] at h
          rw [(parseItems_stable hi _).2 ext hitems]
          exact h
        | done vs k =>
          simp only [hitems] at h
          rw [((parseItems_stable hi _).1 ext hitems).2]
          exact h

/-- The dispatch on the type prefix is lawful when the array reader is.
SOURCE: protocol/parser.py:58-81 -/
theorem parseValue_lawful (lim : Limits) {array : Bytes → Parse RespValue}
    (ha : Tail array) : Lawful (parseValue lim array) := by
  have hstr := parseLine_tail .str
  have herr := parseLine_tail .err
  have hint := parseInteger_tail
  have hbulk := parseBulk_tail lim
  constructor
  case done_pos =>
    intro buf v n h
    cases buf with
    | nil => cases h
    | cons p rest =>
      simp only [parseValue] at h
      split_ifs at h
      exacts [hstr.pos h, herr.pos h, hint.pos h, hbulk.pos h, ha.pos h]
  case done_le =>
    intro buf v n h
    cases buf with
    | nil => cases h
    | cons p rest =>
      simp only [parseValue] at h
      split_ifs at h
      exacts [hstr.le h, herr.le h, hint.le h, hbulk.le h, ha.le h]
  case done_append =>
    intro buf v n ext h
    cases buf with
    | nil => cases h
    | cons p rest =>
      simp only [parseValue, List.cons_append] at h ⊢
      split_ifs at h ⊢
      exacts [hstr.done_append ext h, herr.done_append ext h, hint.done_append ext h,
        hbulk.done_append ext h, ha.done_append ext h]
  case fail_append =>
    intro buf e ext h
    cases buf with
    | nil => cases h
    | cons p rest =>
      simp only [parseValue, List.cons_append] at h ⊢
      split_ifs at h ⊢
      exacts [hstr.fail_append ext h, herr.fail_append ext h, hint.fail_append ext h,
        hbulk.fail_append ext h, ha.fail_append ext h, h]

/-- **The parser never revises an answer**: a complete value, and a protocol error, stay
what they are when more bytes arrive.
SOURCE: protocol/parser.py:58-144 -/
theorem tryParse_lawful (lim : Limits) (levels : ℕ) : Lawful (tryParse lim levels) := by
  induction levels with
  | zero =>
    refine parseValue_lawful lim ⟨?_, ?_, ?_, ?_⟩
    · intro rest v n h; cases h
    · intro rest v n h; cases h
    · intro rest v n ext h; cases h
    · intro rest e ext h; exact h
  | succ levels ih => exact parseValue_lawful lim (parseArray_tail lim ih)

/-- The parser of whole messages is lawful. -/
theorem top_lawful (lim : Limits) : Lawful (RespParser.top lim) := tryParse_lawful lim _

/-! ## Reading back commands -/

/-- A command whose encoding a parser with limits `lim` reads: few enough arguments, each
short enough, and lengths that `int()` converts. -/
structure Fits (lim : Limits) (argv : List Bytes) : Prop where
  count : argv.length ≤ lim.maxArrayLen
  bulk : ∀ a ∈ argv, a.length ≤ lim.maxBulkLen
  countText : Convertible argv.length
  bulkText : ∀ a ∈ argv, Convertible a.length
  depth : 0 < lim.maxArrayDepth

/-- The header line of a bulk string is read, then its length is checked.
SOURCE: protocol/parser.py:90-111 -/
theorem tryParse_bulkHeader (lim : Limits) (levels : ℕ) {length : ℕ} (body : Bytes)
    (hconv : Convertible length) :
    tryParse lim levels (ascii "$" ++ natBytes length ++ crlf ++ body) =
      if lim.maxBulkLen < length then .fail (.bulkTooLong length)
      else if body.length < length + 2 then .more
      else if (body.drop length).take 2 ≠ crlf then .fail .missingTrailer
      else .done (.bulk (body.take length))
        (1 + ((natBytes length).length + 2) + length + 2) := by
  have hshape : ascii "$" ++ natBytes length ++ crlf ++ body =
      36 :: (natBytes length ++ (crlf ++ body)) := by
    simp [ascii]
  have hdrop : (natBytes length ++ (crlf ++ body)).drop ((natBytes length).length + 2) = body := by
    rw [← List.append_assoc (natBytes length) crlf, List.drop_left' (by simp [crlf])]
  have h1 : ¬ ((length : ℤ) = -1) := by omega
  have h2 : ¬ ((length : ℤ) < -1) := by omega
  have hbulk : tryParse lim levels (36 :: (natBytes length ++ (crlf ++ body))) =
      parseBulk lim (natBytes length ++ (crlf ++ body)) := by
    cases levels <;> rfl
  rw [hshape, hbulk, parseBulk, readLine_text _ _ (cr_notMem_natBytes _)]
  simp only
  rw [hdrop, parseBulkBody, pyInt_natBytes hconv]
  simp only [Int.toNat_natCast, Nat.cast_lt]
  rw [if_neg h1, if_neg h2]

/-- The header line of an array is read, then its length is checked.
SOURCE: protocol/parser.py:113-137 -/
theorem tryParse_arrayHeader (lim : Limits) (levels : ℕ) {count : ℕ} (body : Bytes)
    (hconv : Convertible count) :
    tryParse lim (levels + 1) (arrayHeader count ++ body) =
      if lim.maxArrayLen < count then .fail (.arrayTooLong count)
      else match parseItems (tryParse lim levels) count body with
        | .more => .more
        | .fail e => .fail e
        | .done vs m => .done (.array vs) ((arrayHeader count).length + m) := by
  have hshape : arrayHeader count ++ body = 42 :: (natBytes count ++ (crlf ++ body)) := by
    simp [arrayHeader, ascii]
  have hdrop : (natBytes count ++ (crlf ++ body)).drop ((natBytes count).length + 2) = body := by
    rw [← List.append_assoc (natBytes count) crlf, List.drop_left' (by simp [crlf])]
  have h1 : ¬ ((count : ℤ) = -1) := by omega
  have h2 : ¬ ((count : ℤ) < -1) := by omega
  have hlen : (arrayHeader count).length = 1 + ((natBytes count).length + 2) := by
    simp [arrayHeader, ascii, crlf]
    omega
  have harray : tryParse lim (levels + 1) (42 :: (natBytes count ++ (crlf ++ body))) =
      parseArray lim (tryParse lim levels) (natBytes count ++ (crlf ++ body)) := rfl
  rw [hshape, hlen, harray, parseArray, readLine_text _ _ (cr_notMem_natBytes _)]
  simp only
  rw [hdrop, parseArrayBody, pyInt_natBytes hconv]
  simp only [Int.toNat_natCast, Nat.cast_lt]
  refine (if_neg h1).trans ((if_neg h2).trans ?_)
  cases parseItems (tryParse lim levels) count body <;> rfl

/-- One bulk string is read back, whatever follows it.
SOURCE: protocol/parser.py:90-111, protocol/encoder.py:25-30 -/
theorem tryParse_encodeBulkString (lim : Limits) (levels : ℕ) (a ext : Bytes)
    (hlen : a.length ≤ lim.maxBulkLen) (hconv : Convertible a.length) :
    tryParse lim levels (encodeBulkString a ++ ext) =
      .done (.bulk a) (encodeBulkString a).length := by
  have hshape : encodeBulkString a ++ ext =
      ascii "$" ++ natBytes a.length ++ crlf ++ (a ++ (crlf ++ ext)) := by
    simp [encodeBulkString]
  have hlen' : (encodeBulkString a).length =
      1 + ((natBytes a.length).length + 2) + a.length + 2 := by
    simp [encodeBulkString, ascii, crlf]
    omega
  have hroom : ¬ ((a ++ (crlf ++ ext)).length < a.length + 2) := by
    simp [crlf]
  have htrailer : ((a ++ (crlf ++ ext)).drop a.length).take 2 = crlf := by
    rw [List.drop_left]
    rfl
  rw [hshape, hlen', tryParse_bulkHeader lim levels _ hconv, if_neg (Nat.not_lt.mpr hlen),
    if_neg hroom, if_neg (not_not.mpr htrailer), List.take_left]

/-- A run of bulk strings is read back in order.
SOURCE: protocol/parser.py:129-137 -/
theorem parseItems_bulks (lim : Limits) (levels : ℕ) (argv : List Bytes) (ext : Bytes)
    (hlen : ∀ a ∈ argv, a.length ≤ lim.maxBulkLen) (hconv : ∀ a ∈ argv, Convertible a.length) :
    parseItems (tryParse lim levels) argv.length (argv.flatMap encodeBulkString ++ ext) =
      .done (argv.map .bulk) (argv.flatMap encodeBulkString).length := by
  induction argv with
  | nil => rfl
  | cons a argv ih =>
    rw [List.flatMap_cons, List.append_assoc, List.length_cons, parseItems,
      tryParse_encodeBulkString lim levels a _ (hlen a (by simp)) (hconv a (by simp))]
    simp only
    rw [List.drop_left, ih (fun b hb => hlen b (List.mem_cons_of_mem _ hb))
      (fun b hb => hconv b (List.mem_cons_of_mem _ hb))]
    simp

/-- **A command within the limits is read back from its encoding**, whatever follows it.
SOURCE: protocol/parser.py:113-137, protocol/encoder.py:82-87 -/
theorem top_encodeCommand (lim : Limits) (argv : List Bytes) (h : Fits lim argv) (ext : Bytes) :
    RespParser.top lim (encodeCommand argv ++ ext) =
      .done (.array (argv.map .bulk)) (encodeCommand argv).length := by
  obtain ⟨levels, hlevels⟩ : ∃ l, lim.maxArrayDepth = l + 1 :=
    ⟨lim.maxArrayDepth - 1, by have := h.depth; omega⟩
  rw [RespParser.top, hlevels, encodeCommand, List.append_assoc,
    tryParse_arrayHeader lim levels _ h.countText, if_neg (Nat.not_lt.mpr h.count),
    parseItems_bulks lim levels argv ext h.bulk h.bulkText]
  simp only [List.length_append]

/-- The value a command is read as. -/
def commandValue (argv : List Bytes) : RespValue := .array (argv.map .bulk)

/-- The parser frames the commands it admits. -/
theorem frames_commands (lim : Limits) :
    Frames (RespParser.top lim) encodeCommand commandValue (Fits lim) :=
  fun argv h ext => top_encodeCommand lim argv h ext

/-- A command is at least its header. -/
theorem encodeCommand_ne_nil (argv : List Bytes) : encodeCommand argv ≠ [] := by
  simp [encodeCommand, arrayHeader, ascii]

/-- An empty buffer holds no message. -/
theorem top_nil (lim : Limits) : RespParser.top lim [] = .more := by
  unfold RespParser.top
  cases lim.maxArrayDepth <;> rfl

end ByoRedis.Analysis
