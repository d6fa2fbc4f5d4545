import Mathlib.Data.List.TakeWhile
import ByoRedis.Analysis.AofFile

/-!
# A torn tail and the records after it

A crash may leave the start of a record at the end of the AOF. The reader passes over it and
returns the records in front of it (`crash_prefix`), but `open` appends after it, and the next
record completes the torn one in place of its own. `torn_tail_iff` says that a restart finds
both what was kept and what was appended exactly when the cut fell between two records.

The bytes after a torn header make the header's line unreadable, for they start with `*`;
after a whole header the torn record keeps its number of arguments. So a record of another
length is not read back after it.
-/

set_option autoImplicit false

namespace ByoRedis.Analysis

open ByoRedis.Model ByoRedis.Lib ByoRedis.Lib.Framing

/-! ## Lines -/

/-- A line that has not ended runs on over a byte that is no line end. -/
theorem mem_of_readLine_append {p rest line : Bytes} {b : UInt8} {n : ℕ}
    (hp : readLine p = none) (hcr : b ≠ cr) (hlf : b ≠ lf)
    (h : readLine (p ++ b :: rest) = some (line, n)) : b ∈ line := by
  have hfirst : ∀ {line : Bytes} {n : ℕ}, readLine (b :: rest) = some (line, n) → b ∈ line := by
    intro line n h
    cases rest with
    | nil => cases h
    | cons c rest =>
      rw [readLine, if_neg (fun hc => hcr hc.1)] at h
      obtain ⟨r, -, hr⟩ := Option.map_eq_some_iff.mp h
      cases hr
      simp
  induction p generalizing line n with
  | nil => exact hfirst h
  | cons a p ih =>
    cases p with
    | nil =>
      rw [List.singleton_append, readLine, if_neg (fun hc => hlf hc.2)] at h
      obtain ⟨r, hr, he⟩ := Option.map_eq_some_iff.mp h
      cases he
      exact List.mem_cons_of_mem _ (hfirst hr)
    | cons c p =>
      by_cases hac : a = cr ∧ c = lf
      · rw [readLine, if_pos hac] at hp
        cases hp
      · rw [readLine, if_neg hac, Option.map_eq_none_iff] at hp
        rw [List.cons_append, List.cons_append, readLine, if_neg hac] at h
        obtain ⟨r, hr, he⟩ := Option.map_eq_some_iff.mp h
        cases he
        exact List.mem_cons_of_mem _ (ih hp hr)

/-- A line is read from the bytes up to its end.
SOURCE: protocol/parser.py:139-144 -/
theorem readLine_take {buf line : Bytes} {n m : ℕ} (h : readLine buf = some (line, n))
    (hm : n ≤ m) : readLine (buf.take m) = some (line, n) := by
  induction buf generalizing line n m with
  | nil => simp [readLine] at h
  | cons a buf ih =>
    cases buf with
    | nil => simp [readLine] at h
    | cons b buf =>
      rw [readLine] at h
      by_cases hab : a = cr ∧ b = lf
      · rw [if_pos hab] at h
        cases h
        obtain ⟨m, rfl⟩ : ∃ k, m = k + 2 := ⟨m - 2, by omega⟩
        rw [List.take_succ_cons, List.take_succ_cons, readLine, if_pos hab]
      · rw [if_neg hab] at h
        obtain ⟨⟨line', n'⟩, hr, he⟩ := Option.map_eq_some_iff.mp h
        cases he
        have hlen := (readLine_length hr).1
        obtain ⟨m, rfl⟩ : ∃ k, m = k + 2 := ⟨m - 2, by simp only at hm; omega⟩
        have h' := ih (m := m + 1) hr (by simp only at hm; omega)
        rw [List.take_succ_cons] at h'
        rw [List.take_succ_cons, List.take_succ_cons, readLine, if_neg hab, h']
        rfl

/-- The digits of a literal are digits and underscores. -/
theorem star_notMem_of_digitsOf {s ds : Bytes} (h : digitsOf s = some ds) : (42 : UInt8) ∉ s := by
  induction s using digitsOf.induct generalizing ds with
  | case1 => cases h
  | case2 d hd =>
    simp only [List.mem_singleton]
    rintro rfl
    exact absurd hd (by decide)
  | case3 d hd => simp [digitsOf, hd] at h
  | case4 d rest hd ih =>
    simp only [digitsOf, hd, if_true] at h
    obtain ⟨ds', hds', -⟩ := Option.map_eq_some_iff.mp h
    simp only [List.mem_cons, not_or]
    refine ⟨?_, by decide, ih hds'⟩
    rintro rfl
    exact absurd hd (by decide)
  | case5 d u rest hd hu ih =>
    simp only [digitsOf, hd, if_true, if_neg hu] at h
    obtain ⟨ds', hds', -⟩ := Option.map_eq_some_iff.mp h
    rw [List.mem_cons, not_or]
    refine ⟨?_, ih hds'⟩
    rintro rfl
    exact absurd hd (by decide)
  | case6 d u rest hd => simp [digitsOf, hd] at h

/-- A byte that is no space survives the strip. -/
theorem mem_strip {b : UInt8} {s : Bytes} (hb : isSpace b = false) (h : b ∈ s) : b ∈ strip s := by
  have hdrop : ∀ l : Bytes, b ∈ l → b ∈ l.dropWhile isSpace := by
    intro l hl
    rw [← List.takeWhile_append_dropWhile (p := isSpace) (l := l), List.mem_append] at hl
    rcases hl with hl | hl
    · have := List.mem_takeWhile_imp hl
      rw [hb] at this
      cases this
    · exact hl
  rw [strip, List.mem_reverse]
  exact hdrop _ (List.mem_reverse.mpr (hdrop s h))

/-- A line with a `*` in it is no number.
SOURCE: protocol/parser.py:94-97, 121-124 -/
theorem pyInt_of_star {line : Bytes} (h : (42 : UInt8) ∈ line) : pyInt line = none := by
  have hs := mem_strip (by decide) h
  have hnone : ∀ r : Bytes, (42 : UInt8) ∈ r → parseDigits r = none := by
    intro r hr
    unfold parseDigits
    cases hd : digitsOf r with
    | none => rfl
    | some ds => exact absurd hr (star_notMem_of_digitsOf hd)
  unfold pyInt
  split
  · rename_i r heq
    rw [heq] at hs
    rcases List.mem_cons.mp hs with h42 | hs
    · exact absurd h42 (by decide)
    · rw [hnone r hs]; rfl
  · rename_i r heq
    rw [heq] at hs
    rcases List.mem_cons.mp hs with h42 | hs
    · exact absurd h42 (by decide)
    · rw [hnone r hs]; rfl
  · rw [hnone _ hs]; rfl

/-! ## A value is read from its own bytes -/

/-- The answer about a frame does not depend on the bytes after it. -/
def ReadsOwn {α : Type} (step : Bytes → Parse α) : Prop :=
  ∀ {buf : Bytes} {v : α} {n : ℕ}, step buf = .done v n → step (buf.take n) = .done v n

/-- SOURCE: protocol/parser.py:129-137 -/
theorem parseItems_take {item : Bytes → Parse RespValue} (hl : Lawful item)
    (hi : ReadsOwn item) (count : ℕ) : ReadsOwn (parseItems item count) := by
  induction count with
  | zero =>
    intro buf vs n h
    cases h
    rfl
  | succ count ih =>
    intro buf vs n h
    rw [parseItems] at h
    cases hv : item buf with
    | more => rw [hv] at h; cases h
    | fail e => rw [hv] at h; cases h
    | done v k =>
      rw [hv] at h
      simp only at h
      cases hr : parseItems item count (buf.drop k) with
      | more => rw [hr] at h; cases h
      | fail e => rw [hr] at h; cases h
      | done ws m =>
        rw [hr] at h
        cases h
        have hsplit : buf.take (k + m) = buf.take k ++ (buf.drop k).take m := List.take_add
        have hlen : (buf.take k).length = k := List.length_take_of_le (hl.done_le hv)
        rw [hsplit, parseItems, hl.done_append _ (hi hv)]
        simp only
        rw [List.drop_left' hlen, ih hr]

/-- The same for what follows the type byte, which the answer counts. -/
def ReadsOwnBehind (read : Bytes → Parse RespValue) : Prop :=
  ∀ {rest : Bytes} {v : RespValue} {n : ℕ}, read rest = .done v n →
    ∃ k, n = 1 + k ∧ read (rest.take k) = .done v n

/-- SOURCE: protocol/parser.py:83-88 -/
theorem parseLine_take (value : Str → RespValue) : ReadsOwnBehind (parseLine value) := by
  intro rest v n h
  unfold parseLine at h
  split at h
  · cases h
  · rename_i line k hr
    cases h
    exact ⟨k, rfl, by simp only [parseLine, readLine_take hr (le_refl k)]⟩

/-- SOURCE: protocol/parser.py:69-76 -/
theorem parseInteger_take : ReadsOwnBehind parseInteger := by
  intro rest v n h
  unfold parseInteger at h
  split at h
  · cases h
  · rename_i line k hr
    split at h
    · cases h
    · rename_i i hp
      cases h
      exact ⟨k, rfl, by simp only [parseInteger, readLine_take hr (le_refl k), hp]⟩

/-- SOURCE: protocol/parser.py:90-111 -/
theorem parseBulk_take (lim : Limits) : ReadsOwnBehind (parseBulk lim) := by
  intro rest v n h
  unfold parseBulk at h
  split at h
  · cases h
  · rename_i line k hr
    unfold parseBulkBody at h
    split at h
    · cases h
    · rename_i length hp
      split_ifs at h with h1 h2 h3 h4 h5
      · cases h
        refine ⟨k, rfl, ?_⟩
        simp only [parseBulk, readLine_take hr (le_refl k), parseBulkBody, hp, if_pos h1]
      · cases h
        rw [ne_eq, not_not] at h5
        refine ⟨k + length.toNat + 2, by omega, ?_⟩
        have hbody : (rest.take (k + length.toNat + 2)).drop k =
            (rest.drop k).take (length.toNat + 2) := by
          rw [List.drop_take]
          congr 1
          omega
        have hlen : ¬ ((rest.drop k).take (length.toNat + 2)).length < length.toNat + 2 := by
          rw [List.length_take]
          omega
        have htrail : (((rest.drop k).take (length.toNat + 2)).drop length.toNat).take 2 =
            crlf := by
          rw [List.drop_take, Nat.add_sub_cancel_left, List.take_take]
          exact h5
        have hown : ((rest.drop k).take (length.toNat + 2)).take length.toNat =
            (rest.drop k).take length.toNat := by
          rw [List.take_take, Nat.min_eq_left (by omega)]
        simp only [parseBulk, readLine_take hr (show k ≤ k + length.toNat + 2 by omega),
          parseBulkBody, hp, if_neg h1, if_neg h2, if_neg h3, hbody, if_neg hlen, htrail, hown,
          ne_eq, not_true_eq_false, if_false]

/-- SOURCE: protocol/parser.py:58-81 -/
theorem parseValue_take (lim : Limits) {array : Bytes → Parse RespValue}
    (ha : ReadsOwnBehind array) : ReadsOwn (parseValue lim array) := by
  intro buf v n h
  cases buf with
  | nil => cases h
  | cons p rest =>
    rw [parseValue] at h
    split_ifs at h with h1 h2 h3 h4 h5
    · obtain ⟨k, rfl, hk⟩ := parseLine_take _ h
      rw [Nat.add_comm, List.take_succ_cons, parseValue, if_pos h1, Nat.add_comm]
      exact hk
    · obtain ⟨k, rfl, hk⟩ := parseLine_take _ h
      rw [Nat.add_comm, List.take_succ_cons, parseValue, if_neg h1, if_pos h2, Nat.add_comm]
      exact hk
    · obtain ⟨k, rfl, hk⟩ := parseInteger_take h
      rw [Nat.add_comm, List.take_succ_cons, parseValue, if_neg h1, if_neg h2, if_pos h3,
        Nat.add_comm]
      exact hk
    · obtain ⟨k, rfl, hk⟩ := parseBulk_take lim h
      rw [Nat.add_comm, List.take_succ_cons, parseValue, if_neg h1, if_neg h2, if_neg h3,
        if_pos h4, Nat.add_comm]
      exact hk
    · obtain ⟨k, rfl, hk⟩ := ha h
      rw [Nat.add_comm, List.take_succ_cons, parseValue, if_neg h1, if_neg h2, if_neg h3,
        if_neg h4, if_pos h5, Nat.add_comm]
      exact hk

/-- **The parser reads a value from its own bytes.**
SOURCE: protocol/parser.py:58-81 -/
theorem tryParse_take (lim : Limits) (levels : ℕ) : ReadsOwn (tryParse lim levels) := by
  induction levels with
  | zero =>
    refine parseValue_take lim ?_
    intro rest v n h
    cases h
  | succ levels ih =>
    refine parseValue_take lim ?_
    intro rest v n h
    unfold parseArray at h
    split at h
    · cases h
    · rename_i line k hr
      unfold parseArrayBody at h
      split at h
      · cases h
      · rename_i count hp
        split_ifs at h with h1 h2 h3
        · cases h
          refine ⟨k, rfl, ?_⟩
          simp only [parseArray, readLine_take hr (le_refl k), parseArrayBody, hp, if_pos h1]
        · split at h
          · cases h
          · cases h
          · rename_i vs m hitems
            cases h
            refine ⟨k + m, by omega, ?_⟩
            have hbody : (rest.take (k + m)).drop k = (rest.drop k).take m := by
              rw [List.drop_take, Nat.add_sub_cancel_left]
            have hown := parseItems_take (tryParse_lawful lim levels) ih _ hitems
            simp only [parseArray, readLine_take hr (show k ≤ k + m by omega), parseArrayBody, hp,
              if_neg h1, if_neg h2, if_neg h3, hbody, hown]

/-- A value that was incomplete before some bytes came uses one of them. -/
theorem lt_of_more {step : Bytes → Parse RespValue} (hl : Lawful step) (hown : ReadsOwn step)
    {p d : Bytes} {v : RespValue} {n : ℕ} (hp : step p = .more)
    (h : step (p ++ d) = .done v n) : p.length < n := by
  by_contra hle
  have htake := hown h
  rw [List.take_append_of_le_length (by omega)] at htake
  have hfull := hl.done_append (p.drop n) htake
  rw [List.take_append_drop, hp] at hfull
  cases hfull

/-! ## What follows a torn record -/

/-- An array has as many items as its header says. -/
theorem parseItems_length {item : Bytes → Parse RespValue} {count n : ℕ} {buf : Bytes}
    {vs : List RespValue} (h : parseItems item count buf = .done vs n) : vs.length = count := by
  induction count generalizing buf vs n with
  | zero =>
    cases h
    rfl
  | succ count ih =>
    rw [parseItems] at h
    split at h
    · cases h
    · cases h
    · split at h
      · cases h
      · cases h
      · rename_i hr
        cases h
        rw [List.length_cons, ih hr]

/-- A map that succeeds keeps the length. -/
theorem length_mapM {α β : Type} {f : α → Option β} {l : List α} {r : List β}
    (h : l.mapM f = some r) : r.length = l.length := by
  induction l generalizing r with
  | nil =>
    cases h
    rfl
  | cons a l ih =>
    rw [List.mapM_cons] at h
    obtain ⟨b, -, hb⟩ := Option.bind_eq_some_iff.mp h
    obtain ⟨r', hr', he⟩ := Option.bind_eq_some_iff.mp hb
    cases he
    rw [List.length_cons, List.length_cons, ih hr']

/-- A record that is kept has as many arguments as its array has elements.
SOURCE: persistence/aof.py:280-298 -/
theorem length_logged {vs : List RespValue} {argv : Command}
    (h : (RespValue.array vs).logged = some argv) : argv.length = vs.length := by
  unfold RespValue.logged at h
  simp only at h
  split_ifs at h
  split at h
  · rename_i hplain
    cases h
    exact length_mapM hplain
  · exact length_mapM h

/-- No record is found in bytes without a `*`.
SOURCE: protocol/parser.py:58-81, persistence/aof.py:280-298 -/
theorem filterMap_logged_of_noStar (lim : Limits) {buf rest : Bytes} {messages : List RespValue}
    (hbuf : (42 : UInt8) ∉ buf) (h : run (RespParser.top lim) buf = .ok (messages, rest)) :
    messages.filterMap RespValue.logged = [] := by
  have htop := top_lawful lim
  revert messages rest
  induction buf using run_induction htop with
  | more buf hm =>
    intro rest messages h
    rw [run_of_more hm] at h
    cases h
    rfl
  | fail buf e hf =>
    intro rest messages h
    rw [run_of_fail hf] at h
    cases h
  | done buf v n hd ih =>
    intro rest messages h
    rw [run_of_done htop hd] at h
    rcases hr : run (RespParser.top lim) (buf.drop n) with e | ⟨ms, r⟩
    · rw [hr] at h; cases h
    · rw [hr] at h
      cases h
      have hnone : v.logged = none := by
        have hvalue : ∀ array, parseValue lim array buf = .done v n → v.logged = none := by
          intro array hv
          cases buf with
          | nil => cases hv
          | cons p rest =>
            have hp : ¬ p = 42 := fun hp => hbuf (by simp [hp])
            rw [parseValue, if_neg hp] at hv
            split_ifs at hv
            · unfold parseLine at hv
              split at hv <;> cases hv
              rfl
            · unfold parseLine at hv
              split at hv <;> cases hv
              rfl
            · unfold parseInteger at hv
              split at hv
              · cases hv
              · split at hv <;> cases hv
                rfl
            · unfold parseBulk at hv
              split at hv
              · cases hv
              · unfold parseBulkBody at hv
                split at hv
                · cases hv
                · split_ifs at hv <;> cases hv <;> rfl
        unfold RespParser.top at hd
        cases hdepth : lim.maxArrayDepth with
        | zero => rw [hdepth] at hd; exact hvalue _ hd
        | succ levels => rw [hdepth] at hd; exact hvalue _ hd
      rw [List.filterMap_cons, hnone]
      exact ih (fun hmem => hbuf (List.mem_of_mem_drop hmem)) hr

/-- **A record completed by the bytes of another keeps its number of arguments.** Where the
cut fell into its header the line is no number any more.
SOURCE: protocol/parser.py:116-137 -/
theorem length_of_completed (lim : Limits) {argv : Command} (hfits : Fits lim argv)
    {p q rest : Bytes} (hp : p ≠ []) (hsplit : encodeCommand argv = p ++ q) {v : RespValue}
    {n : ℕ} (h : RespParser.top lim (p ++ 42 :: rest) = .done v n) :
    ∃ vs, v = .array vs ∧ vs.length = argv.length := by
  obtain ⟨levels, hlevels⟩ : ∃ l, lim.maxArrayDepth = l + 1 :=
    ⟨lim.maxArrayDepth - 1, by have := hfits.depth; omega⟩
  obtain ⟨b, p', rfl⟩ := List.exists_cons_of_ne_nil hp
  have hshape : encodeCommand argv =
      42 :: (natBytes argv.length ++ (crlf ++ argv.flatMap encodeBulkString)) := by
    simp [encodeCommand, arrayHeader, ascii]
  rw [hshape, List.cons_append] at hsplit
  obtain ⟨rfl, hbody⟩ := List.cons.inj hsplit
  have hline := readLine_text (natBytes argv.length) (argv.flatMap encodeBulkString)
    (cr_notMem_natBytes _)
  rw [hbody] at hline
  have harray : RespParser.top lim ((42 :: p') ++ 42 :: rest) =
      parseArray lim (tryParse lim levels) (p' ++ 42 :: rest) := by
    rw [RespParser.top, hlevels, tryParse, List.cons_append]
    rfl
  rw [harray] at h
  unfold parseArray at h
  cases hr : readLine (p' ++ 42 :: rest) with
  | none => rw [hr] at h; cases h
  | some r =>
    obtain ⟨line, k⟩ := r
    rw [hr] at h
    simp only at h
    cases hp' : readLine p' with
    | none =>
      have hstar := mem_of_readLine_append hp' (by decide) (by decide) hr
      rw [parseArrayBody, pyInt_of_star hstar] at h
      cases h
    | some r' =>
      -- the header is whole: its line is the number of arguments
      have hsame := readLine_append hp' q
      rw [hline] at hsame
      rw [readLine_append hp', ← hsame] at hr
      obtain ⟨rfl, rfl⟩ := Prod.mk.inj (Option.some.inj hr)
      have hneg : ¬ ((argv.length : ℤ) = -1) := by omega
      have hneg' : ¬ ((argv.length : ℤ) < -1) := by omega
      have hcount : ¬ ((lim.maxArrayLen : ℤ) < argv.length) := by
        have := hfits.count
        omega
      simp only [parseArrayBody, pyInt_natBytes hfits.countText, if_neg hneg, if_neg hneg',
        if_neg hcount, Int.toNat_natCast] at h
      split at h
      · cases h
      · cases h
      · rename_i vs m hitems
        cases h
        exact ⟨vs, rfl, parseItems_length hitems⟩

/-- **A record of another length is lost after a torn one.**
SOURCE: persistence/aof.py:250-299 -/
theorem not_read_after_torn (lim : Limits) {argv next : Command} (hfits : Fits lim argv)
    {p q rest : Bytes} (hp : p ≠ []) (hq : q ≠ []) (hsplit : encodeCommand argv = p ++ q)
    (hnext : encodeCommand next = 42 :: rest) (hstar : (42 : UInt8) ∉ rest)
    (hlength : next.length ≠ argv.length) {messages : List RespValue} {residue : Bytes}
    (h : run (RespParser.top lim) (p ++ encodeCommand next) = .ok (messages, residue)) :
    messages.filterMap RespValue.logged ≠ [next] := by
  have htop := top_lawful lim
  have hmore : RespParser.top lim p = .more := by
    have hd := top_encodeCommand lim argv hfits []
    rw [List.append_nil, hsplit] at hd
    exact step_of_prefix htop hq hd
  rw [hnext] at h
  cases hs : RespParser.top lim (p ++ 42 :: rest) with
  | more =>
    rw [run_of_more hs] at h
    cases h
    simp
  | fail e =>
    rw [run_of_fail hs] at h
    cases h
  | done v n =>
    have hlt := lt_of_more htop (tryParse_take lim _) hmore hs
    obtain ⟨vs, rfl, hvs⟩ := length_of_completed lim hfits hp hsplit hs
    rw [run_of_done htop hs] at h
    rcases hr : run (RespParser.top lim) ((p ++ 42 :: rest).drop n) with e | ⟨ms, r⟩
    · rw [hr] at h; cases h
    · rw [hr] at h
      cases h
      have hsuffix : (42 : UInt8) ∉ (p ++ 42 :: rest).drop n := by
        obtain ⟨k, rfl⟩ : ∃ k, n = p.length + (k + 1) := ⟨n - p.length - 1, by omega⟩
        rw [List.drop_append, List.drop_eq_nil_of_le (by omega), List.nil_append,
          Nat.add_sub_cancel_left, List.drop_succ_cons]
        exact fun hmem => hstar (List.mem_of_mem_drop hmem)
      rw [List.filterMap_cons, filterMap_logged_of_noStar lim hsuffix hr]
      cases hl : (RespValue.array vs).logged with
      | none => simp
      | some c =>
        simp only [ne_eq, List.cons.injEq, and_true]
        rintro rfl
        exact hlength ((length_logged hl).trans hvs)

/-! ## Recovery -/

/-- A deletion of `n` empty keys: a short record with `n + 1` arguments. -/
def shortRecord (n : ℕ) : Command := ascii "DEL" :: List.replicate n []

/-- The commands of `cs` that the first `n` bytes of their file hold. -/
abbrev kept (cs : List Command) (n : ℕ) : List Command := whole encodeCommand cs n

/-- The start of a record that is left at the end of those bytes. -/
abbrev tornTail (cs : List Command) (n : ℕ) : Bytes := torn encodeCommand cs n

/-- **Recovery of a prefix.** Whatever number of bytes of a file of records a crash leaves, the
reader does not fail and returns the longest prefix of the commands whose records are among
these bytes.
SOURCE: persistence/aof.py:250-299, protocol/parser.py:90-144, protocol/encoder.py:82-87 -/
theorem crash_prefix {maxBulkLen maxFileBytes : ℕ} {cs : List Command}
    (hcs : ∀ c ∈ cs, Readable maxBulkLen c)
    (hload : Loadable maxFileBytes (cs.flatMap encodeCommand)) (n : ℕ) :
    ∃ recovered, readCommands maxBulkLen maxFileBytes
        (some ((cs.flatMap encodeCommand).take n)) = .ok recovered ∧
      recovered <+: cs ∧ (recovered.flatMap encodeCommand).length ≤ n ∧
      ∀ front, front <+: cs → (front.flatMap encodeCommand).length ≤ n → front <+: recovered := by
  have hlen : (((cs.flatMap encodeCommand).take n)).length ≤ (cs.flatMap encodeCommand).length := by
    rw [List.length_take]
    exact Nat.min_le_right _ _
  have hcut : Loadable maxFileBytes
      ((kept cs n).flatMap encodeCommand ++ tornTail cs n) := by
    rw [← take_flatMap]
    exact hload.mono hlen
  have hfits := fits_of_loadable hcs (by rwa [List.append_nil])
  have htorn := step_torn (top_lawful (aofLimits maxBulkLen))
    (frames_commands (aofLimits maxBulkLen)) cs hfits (top_nil _) n
  refine ⟨kept cs n, ?_, ?_⟩
  · rw [take_flatMap, readCommands_append (fun c hc => hcs c (mem_whole hc)) hcut,
      run_of_more htorn]
    simp
  · obtain ⟨hfront, hfit⟩ := (prefix_whole_iff encodeCommand cs n (kept cs n)).mp List.prefix_rfl
    refine ⟨hfront, hfit, fun front hp hl => ?_⟩
    exact (prefix_whole_iff encodeCommand cs n front).mpr ⟨hp, hl⟩

/-- Two records cut inside the second. -/
theorem crash_prefix_secondRecord :
    ∃ recovered, readCommands 1024 1000 (some
        (([[ascii "DEL", ascii "a"], [ascii "SET", ascii "k", crlf]].flatMap
          encodeCommand).take 40)) = .ok recovered ∧
      recovered <+: [[ascii "DEL", ascii "a"], [ascii "SET", ascii "k", crlf]] ∧
      (recovered.flatMap encodeCommand).length ≤ 40 ∧
      ∀ front, front <+: [[ascii "DEL", ascii "a"], [ascii "SET", ascii "k", crlf]] →
        (front.flatMap encodeCommand).length ≤ 40 → front <+: recovered :=
  crash_prefix (by decide) ⟨by decide, by decide⟩ 40

/-- **When the records after a crash are safe.** A server restarts on the first `n` bytes of
a file of records and appends further ones. They are read back after the records that were
whole, whichever they are, exactly when the crash left no torn record.
SOURCE: persistence/aof.py:77-88, 250-299, server.py:127-135 -/
theorem torn_tail_iff {cfg : Config} (hen : cfg.aofEnabled = true)
    (hbulk : 3 ≤ cfg.protoMaxBulkLen) {replid : Replid} {rdbFile : Option Bytes}
    {clock : ℕ → ℤ} {srv : Server} {before : List Command} {n : ℕ}
    (hbefore : ∀ c ∈ before, Readable cfg.protoMaxBulkLen c)
    (hbuffer : (before.flatMap encodeCommand).length ≤ 32000000)
    (hroom : Loadable cfg.persistenceMaxLoadBytes
      ((before.flatMap encodeCommand).take n ++ encodeCommand (shortRecord 2)))
    (hstart : Server.start cfg replid (some ((before.flatMap encodeCommand).take n)) rdbFile
      clock = .ok srv) :
    (∀ after : List Command, after ≠ [] → (∀ c ∈ after, Readable cfg.protoMaxBulkLen c) →
      Loadable cfg.persistenceMaxLoadBytes
        ((before.flatMap encodeCommand).take n ++ after.flatMap encodeCommand) →
      readCommands cfg.protoMaxBulkLen cfg.persistenceMaxLoadBytes
        (appendAll cfg srv.aof after).file = .ok (kept before n ++ after)) ↔
      tornTail before n = [] := by
  have hkept : ∀ c ∈ kept before n, Readable cfg.protoMaxBulkLen c :=
    fun c hc => hbefore c (mem_whole hc)
  have hfile : ∀ after, (appendAll cfg srv.aof after).file =
      some ((kept before n).flatMap encodeCommand ++
        (tornTail before n ++ after.flatMap encodeCommand)) := by
    intro after
    rw [(aof_start hen hstart).1, Option.getD_some, appendAll_eq hen, take_flatMap,
      List.append_assoc]
  constructor
  · intro h
    by_contra htorn
    obtain ⟨argv, hargv, q, hq, hsplit⟩ :=
      (torn_cases encodeCommand before n).resolve_left htorn
    have hload : Loadable 32000000 (before.flatMap encodeCommand ++ []) :=
      ⟨by simpa using hbuffer, by simpa using hbuffer⟩
    have hfits := fits_of_loadable hbefore hload argv hargv
    -- a record of another length than the torn one
    obtain ⟨k, hk, hne⟩ : ∃ k, (k = 1 ∨ k = 2) ∧ (shortRecord k).length ≠ argv.length := by
      by_cases h2 : argv.length = 2
      · exact ⟨2, Or.inr rfl, by rw [h2]; decide⟩
      · exact ⟨1, Or.inl rfl, fun heq => h2 heq.symm⟩
    have hread : Readable cfg.protoMaxBulkLen (shortRecord k) := by
      refine ⟨by simp [shortRecord], by rcases hk with rfl | rfl <;> decide, ?_⟩
      intro a ha
      rcases List.mem_cons.mp ha with rfl | ha
      · exact hbulk
      · rw [List.eq_of_mem_replicate ha]
        exact Nat.zero_le _
    have hload : Loadable cfg.persistenceMaxLoadBytes ((before.flatMap encodeCommand).take n ++
        [shortRecord k].flatMap encodeCommand) := by
      refine hroom.mono ?_
      have hshort : (encodeCommand (shortRecord k)).length ≤
          (encodeCommand (shortRecord 2)).length := by
        rcases hk with rfl | rfl <;> decide
      rw [List.length_append, List.length_append, List.flatMap_singleton]
      omega
    have hspec := h [shortRecord k] (by simp) (by simpa using hread) hload
    rw [hfile, readCommands_append hkept
      (by rw [← List.append_assoc, ← take_flatMap]; exact hload), List.flatMap_singleton] at hspec
    rcases hr : run (RespParser.top (aofLimits cfg.protoMaxBulkLen))
      (tornTail before n ++ encodeCommand (shortRecord k)) with e | ⟨messages, residue⟩
    · rw [hr] at hspec; cases hspec
    · rw [hr] at hspec
      have hmsg := List.append_cancel_left (Except.ok.inj hspec)
      obtain ⟨rest, hnext, hstar⟩ : ∃ rest, encodeCommand (shortRecord k) = 42 :: rest ∧
          (42 : UInt8) ∉ rest := by
        rcases hk with rfl | rfl
        · exact ⟨(encodeCommand (shortRecord 1)).tail, by decide, by decide⟩
        · exact ⟨(encodeCommand (shortRecord 2)).tail, by decide, by decide⟩
      exact not_read_after_torn _ hfits htorn hq hsplit hnext hstar hne hr hmsg
  · intro htorn after hne hafter hload
    have hall : ∀ c ∈ kept before n ++ after, Readable cfg.protoMaxBulkLen c := by
      intro c hc
      rcases List.mem_append.mp hc with hc | hc
      · exact hkept c hc
      · exact hafter c hc
    have hdata : (kept before n).flatMap encodeCommand ++
        (tornTail before n ++ after.flatMap encodeCommand) =
        (kept before n ++ after).flatMap encodeCommand := by
      rw [htorn, List.nil_append, List.flatMap_append]
    rw [hfile, hdata]
    refine readCommands_records hall ?_
    rw [← hdata, ← List.append_assoc, ← take_flatMap]
    exact hload

/-- A set and a push. -/
def setThenPush : List Command :=
  [[ascii "SET", ascii "k", ascii "v"], [ascii "LPUSH", ascii "l", ascii "x", ascii "y"]]

/-- The crash falls between the two records: the push is lost, and the two records that are
appended next are read back behind the set. -/
theorem torn_tail_whole :
    ∃ srv, Server.start {} default (some ((setThenPush.flatMap encodeCommand).take 27)) none
        (fun _ => 0) = .ok srv ∧ 27 < (setThenPush.flatMap encodeCommand).length ∧
      readCommands 16777216 1073741824 (appendAll {} srv.aof
          [[ascii "DEL", ascii "k"], [ascii "SET", ascii "a", ascii "b"]]).file =
        .ok [[ascii "SET", ascii "k", ascii "v"], [ascii "DEL", ascii "k"],
          [ascii "SET", ascii "a", ascii "b"]] :=
  ⟨_, rfl, by decide, (@torn_tail_iff {} rfl (by decide) default none (fun _ => 0) _ setThenPush 27
    (by decide) (by decide) ⟨by decide, by decide⟩ rfl).mpr (by decide)
    [[ascii "DEL", ascii "k"], [ascii "SET", ascii "a", ascii "b"]] (by decide) (by decide)
    ⟨by decide, by decide⟩⟩

/-- The last byte of the file is lost: the server starts, and after one more record the
file cannot be read at all. -/
theorem torn_tail_lastByte :
    ∃ srv, Server.start {} default
        (some ((encodeCommand [ascii "SET", ascii "k", ascii "v"]).take 26)) none
        (fun _ => 0) = .ok srv ∧
      readCommands 16777216 1073741824
          (appendAll {} srv.aof [[ascii "SET", ascii "a", ascii "b"]]).file =
        .error (.protocol .missingTrailer) :=
  ⟨_, rfl, by decide⟩

end ByoRedis.Analysis
