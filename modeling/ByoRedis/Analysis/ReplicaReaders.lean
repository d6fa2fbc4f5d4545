import ByoRedis.Lib.Chunks
import ByoRedis.Analysis.ParserLimits

/-!
# The readers of a replica's stream

The stream of a master is read by three loops: `read_one` feeds the parser until a message is
complete, `_read_rdb_bulk` takes the snapshot off the bytes itself, and `_read_loop` feeds the
parser again. Each reads whole chunks, so it looks at bytes that are not its own.
`readOneLoop_spec`, `readRdbBulk_eq` and `readLoop_commands` say for every chunking what each
of them returns and what it leaves to the next.
-/

set_option autoImplicit false

namespace ByoRedis.Analysis

open ByoRedis.Model ByoRedis.Lib.Framing ByoRedis.Lib.Chunks

/-! ## The reading loops -/

/-- `ensure` fills its buffer.
SOURCE: replication/replica.py:163-168 -/
theorem ensureLoop_eq (s : Session) {n : ℕ} (buf : Bytes) (chunks : List Bytes)
    (hne : ∀ c ∈ chunks, c ≠ []) (h : n ≤ buf.length + chunks.flatten.length) :
    s.ensureLoop n buf chunks =
      .ok (fill n buf chunks).1 { s with chunks := (fill n buf chunks).2 } := by
  induction chunks generalizing buf with
  | nil =>
    have hlen : ¬ buf.length < n := by simpa using h
    rw [Session.ensureLoop, if_neg hlen]
    rfl
  | cons c cs ih =>
    have hc : ¬ c.isEmpty = true := by simpa using hne c List.mem_cons_self
    by_cases hlen : buf.length < n
    · rw [Session.ensureLoop, if_pos hlen, if_neg hc, fill_of_lt hlen]
      refine ih _ (fun d hd => hne d (List.mem_cons_of_mem c hd)) ?_
      rw [List.flatten_cons, List.length_append] at h
      rw [List.length_append]
      omega
    · rw [Session.ensureLoop, if_neg hlen, fill_of_le (by omega)]

/-- A line that is not complete yet. -/
theorem readLine_of_lt {line buf rest ext : Bytes} (hcr : cr ∉ line)
    (h : buf ++ rest = line ++ (crlf ++ ext)) (hlen : buf.length < line.length + 2) :
    readLine buf = none := by
  cases hr : readLine buf with
  | none => rfl
  | some r =>
    obtain ⟨line', n⟩ := r
    have hline := readLine_append hr rest
    rw [h, readLine_text line ext hcr, Option.some.injEq, Prod.mk.injEq] at hline
    have hle := (readLine_length hr).2
    omega

/-- A line that is complete. -/
theorem readLine_of_le {line buf rest ext : Bytes} (hcr : cr ∉ line)
    (h : buf ++ rest = line ++ (crlf ++ ext)) (hlen : line.length + 2 ≤ buf.length) :
    readLine buf = some (line, line.length + 2) := by
  rw [← List.append_assoc] at h
  obtain ⟨x, rfl, -⟩ := append_split h (by rw [List.length_append]; exact hlen)
  rw [List.append_assoc]
  exact readLine_text line x hcr

/-- The search for the bulk header reads until the header is there.
SOURCE: replication/replica.py:173-177 -/
theorem headerLoop_eq (s : Session) {line ext : Bytes} (hcr : cr ∉ line) (buf : Bytes)
    (chunks : List Bytes) (hne : ∀ c ∈ chunks, c ≠ [])
    (h : buf ++ chunks.flatten = line ++ (crlf ++ ext)) :
    s.headerLoop buf chunks =
      .ok (line, (fill (line.length + 2) buf chunks).1)
        { s with chunks := (fill (line.length + 2) buf chunks).2 } := by
  induction chunks generalizing buf with
  | nil =>
    have hlen : line.length + 2 ≤ buf.length := by
      have := congrArg List.length h
      simp only [List.flatten_nil, List.append_nil, List.length_append] at this
      have hcrlf : crlf.length = 2 := rfl
      omega
    unfold Session.headerLoop
    rw [readLine_of_le hcr h hlen, fill_of_le hlen]
  | cons c cs ih =>
    have hc : ¬ c.isEmpty = true := by simpa using hne c List.mem_cons_self
    by_cases hlen : line.length + 2 ≤ buf.length
    · unfold Session.headerLoop
      rw [readLine_of_le hcr h hlen, fill_of_le hlen]
    · unfold Session.headerLoop
      rw [readLine_of_lt hcr h (by omega), fill_of_lt (by omega)]
      simp only
      rw [if_neg hc]
      refine ih _ (fun d hd => hne d (List.mem_cons_of_mem c hd)) ?_
      rw [List.append_assoc]
      exact h

/-- What the parser reads as `v`, whatever follows it. -/
def Framed (lim : Limits) (frame : Bytes) (v : RespValue) : Prop :=
  ∀ ext, RespParser.top lim (frame ++ ext) = .done v frame.length

/-- `read_one` reads until its message is complete, and looks at the bytes `x` that came with
it.
SOURCE: replication/replica.py:108-117 -/
theorem readOneLoop_spec (s : Session) {frame ext x : Bytes} {v : RespValue} {w : ℕ}
    (p : RespParser) (chunks : List Bytes) (hframe : Framed p.limits frame v)
    (hchunks : ∀ c ∈ chunks, c ≠ [] ∧ c.length ≤ w)
    (hroom : frame.length + w ≤ p.limits.maxBufferBytes)
    (h : p.buf ++ chunks.flatten = frame ++ ext) (hlen : p.buf.length < frame.length)
    (hx : (fill frame.length p.buf chunks).1 = frame ++ x) :
    (∀ rest, run (RespParser.top p.limits) x = .ok ([], rest) →
      s.readOneLoop p chunks = .ok v { s with
        parser := { p with buf := rest }
        chunks := (fill frame.length p.buf chunks).2 }) ∧
    (∀ e, run (RespParser.top p.limits) x = .error e →
      ∃ s', s.readOneLoop p chunks = .failed (.protocol e) s') := by
  have hs := top_lawful p.limits
  induction chunks generalizing p with
  | nil =>
    have hle := congrArg List.length h
    simp only [List.flatten_nil, List.append_nil, List.length_append] at hle
    omega
  | cons c cs ih =>
    obtain ⟨hc, hcw⟩ := hchunks c List.mem_cons_self
    have hc' : ¬ c.isEmpty = true := by simpa using hc
    have hfeed := @feed_of_le p c (by omega)
    rw [List.flatten_cons, ← List.append_assoc] at h
    rw [fill_of_lt hlen] at hx ⊢
    by_cases hshort : (p.buf ++ c).length < frame.length
    · -- the frame goes on behind this chunk
      obtain ⟨q, hq, -⟩ := append_split h.symm hshort.le
      have hqne : q ≠ [] := by
        rintro rfl
        rw [hq, List.append_nil] at hshort
        omega
      have hdone := hframe []
      rw [List.append_nil, hq] at hdone
      have hmore := step_of_prefix hs hqne hdone
      rw [run_of_more hmore] at hfeed
      have hrest := ih { p with buf := p.buf ++ c } hframe
        (fun d hd => hchunks d (List.mem_cons_of_mem c hd)) hroom h hshort hx hs
      rw [Session.readOneLoop, if_neg hc', hfeed]
      exact hrest
    · -- this chunk brings its end
      rw [fill_of_le (by omega)] at hx ⊢
      have hbuf : p.buf ++ c = frame ++ x := hx
      have hrun : run (RespParser.top p.limits) (p.buf ++ c) =
          push v (run (RespParser.top p.limits) x) := by
        rw [hbuf, run_of_done hs (hframe x), List.drop_left]
      rw [hrun] at hfeed
      constructor
      · intro rest hok
        rw [hok] at hfeed
        rw [Session.readOneLoop, if_neg hc', hfeed]
        rfl
      · intro e herr
        rw [herr] at hfeed
        rw [Session.readOneLoop, if_neg hc', hfeed]
        exact ⟨_, rfl⟩

/-! ## The parts of the stream -/

/-- A simple string on the wire. -/
def simpleLine (text : Bytes) : Bytes := ascii "+" ++ text ++ crlf

/-- A prefix that one line follows.
SOURCE: protocol/parser.py:64-68 -/
theorem framed_line (lim : Limits) {p : UInt8} {value : Str → RespValue}
    (hp : ∀ rest, RespParser.top lim (p :: rest) = parseLine value rest) {text : Bytes}
    (hcr : cr ∉ text) : Framed lim (p :: (text ++ crlf)) (value (decodeReplace text)) := by
  intro ext
  have hlen : (p :: (text ++ crlf)).length = 1 + (text.length + 2) := by
    simp only [List.length_cons, List.length_append, crlf, List.length_nil]
    omega
  rw [List.cons_append, List.append_assoc, hlen, hp, parseLine, readLine_text text ext hcr]

/-- A line without a carriage return is a frame. -/
theorem framed_simpleLine (lim : Limits) {text : Bytes} (hcr : cr ∉ text) :
    Framed lim (simpleLine text) (.str (decodeReplace text)) := by
  apply framed_line lim _ hcr
  intro rest
  unfold RespParser.top
  cases lim.maxArrayDepth <;> rfl

/-- An ASCII byte is its character. -/
theorem decodeReplace_cons {b : UInt8} (hb : b < 128) (rest : Bytes) :
    decodeReplace (b :: rest) = Char.ofNat b.toNat :: decodeReplace rest := by
  have hfirst : decodeFirst (b :: rest) = (Char.ofNat b.toNat, 1) := by
    unfold decodeFirst
    simp [hb]
  unfold decodeReplace
  rw [List.length_cons, decodeLoop, hfirst]
  rfl

/-- ASCII text in front of anything is decoded byte by byte. -/
theorem decodeReplace_append {text : Bytes} (h : ∀ b ∈ text, b < 128) (rest : Bytes) :
    decodeReplace (text ++ rest) =
      (text.map fun b => Char.ofNat b.toNat) ++ decodeReplace rest := by
  induction text with
  | nil => rfl
  | cons b text ih =>
    rw [List.cons_append, decodeReplace_cons (h b List.mem_cons_self),
      ih fun d hd => h d (List.mem_cons_of_mem b hd)]
    rfl

/-- The line a replica waits for.
SOURCE: replication/replica.py:144-146 -/
theorem isFullresync_line (replid : Bytes) (off : ℕ) :
    Session.isFullresync
      (.str (decodeReplace (MasterReplication.fullresyncLine replid off))) = true := by
  have hprefix : (ascii "FULLRESYNC ").map (fun b => Char.ofNat b.toNat) =
      "FULLRESYNC ".toList := by decide
  rw [MasterReplication.fullresyncLine, List.append_assoc, List.append_assoc,
    decodeReplace_append (by decide +kernel), hprefix, Session.isFullresync]
  exact List.isPrefixOf_iff_prefix.mpr (List.prefix_append _ _)

/-- The FULLRESYNC line has no control characters. -/
theorem notMem_fullresyncLine (replid : Replid) (off : ℕ) {b : UInt8} (hb : b < 32) :
    b ∉ MasterReplication.fullresyncLine replid.text off := by
  have hdigit : ∀ d, isDigit d = true → b ≠ d := by
    rintro d hd rfl
    simp only [isDigit, Bool.and_eq_true, decide_eq_true_eq, UInt8.le_iff_toNat_le] at hd
    rw [UInt8.lt_iff_toNat_lt] at hb
    have h32 : (32 : UInt8).toNat = 32 := rfl
    have h48 : (48 : UInt8).toNat = 48 := rfl
    omega
  have hword : b ∉ ascii "FULLRESYNC " := by
    intro h
    have hall : ∀ d ∈ ascii "FULLRESYNC ", ¬ d < 32 := by decide +kernel
    exact hall b h hb
  simp only [MasterReplication.fullresyncLine, List.mem_append, not_or]
  refine ⟨⟨⟨hword, fun h => ?_⟩, fun h => ?_⟩, fun h => ?_⟩
  · rcases replid.hex b h with hd | hx
    · exact hdigit b hd rfl
    · rw [UInt8.lt_iff_toNat_lt] at hb
      rw [UInt8.le_iff_toNat_le] at hx
      have h32 : (32 : UInt8).toNat = 32 := rfl
      have h97 : (97 : UInt8).toNat = 97 := rfl
      omega
  · have hall : ∀ d ∈ ascii " ", ¬ d < 32 := by decide +kernel
    exact hall b h hb
  · exact hdigit b (isDigit_of_mem_natBytes h) rfl

/-- The header of the snapshot.
SOURCE: replication/master.py:154 -/
def bulkHeader (n : ℕ) : Bytes := ascii "$" ++ natBytes n ++ crlf

/-- SOURCE: replication/master.py:153-155 -/
theorem fullresyncPayload_eq (replid : Replid) (off : ℕ) (rdb : Bytes) :
    MasterReplication.fullresyncPayload replid.text off rdb =
      simpleLine (MasterReplication.fullresyncLine replid.text off) ++
        (bulkHeader rdb.length ++ rdb) := by
  have hplain : ¬ (cr ∈ MasterReplication.fullresyncLine replid.text off ∨
      lf ∈ MasterReplication.fullresyncLine replid.text off) := by
    rw [not_or]
    exact ⟨notMem_fullresyncLine replid off (by decide),
      notMem_fullresyncLine replid off (by decide)⟩
  rw [MasterReplication.fullresyncPayload, encodeSimpleString, if_neg hplain, Option.getD_some,
    List.append_assoc]
  rfl

/-! ## The snapshot under the parser

`read_one` leaves the bytes behind its line to the parser, which takes the header of the
snapshot for that of a bulk string. -/

section Snapshot

variable {lim : Limits} {rdb commands : Bytes}

/-- In front of the end of the header the parser waits, whatever the length.
SOURCE: protocol/parser.py:90-93 -/
theorem top_header_more (lim : Limits) (n : ℕ) (rest : Bytes) {k : ℕ}
    (hk : k < (bulkHeader n).length) :
    RespParser.top lim ((bulkHeader n ++ rest).take k) = .more := by
  rw [List.take_append_of_le_length hk.le]
  cases k with
  | zero => exact top_nil lim
  | succ k =>
    have hshape : (bulkHeader n).take (k + 1) = 36 :: (natBytes n ++ crlf).take k := rfl
    have hbulk : RespParser.top lim (36 :: (natBytes n ++ crlf).take k) =
        parseBulk lim ((natBytes n ++ crlf).take k) := by
      unfold RespParser.top
      cases lim.maxArrayDepth <;> rfl
    have hlen : ((natBytes n ++ crlf).take k).length < (natBytes n).length + 2 := by
      have htotal : (bulkHeader n).length = 1 + ((natBytes n).length + 2) := by
        simp [bulkHeader, ascii, crlf]
        omega
      rw [List.length_take]
      omega
    have hsplit : (natBytes n ++ crlf).take k ++ (natBytes n ++ crlf).drop k =
        natBytes n ++ (crlf ++ []) := by
      rw [List.take_append_drop, List.append_nil]
    rw [hshape, hbulk, parseBulk, readLine_of_lt (cr_notMem_natBytes n) hsplit hlen]

/-- A header that announces too much is refused as soon as it is there.
SOURCE: protocol/parser.py:103-104 -/
theorem top_header_fail {n : ℕ} (hbulk : lim.maxBulkLen < n) (hconv : Convertible n)
    (rest : Bytes) :
    RespParser.top lim (bulkHeader n ++ rest) = .fail (.bulkTooLong n) := by
  rw [RespParser.top, bulkHeader, tryParse_bulkHeader lim _ _ hconv, if_pos hbulk]

/-- Up to one byte behind the snapshot the parser waits.
SOURCE: protocol/parser.py:98-107 -/
theorem top_snapshot_more (hbulk : rdb.length ≤ lim.maxBulkLen) (hconv : Convertible rdb.length)
    {k : ℕ} (hk : k < (bulkHeader rdb.length).length + rdb.length + 2) :
    RespParser.top lim ((bulkHeader rdb.length ++ (rdb ++ commands)).take k) = .more := by
  by_cases hhead : (bulkHeader rdb.length).length ≤ k
  · rw [List.take_append, List.take_of_length_le hhead, RespParser.top, bulkHeader,
      tryParse_bulkHeader lim _ _ hconv, if_neg (Nat.not_lt.mpr hbulk), if_pos ?_]
    rw [List.length_take]
    simp only [bulkHeader] at hk hhead
    omega
  · exact top_header_more lim _ _ (by omega)

/-- With two bytes of a command behind the snapshot the parser misses its CRLF.
SOURCE: protocol/parser.py:108-109 -/
theorem top_snapshot_fail (hbulk : rdb.length ≤ lim.maxBulkLen) (hconv : Convertible rdb.length)
    (hstar : commands.head? = some 42) {k : ℕ}
    (hk : (bulkHeader rdb.length).length + rdb.length + 2 ≤ k)
    (hle : k ≤ (bulkHeader rdb.length ++ (rdb ++ commands)).length) :
    RespParser.top lim ((bulkHeader rdb.length ++ (rdb ++ commands)).take k) =
      .fail .missingTrailer := by
  obtain ⟨rest, rfl⟩ : ∃ rest, commands = 42 :: rest := by
    cases commands with
    | nil => cases hstar
    | cons b rest =>
      cases hstar
      exact ⟨rest, rfl⟩
  set body := (rdb ++ 42 :: rest).take (k - (bulkHeader rdb.length).length) with hbody
  have hlen : ¬ body.length < rdb.length + 2 := by
    rw [List.length_append] at hle
    rw [hbody, List.length_take]
    omega
  have htrailer : (body.drop rdb.length).take 2 ≠ crlf := by
    obtain ⟨j, hj⟩ : ∃ j, k - (bulkHeader rdb.length).length - rdb.length = j + 1 :=
      ⟨k - (bulkHeader rdb.length).length - rdb.length - 1, by omega⟩
    rw [hbody, List.drop_take, List.drop_left, hj, List.take_succ_cons, List.take_succ_cons]
    intro h
    have h42 := (List.cons.inj h).1
    exact absurd h42 (by decide)
  rw [List.take_append, List.take_of_length_le (by omega), ← hbody, RespParser.top, bulkHeader,
    tryParse_bulkHeader lim _ _ hconv, if_neg (Nat.not_lt.mpr hbulk), if_neg hlen,
    if_pos htrailer]

end Snapshot

/-! ## The snapshot under its own reader -/

/-- SOURCE: replication/replica.py:189-195 -/
theorem readRdbBody_eq {s : Session} {head rdb buf left rest : Bytes} {messages : List RespValue}
    (hne : ∀ c ∈ s.chunks, c ≠ []) (hbuf : s.parser.buf = [])
    (hlen : head.length + rdb.length ≤ buf.length + s.chunks.flatten.length)
    (hfill : (fill (head.length + rdb.length) buf s.chunks).1 = head ++ (rdb ++ left))
    (hleft : left.length ≤ s.parser.limits.maxBufferBytes)
    (hrun : run (RespParser.top s.parser.limits) left = .ok (messages, rest)) :
    Session.readRdbBody head.length rdb.length buf s = .ok rdb { s with
      parser := { s.parser with buf := rest }
      chunks := (fill (head.length + rdb.length) buf s.chunks).2 } := by
  have hbody : ((head ++ (rdb ++ left)).drop head.length).take rdb.length = rdb := by
    rw [List.drop_left, List.take_left]
  have hover : (head ++ (rdb ++ left)).drop (head.length + rdb.length) = left := by
    rw [← List.drop_drop, List.drop_left, List.drop_left]
  rw [Session.readRdbBody, Session.ensure, ensureLoop_eq s buf s.chunks hne hlen]
  simp only [Progress.andThen, hfill, hbody, hover]
  by_cases hempty : left = []
  · subst hempty
    rw [run_of_more (top_nil _)] at hrun
    cases hrun
    have hparser : { s.parser with buf := [] } = s.parser := by rw [← hbuf]
    rw [hparser]
    exact if_pos rfl
  · have hfeed := @feed_of_le s.parser left (by rw [hbuf]; simpa using hleft)
    rw [hbuf, List.nil_append, hrun] at hfeed
    have hsome : ¬ left.isEmpty = true := by simpa using hempty
    rw [if_neg hsome, hfeed]

/-- `_read_rdb_bulk` from a parser that holds the start of the snapshot: the snapshot is
returned, and the parser is left with what the bytes read beyond it leave in its buffer. The
messages among them are lost.
SOURCE: replication/replica.py:156-195 -/
theorem readRdbBulk_eq {cfg : ReplicaConfig} {s : Session} {rdb commands left rest : Bytes}
    {messages : List RespValue}
    (hconv : Convertible rdb.length) (hsnap : rdb.length ≤ cfg.snapshotMaxBytes)
    (hne : ∀ c ∈ s.chunks, c ≠ [])
    (hstream : s.parser.buf ++ s.chunks.flatten = bulkHeader rdb.length ++ (rdb ++ commands))
    (hfill : (fill ((bulkHeader rdb.length).length + rdb.length) s.parser.buf s.chunks).1 =
      bulkHeader rdb.length ++ (rdb ++ left))
    (hleft : left.length ≤ s.parser.limits.maxBufferBytes)
    (hrun : run (RespParser.top s.parser.limits) left = .ok (messages, rest)) :
    s.readRdbBulk cfg = .ok rdb { s with
      parser := { s.parser with buf := rest }
      chunks :=
        (fill ((bulkHeader rdb.length).length + rdb.length) s.parser.buf s.chunks).2 } := by
  have hlen : (bulkHeader rdb.length).length = (ascii "$" ++ natBytes rdb.length).length + 2 := by
    rw [bulkHeader, List.length_append]
    rfl
  have hcr : cr ∉ ascii "$" ++ natBytes rdb.length := by
    rw [List.mem_append, not_or]
    exact ⟨by decide, cr_notMem_natBytes _⟩
  have htotal := congrArg List.length hstream
  simp only [List.length_append] at htotal
  rw [Session.readRdbBulk]
  dsimp only
  rw [Session.ensure, ensureLoop_eq _ s.parser.buf s.chunks hne (by omega)]
  -- one byte is there, and it is the dollar sign
  generalize hf₁ : fill 1 s.parser.buf s.chunks = r₁
  have hsplit₁ := fill_flatten 1 s.parser.buf s.chunks
  have hlong₁ := @le_length_fill _ 1 s.parser.buf s.chunks (by omega)
  have hfills₁ := fun k (hk : 1 ≤ k) => fill_fill hk s.parser.buf s.chunks
  have hne₁ : ∀ c ∈ (fill 1 s.parser.buf s.chunks).2, c ≠ [] :=
    fun c hc => hne c (mem_of_mem_fill hc)
  rw [hf₁] at hsplit₁ hlong₁ hfills₁ hne₁
  obtain ⟨b₁, cs₁⟩ := r₁
  simp only at hsplit₁ hlong₁ hfills₁ hne₁
  have hdollar : b₁.head? = some 36 := by
    rw [hstream] at hsplit₁
    cases b₁ with
    | nil => simp at hlong₁
    | cons b b₁ =>
      have hb := (List.cons.inj hsplit₁).1
      rw [hb]
      rfl
  simp only [Progress.andThen, hdollar, ne_eq, not_true_eq_false, if_false]
  -- the header
  rw [headerLoop_eq _ hcr b₁ cs₁ hne₁ (by rw [hsplit₁, hstream, bulkHeader, List.append_assoc])]
  have hdrop : (ascii "$" ++ natBytes rdb.length).drop 1 = natBytes rdb.length := rfl
  have hneg : ¬ ((rdb.length : ℤ) < 0) := by omega
  have hlimit : ¬ ((cfg.snapshotMaxBytes : ℤ) < (rdb.length : ℤ)) := by omega
  simp only [hdrop, pyInt_natBytes hconv, if_neg hneg, if_neg hlimit, Int.toNat_natCast]
  rw [← hlen, hfills₁ _ (by rw [hlen]; omega)]
  -- the body
  have hfills := fill_fill (Nat.le_add_right (bulkHeader rdb.length).length rdb.length)
    s.parser.buf s.chunks
  have hsplit := fill_flatten (bulkHeader rdb.length).length s.parser.buf s.chunks
  have hsplit' := congrArg List.length hsplit
  simp only [List.length_append] at hsplit'
  have hbody := @readRdbBody_eq { s with
      parser := s.parser.reset
      chunks := (fill (bulkHeader rdb.length).length s.parser.buf s.chunks).2 }
    (bulkHeader rdb.length) rdb (fill (bulkHeader rdb.length).length s.parser.buf s.chunks).1
    left rest messages (fun c hc => hne c (mem_of_mem_fill hc)) rfl (by simp only; omega)
    (by rw [hfills]; exact hfill) hleft hrun
  rw [hfills] at hbody
  exact hbody

/-! ## The commands -/

/-- SOURCE: replication/replica.py:212-227 -/
theorem applyMessages_commands {cmds : List Command} (h : ∀ c ∈ cmds, c ≠ []) (s : Session) :
    Session.applyMessages (cmds.map commandValue) s =
      .ok () { s with applied := s.applied ++ cmds } := by
  induction cmds generalizing s with
  | nil =>
    rw [List.append_nil]
    rfl
  | cons c cmds ih =>
    have hne : ¬ (c.map RespValue.bulk).isEmpty = true := by simpa using h c List.mem_cons_self
    rw [List.map_cons, commandValue, Session.applyMessages, if_neg hne, argvOf_bulks]
    simp only
    rw [ih fun d hd => h d (List.mem_cons_of_mem c hd), List.append_assoc]
    rfl

/-- A chunk of the stream of commands, fed at position `k`: the commands it completes.
SOURCE: protocol/parser.py:33-49 -/
theorem feed_commands {p : RespParser} {cmds : List Command} {k : ℕ} {c rest : Bytes}
    (hfits : ∀ a ∈ cmds, Fits p.limits a) (hbuf : p.buf = torn encodeCommand cmds k)
    (hstream : (cmds.flatMap encodeCommand).drop k = c ++ rest)
    (hroom : p.buf.length + c.length ≤ p.limits.maxBufferBytes) :
    (whole encodeCommand cmds k).length ≤ (whole encodeCommand cmds (k + c.length)).length ∧
      p.feed c = .ok (((whole encodeCommand cmds (k + c.length)).drop
          (whole encodeCommand cmds k).length).map commandValue,
        { p with buf := torn encodeCommand cmds (k + c.length) }) := by
  have hs := top_lawful p.limits
  have hread := fun n => run_take_flatMap hs (frames_commands p.limits) cmds hfits
    (top_nil p.limits) n
  have hmore := hread (k + c.length)
  rw [List.take_add, hstream, List.take_left, run_append_of_ok hs (hread k), ← hbuf] at hmore
  rcases hrun : run (RespParser.top p.limits) (p.buf ++ c) with e | ⟨ms, r⟩
  · rw [hrun] at hmore
    cases hmore
  · rw [hrun] at hmore
    obtain ⟨hms, hr⟩ := Prod.mk.inj (Except.ok.inj hmore)
    have hlen := congrArg List.length hms
    simp only [List.length_append, List.length_map] at hlen
    have hdrop : ms = ((whole encodeCommand cmds (k + c.length)).drop
        (whole encodeCommand cmds k).length).map commandValue := by
      rw [List.map_drop, ← hms, ← List.length_map commandValue, List.drop_left]
    refine ⟨by omega, ?_⟩
    rw [feed_of_le hroom, hrun, hdrop, hr]

/-- The chunks from position `k` of the stream on go into a buffer of `max` bytes: each one
fits behind the start of the command that it continues. -/
def RoomFrom (max : ℕ) (cmds : List Command) (k : ℕ) (chunks : List Bytes) : Prop :=
  ∀ pre c post, chunks = pre ++ c :: post →
    (torn encodeCommand cmds (k + pre.flatten.length)).length + c.length ≤ max

/-- There is room for the first read, and then for the others. -/
theorem roomFrom_cons {max : ℕ} {cmds : List Command} {k : ℕ} {c : Bytes} {cs : List Bytes} :
    RoomFrom max cmds k (c :: cs) ↔
      (torn encodeCommand cmds k).length + c.length ≤ max ∧
        RoomFrom max cmds (k + c.length) cs := by
  constructor
  · intro h
    refine ⟨h [] c cs rfl, fun pre d post hcs => ?_⟩
    have hd := h (c :: pre) d post (by rw [hcs]; rfl)
    rw [List.flatten_cons, List.length_append, ← Nat.add_assoc] at hd
    exact hd
  · rintro ⟨hc, hcs⟩ pre d post heq
    cases pre with
    | nil =>
      cases heq
      exact hc
    | cons b pre =>
      obtain ⟨rfl, rfl⟩ := List.cons.inj heq
      rw [List.flatten_cons, List.length_append, ← Nat.add_assoc]
      exact hcs pre d post rfl

/-- **The command stream from position `k` on.** As long as the buffer has room every command
that is not whole at position `k` is applied, once and in order; else the session fails.
SOURCE: replication/replica.py:197-227 -/
theorem readLoop_commands {cmds : List Command} (hcmds : ∀ c ∈ cmds, c ≠ []) (s : Session)
    (chunks : List Bytes) {k : ℕ} (hne : ∀ c ∈ chunks, c ≠ [])
    (hfits : ∀ c ∈ cmds, Fits s.parser.limits c) (hbuf : s.parser.buf = torn encodeCommand cmds k)
    (hk : k ≤ (cmds.flatMap encodeCommand).length)
    (hstream : (cmds.flatMap encodeCommand).drop k = chunks.flatten) :
    (RoomFrom s.parser.limits.maxBufferBytes cmds k chunks →
      ∃ s', s.readLoop chunks = .waiting s' ∧ s'.loaded = s.loaded ∧
        s'.applied = s.applied ++ cmds.drop (whole encodeCommand cmds k).length) ∧
    (¬ RoomFrom s.parser.limits.maxBufferBytes cmds k chunks →
      ∃ e s', s.readLoop chunks = .failed e s') := by
  induction chunks generalizing s k with
  | nil =>
    rw [List.flatten_nil, List.drop_eq_nil_iff] at hstream
    have hend : k = (cmds.flatMap encodeCommand).length := le_antisymm hk hstream
    refine ⟨fun _ => ⟨_, rfl, rfl, ?_⟩, fun hno => absurd ?_ hno⟩
    · rw [hend, whole_all, List.drop_length, List.append_nil]
    · intro pre c post hnil
      simp at hnil
  | cons c cs ih =>
    have hc : ¬ c.isEmpty = true := by simpa using hne c List.mem_cons_self
    rw [List.flatten_cons] at hstream
    have hlen := congrArg List.length hstream
    rw [List.length_drop, List.length_append] at hlen
    rw [Session.readLoop, if_neg hc, roomFrom_cons, ← hbuf]
    by_cases hroom : s.parser.buf.length + c.length ≤ s.parser.limits.maxBufferBytes
    · obtain ⟨hgrow, hfeed⟩ := feed_commands hfits hbuf hstream hroom
      have happly := @applyMessages_commands
        ((whole encodeCommand cmds (k + c.length)).drop (whole encodeCommand cmds k).length)
        (fun a ha => hcmds a (mem_whole (List.mem_of_mem_drop ha)))
      have hdrop : (cmds.flatMap encodeCommand).drop (k + c.length) = cs.flatten := by
        rw [← List.drop_drop, hstream, List.drop_left]
      have hrest := ih { s with
          parser := { s.parser with buf := torn encodeCommand cmds (k + c.length) }
          chunks := cs
          applied := s.applied ++ (whole encodeCommand cmds (k + c.length)).drop
            (whole encodeCommand cmds k).length }
        (fun d hd => hne d (List.mem_cons_of_mem c hd)) hfits rfl (by omega) hdrop
      have htail : (whole encodeCommand cmds (k + c.length)).drop
            (whole encodeCommand cmds k).length ++
          cmds.drop (whole encodeCommand cmds (k + c.length)).length =
          cmds.drop (whole encodeCommand cmds k).length := by
        rw [← List.drop_append_of_le_length hgrow, whole_append_drop]
      simp only [Session.feedAndApply, hfeed, happly]
      simp only [List.append_assoc, htail] at hrest
      exact ⟨fun hr => hrest.1 hr.2, fun hno => hrest.2 fun hr => hno ⟨hroom, hr⟩⟩
    · have hfeed : s.parser.feed c = .error (.bufferExceeded s.parser.limits.maxBufferBytes) := by
        unfold RespParser.feed
        rw [if_pos (Nat.not_le.mp hroom)]
      simp only [Session.feedAndApply, hfeed]
      exact ⟨fun hr => absurd hr.1 hroom, fun _ => ⟨_, _, rfl⟩⟩

end ByoRedis.Analysis
