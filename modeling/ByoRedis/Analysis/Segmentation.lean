import ByoRedis.Analysis.RespParsing

/-!
# Chunks of a stream

TCP cuts a stream of frames anywhere, and `feed` sees one piece at a time. On a stream that
can be read to its end the cuts do not matter (`segmentation`). On a stream with a malformed
frame they do: `feed` raises and drops the messages it has read from the same chunk, so the
valid frames before the malformed one are all delivered exactly when a chunk ends between
them and the byte that gives the malformed frame away (`malformed_iff`).
-/

set_option autoImplicit false

namespace ByoRedis.Analysis

open ByoRedis.Model ByoRedis.Lib.Framing

/-- `feed` on one chunk after the other: the messages of all of them. -/
def feedAll (p : RespParser) : List Bytes → Except ProtocolError (List RespValue × RespParser)
  | [] => .ok ([], p)
  | c :: cs =>
    match p.feed c with
    | .error e => .error e
    | .ok (messages, p) =>
      match feedAll p cs with
      | .error e => .error e
      | .ok (rest, p) => .ok (messages ++ rest, p)

/-- What a caller that feeds the chunks of a stream is handed before `feed` raises, and the
error it raises. -/
def delivered (p : RespParser) : List Bytes → List RespValue × Option ProtocolError
  | [] => ([], none)
  | c :: cs =>
    match p.feed c with
    | .error e => ([], some e)
    | .ok (messages, p) => (messages ++ (delivered p cs).1, (delivered p cs).2)

/-! ## Streams that can be read -/

/-- What fits the buffer is parsed with what is in it. -/
theorem feed_of_le {p : RespParser} {data : Bytes}
    (h : p.buf.length + data.length ≤ p.limits.maxBufferBytes) :
    p.feed data = match run (RespParser.top p.limits) (p.buf ++ data) with
      | .error e => .error e
      | .ok (messages, rest) => .ok (messages, { p with buf := rest }) := by
  unfold RespParser.feed
  refine (if_neg (Nat.not_lt.mpr h)).trans ?_
  rcases run (RespParser.top p.limits) (p.buf ++ data) with e | ⟨messages, rest⟩
  · rfl
  · rfl

/-- As long as the buffer has room, feeding the chunks is reading their stream.
SOURCE: protocol/parser.py:33-49 -/
theorem feedAll_eq_feeds {p : RespParser} (chunks : List Bytes)
    (hlen : p.buf.length + chunks.flatten.length ≤ p.limits.maxBufferBytes) :
    feedAll p chunks = match feeds (RespParser.top p.limits) p.buf chunks with
      | .error e => .error e
      | .ok (messages, rest) => .ok (messages, { p with buf := rest }) := by
  induction chunks generalizing p with
  | nil => rfl
  | cons c cs ih =>
    rw [List.flatten_cons, List.length_append] at hlen
    rw [feedAll, feeds, feed_of_le (by omega)]
    rcases hc : run (RespParser.top p.limits) (p.buf ++ c) with e | ⟨ms, r⟩
    · rfl
    · have hr := length_residue (top_lawful p.limits) hc
      rw [List.length_append] at hr
      have hcs := @ih { p with buf := r } (by simp only; omega)
      simp only [hcs]
      rcases feeds (RespParser.top p.limits) r cs with e | ⟨ms', r'⟩
      · rfl
      · rfl

/-- **Parsing does not depend on segmentation.** A stream that a fresh parser reads in one
piece is read the same from any chunks, with the same residue.
SOURCE: protocol/parser.py:33-49 -/
theorem segmentation (lim : Limits) {s : Bytes} {messages : List RespValue} {p : RespParser}
    (h : RespParser.feed { limits := lim } s = .ok (messages, p)) (chunks : List Bytes)
    (hchunks : chunks.flatten = s) : feedAll { limits := lim } chunks = .ok (messages, p) := by
  have hlen : s.length ≤ lim.maxBufferBytes := by
    by_contra hlarge
    unfold RespParser.feed at h
    rw [if_pos (by simpa using hlarge)] at h
    cases h
  rw [feed_of_le (by simpa using hlen)] at h
  rcases hr : run (RespParser.top lim) s with e | ⟨ms, rest⟩
  · simp only [List.nil_append, hr] at h
    cases h
  · simp only [List.nil_append, hr] at h
    cases h
    have hfeeds := @feeds_eq_run _ _ _ _ (top_lawful lim) chunks [] rest messages (top_nil lim)
      (by rw [List.nil_append, hchunks]; exact hr)
    rw [feedAll_eq_feeds chunks (by simpa [hchunks] using hlen), hfeeds]

/-- A nested array with a null, an integer and an error, cut inside its line ends. -/
def cutStream : List Bytes :=
  [ascii "*3\r", ascii "\n*1\r\n$-1\r\n:-", [], ascii "7\r\n-ERR x\r", ascii "\n$2\r\n\r"]

/-- The limits of a small parser. -/
def smallLimits : Limits :=
  { maxBulkLen := 64, maxBufferBytes := 128, maxArrayLen := 8, maxArrayDepth := 4 }

/-- One message comes out and five bytes wait, in one read as in five. -/
theorem segmentation_cut :
    ∃ messages p, RespParser.feed { limits := smallLimits } cutStream.flatten = .ok (messages, p) ∧
      messages.length = 1 ∧ p.buf = ascii "$2\r\n\r" ∧
      feedAll { limits := smallLimits } cutStream = .ok (messages, p) := by
  have heval : (RespParser.feed { limits := smallLimits } cutStream.flatten).toOption.map
      (fun r => (r.1.length, r.2.buf)) = some (1, ascii "$2\r\n\r") := by
    decide +kernel
  rcases hfeed : RespParser.feed { limits := smallLimits } cutStream.flatten with e | ⟨messages, p⟩
  · rw [hfeed] at heval
    cases heval
  · rw [hfeed] at heval
    obtain ⟨hcount, hbuf⟩ := Prod.mk.inj (Option.some.inj heval)
    exact ⟨messages, p, rfl, hcount, hbuf, segmentation smallLimits hfeed cutStream rfl⟩

/-! ## Streams with a malformed frame -/

/-- What is delivered of a stream that cannot be read: the messages of the chunks before the
first one that makes the parser raise.
SOURCE: protocol/parser.py:33-49 -/
theorem delivered_of_error {p : RespParser} (hbuf : RespParser.top p.limits p.buf = .more)
    (chunks : List Bytes) {e : ProtocolError}
    (h : run (RespParser.top p.limits) (p.buf ++ chunks.flatten) = .error e)
    (hwithin : (delivered p chunks).2 ≠ some (.bufferExceeded p.limits.maxBufferBytes)) :
    ∃ pre c post messages rest, chunks = pre ++ c :: post ∧
      run (RespParser.top p.limits) (p.buf ++ pre.flatten) = .ok (messages, rest) ∧
      run (RespParser.top p.limits) (p.buf ++ pre.flatten ++ c) = .error e ∧
      delivered p chunks = (messages, some e) := by
  have hs := top_lawful p.limits
  induction chunks generalizing p with
  | nil =>
    rw [List.flatten_nil, List.append_nil, run_of_more hbuf] at h
    cases h
  | cons c cs ih =>
    rw [List.flatten_cons, ← List.append_assoc] at h
    by_cases hlen : p.buf.length + c.length ≤ p.limits.maxBufferBytes
    · have hfeed := feed_of_le hlen
      rcases hc : run (RespParser.top p.limits) (p.buf ++ c) with e' | ⟨ms, r⟩
      · rw [run_append_of_error hs hc] at h
        cases h
        rw [hc] at hfeed
        refine ⟨[], c, cs, [], p.buf, rfl, ?_, ?_, ?_⟩
        · rw [List.flatten_nil, List.append_nil, run_of_more hbuf]
        · rw [List.flatten_nil, List.append_nil, hc]
        · simp only [delivered, hfeed]
      · rw [hc] at hfeed
        rw [run_append_of_ok hs hc] at h
        have hrest : run (RespParser.top p.limits) (r ++ cs.flatten) = .error e := by
          rcases hr : run (RespParser.top p.limits) (r ++ cs.flatten) with e' | ⟨ms', r'⟩
          · rw [hr] at h
            cases h
            rfl
          · rw [hr] at h
            cases h
        have hwithin' : (delivered { p with buf := r } cs).2 ≠
            some (.bufferExceeded p.limits.maxBufferBytes) := by
          simpa only [delivered, hfeed] using hwithin
        obtain ⟨pre, d, post, ms', rest, rfl, hpre, herr, hdel⟩ :=
          ih (p := { p with buf := r }) (step_residue hs hc) hrest hwithin' hs
        refine ⟨c :: pre, d, post, ms ++ ms', rest, rfl, ?_, ?_, ?_⟩
        · rw [List.flatten_cons, ← List.append_assoc, run_append_of_ok hs hc, hpre]
          rfl
        · rw [List.flatten_cons, ← List.append_assoc, List.append_assoc, run_append_of_ok hs hc,
            ← List.append_assoc, herr]
          rfl
        · simp only [delivered, hfeed, hdel]
    · -- the buffer would overflow, which the hypothesis excludes
      refine absurd ?_ hwithin
      have hfeed : p.feed c = .error (.bufferExceeded p.limits.maxBufferBytes) := by
        unfold RespParser.feed
        rw [if_pos (Nat.not_le.mp hlen)]
      simp only [delivered, hfeed]

/-- A buffer without a message is left as it is. -/
theorem residue_of_no_message {step : Bytes → Parse RespValue} (hs : Lawful step)
    {buf rest : Bytes} (h : run step buf = .ok ([], rest)) : rest = buf := by
  cases hstep : step buf with
  | more =>
    rw [run_of_more hstep] at h
    cases h
    rfl
  | fail e =>
    rw [run_of_fail hstep] at h
    cases h
  | done a n =>
    rw [run_of_done hs hstep] at h
    rcases hr : run step (buf.drop n) with e | ⟨ms, r⟩
    · rw [hr] at h
      cases h
    · rw [hr] at h
      cases h

/-- The start of a malformed frame is incomplete as long as it can be read. -/
theorem more_of_malformed {lim : Limits} {bad : Bytes} {e : ProtocolError}
    (hbad : RespParser.top lim bad = .fail e) {k : ℕ} {r : List RespValue × Bytes}
    (h : run (RespParser.top lim) (bad.take k) = .ok r) :
    RespParser.top lim (bad.take k) = .more := by
  have hs := top_lawful lim
  cases hk : RespParser.top lim (bad.take k) with
  | more => rfl
  | fail e' =>
    rw [run_of_fail hk] at h
    cases h
  | done a n =>
    have hdone := hs.done_append (bad.drop k) hk
    rw [List.take_append_drop, hbad] at hdone
    cases hdone

/-- The messages of a stream that reaches beyond its valid frames. -/
theorem messages_past_valid {lim : Limits} {w bad : Bytes} {messages : List RespValue}
    {e : ProtocolError} (hw : run (RespParser.top lim) w = .ok (messages, []))
    (hbad : RespParser.top lim bad = .fail e) {s tail : Bytes} (hsplit : s ++ tail = w ++ bad)
    (hlen : w.length ≤ s.length) {ms : List RespValue} {rest : Bytes}
    (h : run (RespParser.top lim) s = .ok (ms, rest)) :
    ms = messages ∧ RespParser.top lim (bad.take (s.length - w.length)) = .more := by
  have hs : s = w ++ bad.take (s.length - w.length) := by
    have htake := congrArg (List.take s.length) hsplit
    rw [List.take_left, List.take_append, List.take_of_length_le hlen] at htake
    exact htake
  rw [hs, run_append_of_ok (top_lawful lim) hw, List.nil_append] at h
  rcases hr : run (RespParser.top lim) (bad.take (s.length - w.length)) with e' | r
  · rw [hr] at h
    cases h
  · have hmore := more_of_malformed hbad hr
    rw [run_of_more hmore] at h
    cases h
    exact ⟨List.append_nil messages, hmore⟩

/-- The messages of a stream that stops short of its valid frames. -/
theorem messages_before_valid {lim : Limits} {w bad : Bytes} {messages : List RespValue}
    (hw : run (RespParser.top lim) w = .ok (messages, [])) {s tail : Bytes}
    (hsplit : s ++ tail = w ++ bad) (hlen : s.length < w.length) {ms : List RespValue}
    {rest : Bytes} (h : run (RespParser.top lim) s = .ok (ms, rest)) : ms ≠ messages := by
  rintro rfl
  obtain ⟨v, rfl⟩ : ∃ v, w = s ++ v := by
    refine ⟨w.drop s.length, ?_⟩
    have htake := congrArg (List.take s.length) hsplit
    rw [List.take_left, List.take_append_of_le_length hlen.le] at htake
    rw [htake]
    simp [List.take_append_drop, Nat.min_eq_left hlen.le]
  rw [run_append_of_ok (top_lawful lim) h] at hw
  rcases hr : run (RespParser.top lim) (rest ++ v) with e | ⟨ms', r⟩
  · rw [hr] at hw
    cases hw
  · rw [hr] at hw
    obtain ⟨hms, rfl⟩ := Prod.mk.inj (Except.ok.inj hw)
    have hnone : ms' = [] := List.append_right_eq_self.mp hms
    subst hnone
    have hempty := residue_of_no_message (top_lawful lim) hr
    have hv : v = [] := (List.append_eq_nil_iff.mp hempty.symm).2
    rw [hv, List.append_nil] at hlen
    exact absurd hlen (lt_irrefl _)

/-- **Frames ahead of a malformed one.** A stream of complete frames `w` is followed by a
malformed frame and comes in chunks that stay within the buffer. The messages of `w` are
exactly what is delivered before the error if and only if some chunk ends behind `w` and
before the malformed frame is recognised.
SOURCE: protocol/parser.py:33-49, server.py:302-318 -/
theorem malformed_iff (lim : Limits) {w bad : Bytes} {messages : List RespValue}
    {e : ProtocolError} (hw : run (RespParser.top lim) w = .ok (messages, []))
    (hbad : RespParser.top lim bad = .fail e) (chunks : List Bytes)
    (hchunks : chunks.flatten = w ++ bad)
    (hwithin : (delivered { limits := lim } chunks).2 ≠
      some (.bufferExceeded lim.maxBufferBytes)) :
    (delivered { limits := lim } chunks).1 = messages ↔
      ∃ pre post, chunks = pre ++ post ∧ w.length ≤ pre.flatten.length ∧
        RespParser.top lim (bad.take (pre.flatten.length - w.length)) = .more := by
  have hs := top_lawful lim
  have herr : run (RespParser.top lim) chunks.flatten = .error e := by
    rw [hchunks, run_append_of_ok hs hw, List.nil_append, run_of_fail hbad]
    rfl
  obtain ⟨pre, c, post, ms, rest, hsplit, hpre, hraise, hdel⟩ :=
    delivered_of_error (p := { limits := lim }) (top_nil lim) chunks herr hwithin
  have hflat : pre.flatten ++ (c :: post).flatten = w ++ bad := by
    rw [← hchunks, hsplit, List.flatten_append]
  simp only [List.nil_append] at hpre hraise
  rw [hdel]
  constructor
  · intro hms
    have hlen : w.length ≤ pre.flatten.length := by
      by_contra hshort
      exact messages_before_valid hw hflat (Nat.not_le.mp hshort) hpre hms
    exact ⟨pre, c :: post, hsplit, hlen, (messages_past_valid hw hbad hflat hlen hpre).2⟩
  · rintro ⟨pre', post', hsplit', hlen', hmore⟩
    -- the split lies before the chunk that raises, for up to it the stream can be read
    have hok : run (RespParser.top lim) pre'.flatten ≠ .error e := by
      have hflat' : pre'.flatten ++ post'.flatten = w ++ bad := by
        rw [← hchunks, hsplit', List.flatten_append]
      have htake := congrArg (List.take pre'.flatten.length) hflat'
      rw [List.take_left, List.take_append, List.take_of_length_le hlen'] at htake
      rw [htake, run_append_of_ok hs hw, List.nil_append, run_of_more hmore]
      intro hno
      cases hno
    have hprefix : ∃ v, pre = pre' ++ v := by
      rcases List.append_eq_append_iff.mp (hsplit'.symm.trans hsplit) with
        ⟨v, hv, -⟩ | ⟨v, hv, hcons⟩
      · exact ⟨v, hv⟩
      · cases v with
        | nil => exact ⟨[], by rw [hv]; simp⟩
        | cons d v =>
          refine absurd ?_ hok
          cases hcons
          rw [hv, List.flatten_append, List.flatten_cons, ← List.append_assoc]
          exact run_append_of_error hs hraise _
    obtain ⟨v, rfl⟩ := hprefix
    have hlen : w.length ≤ (pre' ++ v).flatten.length := by
      rw [List.flatten_append, List.length_append]
      omega
    exact (messages_past_valid hw hbad hflat hlen hpre).1

/-- A PING and a byte that starts no frame, in two chunks. -/
theorem malformed_iff_apart :
    (delivered { limits := smallLimits } [encodeCommand [ascii "PING"], ascii "!"]).2 =
      some (.invalidPrefix 33) ∧
    (delivered { limits := smallLimits } [encodeCommand [ascii "PING"], ascii "!"]).1 =
      [.array [.bulk (ascii "PING")]] := by
  have herr : (delivered { limits := smallLimits } [encodeCommand [ascii "PING"], ascii "!"]).2 =
      some (.invalidPrefix 33) := by decide +kernel
  have hfits : Fits smallLimits [ascii "PING"] :=
    ⟨by decide, by decide, convertible_of_lt_ten (by decide),
      fun a ha => convertible_of_lt_ten (by cases List.mem_singleton.mp ha; decide), by decide⟩
  have hping : run (RespParser.top smallLimits) (encodeCommand [ascii "PING"]) =
      .ok ([.array [.bulk (ascii "PING")]], []) := by
    rw [run_of_done (top_lawful smallLimits) (by
      simpa using top_encodeCommand smallLimits [ascii "PING"] hfits []), List.drop_length,
      run_of_more (top_nil smallLimits)]
    rfl
  refine ⟨herr, (malformed_iff smallLimits hping
    (rfl : RespParser.top smallLimits (ascii "!") = .fail (.invalidPrefix 33)) _ rfl
    (by rw [herr]; decide)).mpr ⟨[encodeCommand [ascii "PING"]], [ascii "!"], rfl, by simp, ?_⟩⟩
  rw [List.flatten_singleton, Nat.sub_self, List.take_zero]
  exact top_nil smallLimits

/-- The same bytes in one chunk: the PING is lost. -/
theorem malformed_iff_together :
    ((delivered { limits := smallLimits } [encodeCommand [ascii "PING"] ++ ascii "!"]).1.length,
      (delivered { limits := smallLimits } [encodeCommand [ascii "PING"] ++ ascii "!"]).2) =
      (0, some (.invalidPrefix 33)) := by
  decide +kernel

end ByoRedis.Analysis
