import ByoRedis.Analysis.ParserLimits

/-!
# Values through the encoder and back

`encode_value` and the parser agree on null, integers, byte strings and lists of these, to
any depth. `tryParse_encodeValue` says that the encoding of a value is one frame that is
read back as the value, whatever follows it; `decode_encode` states it for streams of
values, with the two consequences that an encoding never starts another one and that a
command is encoded as the list of its arguments.
-/

set_option autoImplicit false

namespace ByoRedis.Analysis

open ByoRedis.Model ByoRedis.Lib.Framing

/-- The values that both sides of the protocol have. -/
inductive Value where
  | null
  | int (i : ℤ)
  | bytes (b : Bytes)
  | list (items : List Value)

/-- `sys.maxsize`: no Python object has a greater length. -/
def maxSize : ℕ := 2 ^ 63 - 1

namespace Value

mutual

/-- The value as `encode_value` is given it. -/
def py : Value → PyValue
  | .null => .none
  | .int i => .int i
  | .bytes b => .bytes b
  | .list items => .list (pys items)

/-- The values of a list, for the encoder. -/
def pys : List Value → List PyValue
  | [] => []
  | v :: vs => py v :: pys vs

end

mutual

/-- The value as the parser returns it. -/
def resp : Value → RespValue
  | .null => .null
  | .int i => .int i
  | .bytes b => .bulk b
  | .list items => .array (resps items)

/-- The values of a list, as the parser returns them. -/
def resps : List Value → List RespValue
  | [] => []
  | v :: vs => resp v :: resps vs

end

mutual

/-- How deep lists are nested. -/
def depth : Value → ℕ
  | .null => 0
  | .int _ => 0
  | .bytes _ => 0
  | .list items => depths items + 1

/-- The greatest depth in a list. -/
def depths : List Value → ℕ
  | [] => 0
  | v :: vs => max (depth v) (depths vs)

end

mutual

/-- The limits on the parts of a value: digits, bytes and elements. -/
def Bounded (lim : Limits) : Value → Prop
  | .null => True
  | .int i => (natText i.natAbs).length ≤ maxStrDigits
  | .bytes b => b.length ≤ lim.maxBulkLen
  | .list items => items.length ≤ lim.maxArrayLen ∧ AllBounded lim items

/-- Every value of a list is within the limits. -/
def AllBounded (lim : Limits) : List Value → Prop
  | [] => True
  | v :: vs => Bounded lim v ∧ AllBounded lim vs

end

mutual

/-- Different values are different messages. -/
theorem resp_injective : ∀ {v w : Value}, v.resp = w.resp → v = w
  | .null, w, h => by
    cases w <;> simp only [resp, reduceCtorEq] at h
    rfl
  | .int i, w, h => by
    cases w <;> simp only [resp, reduceCtorEq, RespValue.int.injEq] at h
    rw [h]
  | .bytes b, w, h => by
    cases w <;> simp only [resp, reduceCtorEq, RespValue.bulk.injEq] at h
    rw [h]
  | .list items, w, h => by
    cases w <;> simp only [resp, reduceCtorEq, RespValue.array.injEq] at h
    rw [resps_injective h]

/-- Different lists of values are different lists of messages. -/
theorem resps_injective : ∀ {vs ws : List Value}, resps vs = resps ws → vs = ws
  | [], ws, h => by
    cases ws <;> simp only [resps, reduceCtorEq] at h
    rfl
  | v :: vs, ws, h => by
    cases ws <;> simp only [resps, reduceCtorEq, List.cons.injEq] at h
    rw [resp_injective h.1, resps_injective h.2]

end

end Value

/-! ## One value -/

variable {lim : Limits}

/-- A size has few enough digits for `int`. -/
theorem convertible_of_le_maxSize {n : ℕ} (h : n ≤ maxSize) : Convertible n :=
  convertible_of_lt (h.trans_lt (lt_of_lt_of_le (by decide : maxSize < 10 ^ 19)
    (Nat.pow_le_pow_right (by decide) (by decide))))

/-- The null reply is read back. -/
theorem tryParse_encodeNullBulk (lim : Limits) (levels : ℕ) (ext : Bytes) :
    tryParse lim levels (encodeNullBulk ++ ext) = .done .null encodeNullBulk.length := by
  have hbulk : tryParse lim levels (encodeNullBulk ++ ext) =
      parseBulk lim (ascii "-1" ++ (crlf ++ ext)) := by
    cases levels <;> rfl
  have hint : pyInt (ascii "-1") = some (-1) := by decide
  rw [hbulk, parseBulk, readLine_text _ _ (by decide)]
  simp only
  rw [parseBulkBody, hint]
  rfl

/-- SOURCE: protocol/encoder.py:21-22, protocol/parser.py:69-76 -/
theorem tryParse_encodeInteger (lim : Limits) (levels : ℕ) {i : ℤ} (h : Convertible i.natAbs)
    (ext : Bytes) :
    tryParse lim levels (encodeInteger i ++ ext) = .done (.int i) (encodeInteger i).length := by
  have hshape : encodeInteger i ++ ext = 58 :: (intBytes i ++ (crlf ++ ext)) := by
    simp [encodeInteger, ascii]
  have hlen : (encodeInteger i).length = 1 + ((intBytes i).length + 2) := by
    simp [encodeInteger, ascii, crlf]
    omega
  have hint : tryParse lim levels (58 :: (intBytes i ++ (crlf ++ ext))) =
      parseInteger (intBytes i ++ (crlf ++ ext)) := by
    cases levels <;> rfl
  rw [hshape, hlen, hint, parseInteger, readLine_text _ _ (cr_notMem_intBytes i)]
  simp only
  rw [pyInt_intBytes h]

/-- One value for each. -/
theorem Value.length_pys : ∀ vs : List Value, (Value.pys vs).length = vs.length
  | [] => rfl
  | v :: vs => by rw [Value.pys, List.length_cons, List.length_cons, Value.length_pys vs]

/-- Every value takes at least one byte. -/
theorem encodeValue_ne_nil : ∀ v : Value, encodeValue v.py ≠ []
  | .null => by simp [Value.py, encodeValue, encodeNullBulk, ascii]
  | .int i => by simp [Value.py, encodeValue, encodeInteger, ascii]
  | .bytes b => by simp [Value.py, encodeValue, encodeBulkString, ascii]
  | .list items => by simp [Value.py, encodeValue, arrayHeader, ascii]

/-- So a list takes at least one byte for each element. -/
theorem length_le_encodeValues :
    ∀ vs : List Value, vs.length ≤ (encodeValues (Value.pys vs)).length
  | [] => le_rfl
  | v :: vs => by
    have hpos := List.length_pos_iff.mpr (encodeValue_ne_nil v)
    have hle := length_le_encodeValues vs
    rw [Value.pys, encodeValues, List.length_append, List.length_cons]
    omega

mutual

/-- **A value is read back from its encoding**, whatever follows it.
SOURCE: protocol/encoder.py:47-79, protocol/parser.py:58-144 -/
theorem tryParse_encodeValue (levels : ℕ) : ∀ v : Value, v.Bounded lim → v.depth ≤ levels →
    (encodeValue v.py).length ≤ maxSize → ∀ ext,
    tryParse lim levels (encodeValue v.py ++ ext) = .done v.resp (encodeValue v.py).length
  | .null, _, _, _, ext => tryParse_encodeNullBulk lim levels ext
  | .int i, hb, _, _, ext => by
    have hconv : Convertible i.natAbs := by
      rw [Convertible, natBytes, List.length_map]
      exact hb
    exact tryParse_encodeInteger lim levels hconv ext
  | .bytes b, hb, _, hsize, ext => by
    have hlen : b.length ≤ (encodeBulkString b).length := by
      simp only [encodeBulkString, List.length_append]
      omega
    exact tryParse_encodeBulkString lim levels b ext hb
      (convertible_of_le_maxSize (hlen.trans hsize))
  | .list items, hb, hd, hsize, ext => by
    obtain ⟨hcount, hitems⟩ := hb
    obtain ⟨l, rfl⟩ : ∃ l, levels = l + 1 := ⟨levels - 1, by
      rw [Value.depth] at hd
      omega⟩
    have hd' : Value.depths items ≤ l := by
      rw [Value.depth] at hd
      omega
    rw [Value.py, encodeValue, Value.length_pys, List.length_append] at hsize
    have hle := length_le_encodeValues items
    have hconv : Convertible items.length := convertible_of_le_maxSize (by omega)
    rw [Value.py, encodeValue, Value.length_pys, List.append_assoc,
      tryParse_arrayHeader lim l _ hconv, if_neg (Nat.not_lt.mpr hcount),
      parseItems_encodeValues l items hitems hd' (by omega) ext]
    simp only [List.length_append]
    rfl

/-- The elements of a list are read back one after the other, whatever follows them. -/
theorem parseItems_encodeValues (levels : ℕ) : ∀ vs : List Value, Value.AllBounded lim vs →
    Value.depths vs ≤ levels → (encodeValues (Value.pys vs)).length ≤ maxSize → ∀ ext,
    parseItems (tryParse lim levels) vs.length (encodeValues (Value.pys vs) ++ ext) =
      .done (Value.resps vs) (encodeValues (Value.pys vs)).length
  | [], _, _, _, _ => rfl
  | v :: vs, hb, hd, hsize, ext => by
    obtain ⟨hv, hvs⟩ := hb
    rw [Value.depths] at hd
    rw [Value.pys, encodeValues, List.length_append] at hsize
    have hone := tryParse_encodeValue levels v hv ((le_max_left _ _).trans hd) (by omega)
      (encodeValues (Value.pys vs) ++ ext)
    have hrest := parseItems_encodeValues levels vs hvs ((le_max_right _ _).trans hd) (by omega) ext
    rw [Value.pys, encodeValues, List.length_cons, List.append_assoc, parseItems, hone]
    simp only
    rw [List.drop_left, hrest, List.length_append]
    rfl

end

/-! ## Streams of values -/

/-- A value whose encoding a parser with limits `lim` reads. -/
structure Value.Fits (lim : Limits) (v : Value) : Prop where
  bounded : v.Bounded lim
  nesting : v.depth ≤ lim.maxArrayDepth
  size : (encodeValue v.py).length ≤ maxSize

/-- The encodings of values within the limits frame them. -/
theorem frames_values (lim : Limits) :
    Frames (RespParser.top lim) (fun v : Value => encodeValue v.py) Value.resp (Value.Fits lim) :=
  fun v h ext => tryParse_encodeValue lim.maxArrayDepth v h.bounded h.nesting h.size ext

/-- A value whose encoding starts the encoding of another is the other. -/
theorem eq_of_encodeValue_isPrefix {v w : Value} (hv : v.Fits lim) (hw : w.Fits lim)
    (h : encodeValue v.py <+: encodeValue w.py) : v = w := by
  obtain ⟨t, ht⟩ := h
  have h1 := frames_values lim v hv t
  have h2 := frames_values lim w hw []
  simp only at h1 h2
  rw [List.append_nil] at h2
  rw [ht, h2] at h1
  exact (Value.resp_injective (Outcome.done.inj h1).1).symm

/-- A list of byte strings is encoded as the arguments of a command are. -/
theorem encodeValues_bytes (argv : Command) :
    encodeValues (argv.map .bytes) = argv.flatMap encodeBulkString := by
  induction argv with
  | nil => rfl
  | cons a argv ih =>
    rw [List.map_cons, encodeValues, ih, List.flatMap_cons]
    rfl

/-- A list of byte strings is encoded as a command. -/
theorem encodeValue_bytes (argv : Command) :
    encodeValue (.list (argv.map .bytes)) = encodeCommand argv := by
  rw [encodeValue, List.length_map, encodeValues_bytes]
  rfl

/-- **Decoding undoes encoding.** A fresh parser that is fed the encodings of values within
its limits returns the values and keeps nothing back. No encoding of a value is a proper
prefix of another, and `encode_value` and `encode_command` agree on byte strings.
SOURCE: protocol/encoder.py:21-87, protocol/parser.py:33-144 -/
theorem decode_encode (lim : Limits) (vs : List Value)
    (hvs : ∀ v ∈ vs, v.Bounded lim ∧ v.depth ≤ lim.maxArrayDepth)
    (hbuffer : (vs.flatMap fun v => encodeValue v.py).length ≤ lim.maxBufferBytes)
    (hobject : (vs.flatMap fun v => encodeValue v.py).length ≤ maxSize) :
    RespParser.feed { limits := lim } (vs.flatMap fun v => encodeValue v.py) =
        .ok (vs.map Value.resp, { limits := lim }) ∧
      (∀ v ∈ vs, ∀ w ∈ vs, encodeValue v.py <+: encodeValue w.py → v = w) ∧
      ∀ argv : Command, encodeValue (.list (argv.map .bytes)) = encodeCommand argv := by
  have hfits : ∀ v ∈ vs, v.Fits lim := by
    intro v hv
    have hle : (encodeValue v.py).length ≤ (vs.flatMap fun v => encodeValue v.py).length := by
      rw [List.length_flatMap]
      exact List.single_le_sum (by simp) _ (List.mem_map_of_mem hv)
    exact ⟨(hvs v hv).1, (hvs v hv).2, hle.trans hobject⟩
  refine ⟨?_, ?_, encodeValue_bytes⟩
  · have hrun := run_flatMap_append (top_lawful lim) (frames_values lim) vs hfits []
    rw [List.append_nil, run_of_more (top_nil lim)] at hrun
    rw [feed_of_le (by simpa using hbuffer)]
    simp only [List.nil_append]
    rw [hrun]
    simp only [pushMany, List.append_nil]
  · intro v hv w hw h
    exact eq_of_encodeValue_isPrefix (hfits v hv) (hfits w hw) h

/-- Two values at the limits of a small parser: a list of two levels with a null, a negative
integer and bytes that look like a frame. -/
def sampleValues : List Value :=
  [.list [.null, .int (-40), .list [.bytes (ascii "$1\r\n")]], .bytes []]

/-- A null, a negative number and a nested list of a string with a line end in it. -/
theorem decode_encode_sample :
    RespParser.feed
        { limits :=
          { maxBulkLen := 4, maxBufferBytes := 64, maxArrayLen := 3, maxArrayDepth := 2 } }
        (sampleValues.flatMap fun v => encodeValue v.py) =
      .ok (sampleValues.map Value.resp,
        { limits :=
          { maxBulkLen := 4, maxBufferBytes := 64, maxArrayLen := 3, maxArrayDepth := 2 } }) := by
  refine (decode_encode _ sampleValues ?_ (by decide) (by decide)).1
  intro v hv
  simp only [sampleValues, List.mem_cons, List.not_mem_nil, or_false] at hv
  rcases hv with rfl | rfl
  · exact ⟨⟨by decide, trivial, (by decide : (2 : ℕ) ≤ 4300), ⟨by decide, (by decide : (4 : ℕ) ≤ 4),
      trivial⟩, trivial⟩, by decide⟩
  · exact ⟨Nat.zero_le _, Nat.zero_le _⟩

end ByoRedis.Analysis
