import ByoRedis.Lib.Framing
import ByoRedis.Model.Text

/-!
# RESP2: encoders and the incremental parser

`byo_redis/protocol/encoder.py` and `byo_redis/protocol/parser.py`. The parser keeps a
buffer; `feed` appends the bytes that arrived and takes complete values off its front.
`tryParse` is `RespParser._try_parse` on the bytes from `start` on: an incomplete value,
which the source reports as a consumed count of 0, is `Outcome.more`, and the count in
`Outcome.done` is relative to `start`. The `levels` argument is
`max_array_depth - depth`, the nesting that is still allowed.
-/

set_option autoImplicit false

namespace ByoRedis.Model

open ByoRedis.Lib.Framing

/-! ## Encoders -/

/-- `encode_simple_string`; `none` is `ValueError`.
SOURCE: protocol/encoder.py:6-11 -/
def encodeSimpleString (value : Bytes) : Option Bytes :=
  if cr ∈ value ∨ lf ∈ value then none else some (ascii "+" ++ value ++ crlf)

/-- The two replacements of `encode_error`. -/
def sanitizeByte (b : UInt8) : UInt8 := if b = cr ∨ b = lf then 32 else b

/-- `encode_error`.
SOURCE: protocol/encoder.py:14-18 -/
def encodeError (message : Str) : Bytes :=
  ascii "-" ++ (encodeUtf8 message).map sanitizeByte ++ crlf

/-- `encode_integer`.
SOURCE: protocol/encoder.py:21-22 -/
def encodeInteger (value : ℤ) : Bytes := ascii ":" ++ intBytes value ++ crlf

/-- `encode_null_bulk`.
SOURCE: protocol/encoder.py:33-34 -/
def encodeNullBulk : Bytes := ascii "$-1" ++ crlf

/-- `encode_bulk_string` on `bytes`.
SOURCE: protocol/encoder.py:25-30 -/
def encodeBulkString (value : Bytes) : Bytes :=
  ascii "$" ++ natBytes value.length ++ crlf ++ value ++ crlf

/-- The header line of an array. -/
def arrayHeader (count : ℕ) : Bytes := ascii "*" ++ natBytes count ++ crlf

/-- `encode_command`.
SOURCE: protocol/encoder.py:82-87 -/
def encodeCommand (argv : List Bytes) : Bytes :=
  arrayHeader argv.length ++ argv.flatMap encodeBulkString

/-- A text that `encode_simple_string` accepts: the texts of `_Simple` replies. -/
structure SimpleText where
  text : Bytes
  noCr : cr ∉ text
  noLf : lf ∉ text

/-- The values handlers return, as far as `encode_value` tells them apart. -/
inductive PyValue where
  | none
  | bool (b : Bool)
  | int (i : ℤ)
  | bytes (b : Bytes)
  | str (s : Str)
  | list (items : List PyValue)
  | simple (s : SimpleText)

mutual

/-- `encode_value`.
SOURCE: protocol/encoder.py:47-79 -/
def encodeValue : PyValue → Bytes
  | .none => encodeNullBulk
  | .bool b => encodeInteger (if b then 1 else 0)
  | .int i => encodeInteger i
  | .bytes b => encodeBulkString b
  | .str s => encodeBulkString (encodeUtf8 s)
  | .list items => arrayHeader items.length ++ encodeValues items
  | .simple s => (encodeSimpleString s.text).getD []

/-- The loop of `encode_array`.
SOURCE: protocol/encoder.py:37-43 -/
def encodeValues : List PyValue → Bytes
  | [] => []
  | v :: vs => encodeValue v ++ encodeValues vs

end

/-! ## Parsed values and protocol errors -/

/-- What `feed` returns: `err` is `ProtocolErrorMsg`, and both null forms are `None`. -/
inductive RespValue where
  | null
  | int (i : ℤ)
  | bulk (b : Bytes)
  | str (s : Str)
  | err (message : Str)
  | array (items : List RespValue)

/-- The reasons for `ProtocolError` in the parser, in `handle_client` and in
`_normalize_argv`. -/
inductive ProtocolError where
  | bufferExceeded (maxBufferBytes : ℕ)
  | invalidPrefix (p : UInt8)
  | invalidInteger (line : Bytes)
  | invalidBulkLength (line : Bytes)
  | negativeBulkLength (length : ℤ)
  | bulkTooLong (length : ℤ)
  | missingTrailer
  | nestingExceeded (maxArrayDepth : ℕ)
  | invalidArrayLength (line : Bytes)
  | negativeArrayLength (count : ℤ)
  | arrayTooLong (count : ℤ)
  | frameTimedOut (seconds : ℤ)
  | expectedArray
  | badArgument (typeName : Str)
  deriving DecidableEq

/-- The text of a protocol error. -/
def ProtocolError.message : ProtocolError → Str
  | .bufferExceeded n =>
    "input buffer exceeds max_buffer_bytes (".toList ++ natText n ++ ")".toList
  | .invalidPrefix p => "invalid RESP type prefix: ".toList ++ reprChr p
  | .invalidInteger line => "invalid integer: ".toList ++ reprBytes line
  | .invalidBulkLength line => "invalid bulk length: ".toList ++ reprBytes line
  | .negativeBulkLength n => "invalid bulk length: ".toList ++ intText n
  | .bulkTooLong n => "bulk length ".toList ++ intText n ++ " exceeds limit".toList
  | .missingTrailer => "bulk string missing CRLF trailer".toList
  | .nestingExceeded n => "array nesting exceeds limit (".toList ++ natText n ++ ")".toList
  | .invalidArrayLength line => "invalid array length: ".toList ++ reprBytes line
  | .negativeArrayLength n => "invalid array length: ".toList ++ intText n
  | .arrayTooLong n => "array length ".toList ++ intText n ++ " exceeds limit".toList
  | .frameTimedOut n => "incomplete RESP frame timed out after ".toList ++ intText n ++ "s".toList
  | .expectedArray => "expected array command".toList
  | .badArgument t => "command arg must be bulk string, got ".toList ++ t

/-! ## The parser -/

/-- The limits a parser is built with, and their defaults.
SOURCE: protocol/parser.py:20-31 -/
structure Limits where
  maxBulkLen : ℕ := 16777216
  maxBufferBytes : ℕ := 32000000
  maxArrayLen : ℕ := 1024
  maxArrayDepth : ℕ := 64
  deriving DecidableEq

/-- `_read_line`: the bytes up to the first CRLF and the number of bytes through it.
SOURCE: protocol/parser.py:139-144 -/
def readLine : Bytes → Option (Bytes × ℕ)
  | [] => none
  | [_] => none
  | a :: b :: rest =>
    if a = cr ∧ b = lf then some ([], 2)
    else (readLine (b :: rest)).map fun r => (a :: r.1, r.2 + 1)

/-- The answer of a parser. -/
abbrev Parse (α : Type) := Outcome ProtocolError α

/-- A value that is one line of text: `_parse_line_value` and the `-` branch.
SOURCE: protocol/parser.py:64-68, 83-88 -/
def parseLine (value : Str → RespValue) (rest : Bytes) : Parse RespValue :=
  match readLine rest with
  | none => .more
  | some (line, n) => .done (value (decodeReplace line)) (1 + n)

/-- The `:` branch of `_try_parse`.
SOURCE: protocol/parser.py:69-76 -/
def parseInteger (rest : Bytes) : Parse RespValue :=
  match readLine rest with
  | none => .more
  | some (line, n) =>
    match pyInt line with
    | none => .fail (.invalidInteger line)
    | some i => .done (.int i) (1 + n)

/-- `_parse_bulk` once its header line, of `n` bytes with its CRLF, has been read.
SOURCE: protocol/parser.py:94-111 -/
def parseBulkBody (lim : Limits) (line : Bytes) (n : ℕ) (body : Bytes) : Parse RespValue :=
  match pyInt line with
  | none => .fail (.invalidBulkLength line)
  | some length =>
    if length = -1 then .done .null (1 + n)
    else if length < -1 then .fail (.negativeBulkLength length)
    else if (lim.maxBulkLen : ℤ) < length then .fail (.bulkTooLong length)
    else if body.length < length.toNat + 2 then .more
    else if (body.drop length.toNat).take 2 ≠ crlf then .fail .missingTrailer
    else .done (.bulk (body.take length.toNat)) (1 + n + length.toNat + 2)

/-- `_parse_bulk`, on the bytes after the `$`.
SOURCE: protocol/parser.py:90-111 -/
def parseBulk (lim : Limits) (rest : Bytes) : Parse RespValue :=
  match readLine rest with
  | none => .more
  | some (line, n) => parseBulkBody lim line n (rest.drop n)

/-- The item loop of `_parse_array`: `count` values one after the other.
SOURCE: protocol/parser.py:129-137 -/
def parseItems (item : Bytes → Parse RespValue) : ℕ → Bytes → Parse (List RespValue)
  | 0, _ => .done [] 0
  | count + 1, buf =>
    match item buf with
    | .more => .more
    | .fail e => .fail e
    | .done v n =>
      match parseItems item count (buf.drop n) with
      | .more => .more
      | .fail e => .fail e
      | .done vs m => .done (v :: vs) (n + m)

/-- `_parse_array` once its header line, of `n` bytes with its CRLF, has been read.
SOURCE: protocol/parser.py:119-137 -/
def parseArrayBody (lim : Limits) (item : Bytes → Parse RespValue) (line : Bytes) (n : ℕ)
    (body : Bytes) : Parse RespValue :=
  match pyInt line with
  | none => .fail (.invalidArrayLength line)
  | some count =>
    if count = -1 then .done .null (1 + n)
    else if count < -1 then .fail (.negativeArrayLength count)
    else if (lim.maxArrayLen : ℤ) < count then .fail (.arrayTooLong count)
    else
      match parseItems item count.toNat body with
      | .more => .more
      | .fail e => .fail e
      | .done vs m => .done (.array vs) (1 + n + m)

/-- `_parse_array` past its depth check, on the bytes after the `*`.
SOURCE: protocol/parser.py:116-137 -/
def parseArray (lim : Limits) (item : Bytes → Parse RespValue) (rest : Bytes) :
    Parse RespValue :=
  match readLine rest with
  | none => .more
  | some (line, n) => parseArrayBody lim item line n (rest.drop n)

/-- The dispatch of `_try_parse` on the type prefix; `array` reads what follows a `*`.
SOURCE: protocol/parser.py:58-81 -/
def parseValue (lim : Limits) (array : Bytes → Parse RespValue) : Bytes → Parse RespValue
  | [] => .more
  | p :: rest =>
    if p = 43 then parseLine .str rest
    else if p = 45 then parseLine .err rest
    else if p = 58 then parseInteger rest
    else if p = 36 then parseBulk lim rest
    else if p = 42 then array rest
    else .fail (.invalidPrefix p)

/-- `_try_parse`.
SOURCE: protocol/parser.py:58-81, 113-115 -/
def tryParse (lim : Limits) : ℕ → Bytes → Parse RespValue
  | 0 => parseValue lim fun _ => .fail (.nestingExceeded lim.maxArrayDepth)
  | levels + 1 => parseValue lim (parseArray lim (tryParse lim levels))

/-- `RespParser`: its limits and its buffer. -/
structure RespParser where
  limits : Limits
  buf : Bytes := []
  deriving DecidableEq

namespace RespParser

/-- `_try_parse(0, depth=0)` on the buffer. -/
def top (lim : Limits) : Bytes → Parse RespValue := tryParse lim lim.maxArrayDepth

/-- `feed`. The size check is written once: for empty `data` it is the `elif` branch.
SOURCE: protocol/parser.py:33-49 -/
def feed (p : RespParser) (data : Bytes) :
    Except ProtocolError (List RespValue × RespParser) :=
  if p.limits.maxBufferBytes < p.buf.length + data.length then
    .error (.bufferExceeded p.limits.maxBufferBytes)
  else
    match run (top p.limits) (p.buf ++ data) with
    | .error e => .error e
    | .ok (messages, rest) => .ok (messages, { p with buf := rest })

/-- `reset`. -/
def reset (p : RespParser) : RespParser := { p with buf := [] }

/-- `buffered_size`. -/
def bufferedSize (p : RespParser) : ℕ := p.buf.length

end RespParser

/-- The name `type(item)` prints for a value that is no argument. -/
def RespValue.typeName : RespValue → Str
  | .null => "<class 'NoneType'>".toList
  | .int _ => "<class 'int'>".toList
  | .bulk _ => "<class 'bytes'>".toList
  | .str _ => "<class 'str'>".toList
  | .err _ => "<class 'byo_redis.protocol.parser.ProtocolErrorMsg'>".toList
  | .array _ => "<class 'list'>".toList

/-- The argument an array element stands for, in `_normalize_argv` and in the replica:
bytes, text as UTF-8, and `None` as the empty string.
SOURCE: server.py:398-406, replication/replica.py:219-226 -/
def RespValue.argument : RespValue → Option Bytes
  | .bulk b => some b
  | .str s => some (encodeUtf8 s)
  | .null => some []
  | _ => none

end ByoRedis.Model
