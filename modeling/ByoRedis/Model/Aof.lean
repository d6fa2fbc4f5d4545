import ByoRedis.Model.Store
import ByoRedis.Model.Resp

/-!
# The append-only file: reading and rewriting

`AOFLog.read_commands` and `_build_rewrite_payload` of `byo_redis/persistence/aof.py`.
The file at a path is `Option Bytes`, `none` when it does not exist.
-/

set_option autoImplicit false

namespace ByoRedis.Model

/-- A command as it is executed, logged and propagated. -/
abbrev Command := List Bytes

/-- The reasons for `AofError`. -/
inductive AofError where
  | tooLarge (size limit : ℕ)
  | protocol (e : ProtocolError)
  deriving DecidableEq

/-- The command an AOF message stands for; `none` when the reader skips it. The two
conversions differ on `None`: it is `b""` among byte strings only, and a reason to skip
the record once a text or another value stands in it.
SOURCE: persistence/aof.py:280-298 -/
def RespValue.logged : RespValue → Option Command
  | .array items =>
    if items.isEmpty then none
    else
      let plain : RespValue → Option Bytes
        | .bulk b => some b
        | .null => some []
        | _ => none
      let mixed : RespValue → Option Bytes
        | .bulk b => some b
        | .str s => some (encodeUtf8 s)
        | _ => none
      match items.mapM plain with
      | some argv => some argv
      | none => items.mapM mixed
  | _ => none

/-- The parser `read_commands` builds: default limits but for the bulk length.
SOURCE: persistence/aof.py:264 -/
def aofLimits (maxBulkLen : ℕ) : Limits := { maxBulkLen := maxBulkLen }

/-- `AOFLog.read_commands`.
SOURCE: persistence/aof.py:250-299 -/
def readCommands (maxBulkLen maxFileBytes : ℕ) (file : Option Bytes) :
    Except AofError (List Command) :=
  match file with
  | none => .ok []
  | some data =>
    if data.isEmpty then .ok []
    else if maxFileBytes < data.length then .error (.tooLarge data.length maxFileBytes)
    else
      match RespParser.feed { limits := aofLimits maxBulkLen } data with
      | .error e => .error (.protocol e)
      | .ok (messages, _) => .ok (messages.filterMap RespValue.logged)

/-! ## Rewriting -/

/-- The quotient of two positive integers rounded to a 53-bit significand, ties to even;
`none` is `OverflowError`. This is Python's `/` on integers. -/
def trueDivide (num den : ℕ) : Option ℚ :=
  let q : ℚ := num / den
  let e0 : ℤ := (Nat.log2 num : ℤ) - Nat.log2 den - 52
  let e : ℤ := if q / 2 ^ e0 < 2 ^ 52 then e0 - 1 else e0
  let value : ℚ := roundHalfEven (q / 2 ^ e) * 2 ^ e
  if value < 2 ^ 1024 then some value else none

/-- `max(1, math.ceil(remaining_ms / 1000))` for a positive remaining time.
SOURCE: persistence/aof.py:343 -/
def rewriteSeconds (remainingMs : ℤ) : Option ℤ :=
  (trueDivide remainingMs.toNat 1000).map fun x => max 1 ⌈x⌉

/-- The command that rebuilds the value of a key; nothing for an empty collection.
SOURCE: persistence/aof.py:325-339 -/
def rebuildCommand (key : Bytes) (entry : KeyEntry) : List Command :=
  match entry.value with
  | .bytes b => [[ascii "SET", key, b]]
  | .deque items =>
    if items.isEmpty then [] else [ascii "LPUSH" :: key :: items.reverse]
  | .dict mapping =>
    if mapping.entries.isEmpty then []
    else [ascii "HSET" :: key :: mapping.entries.flatMap fun p => [p.1, p.2]]

/-- The command that restores the deadline of a key; nothing once it has passed.
SOURCE: persistence/aof.py:340-344 -/
def deadlineCommand (now : ℤ) (key : Bytes) (entry : KeyEntry) : Option (List Command) :=
  match entry.expireAtMs with
  | none => some []
  | some d =>
    if 0 < d - now then
      (rewriteSeconds (d - now)).map fun s => [[ascii "EXPIRE", key, intBytes s]]
    else some []

/-- The commands of a rewrite, key by key. -/
def rewriteCommands (now : ℤ) (entries : Entries) : Option (List Command) :=
  (entries.entries.mapM fun e =>
    (deadlineCommand now e.1 e.2).map fun d => rebuildCommand e.1 e.2 ++ d).map List.flatten

/-- `_build_rewrite_payload`; `none` is `OverflowError`.
SOURCE: persistence/aof.py:320-345 -/
def buildRewritePayload (now : ℤ) (entries : Entries) : Option Bytes :=
  (rewriteCommands now entries).map fun cs => cs.flatMap encodeCommand

end ByoRedis.Model
