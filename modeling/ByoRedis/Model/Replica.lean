import ByoRedis.Model.Master

/-!
# The replica client

`byo_redis/replication/replica.py`: the handshake with the master, the snapshot and the
command stream. The bytes of the connection are a list of chunks, what successive calls
of `reader.read(65536)` return; an empty chunk is the end of the stream, and an exhausted
list means that the client waits for more. `Session` is what `_session` has done so far.
-/

set_option autoImplicit false

namespace ByoRedis.Model

/-- Why a session ended. The texts, which are only logged, are left out. -/
inductive ReplicaError where
  | closed
  | protocol (e : ProtocolError)
  | extraMessages
  | unexpectedReply
  | expectedFullresync
  | expectedBulkHeader
  | badBulkLength (header : Bytes)
  | nullRdb
  | snapshotTooLarge (length : ℤ)
  | rdb (e : RdbError)
  | badArgument

/-- The parameters of `ReplicaClient` that a session reads. -/
structure ReplicaConfig where
  listeningPort : ℕ := 0
  maxBulkLen : ℕ := 16777216
  snapshotMaxBytes : ℕ := 1073741824
  masterauth : Option Str := none

/-- A session: the parser, the chunks still to be read, the commands sent, the entries
loaded into the store and the commands applied. -/
structure Session where
  parser : RespParser
  chunks : List Bytes
  sent : List Command := []
  loaded : Option Entries := none
  applied : List Command := []

/-- How far a part of the session got. -/
inductive Progress (α : Type) where
  | waiting (s : Session)
  | failed (e : ReplicaError) (s : Session)
  | ok (a : α) (s : Session)

/-- Sequencing two parts of the session. -/
def Progress.andThen {α β : Type} : Progress α → (α → Session → Progress β) → Progress β
  | .waiting s, _ => .waiting s
  | .failed e s, _ => .failed e s
  | .ok a s, f => f a s

namespace Session

/-- `send_cmd`. -/
def send (s : Session) (cmd : Command) : Session := { s with sent := s.sent ++ [cmd] }

/-- `read_one`: chunks are fed to the parser until a message is complete.
SOURCE: replication/replica.py:108-117 -/
def readOneLoop (s : Session) : RespParser → List Bytes → Progress RespValue
  | p, [] => .waiting { s with parser := p, chunks := [] }
  | p, data :: rest =>
    if data.isEmpty then .failed .closed { s with parser := p, chunks := rest }
    else
      match p.feed data with
      | .error e => .failed (.protocol e) { s with parser := p, chunks := rest }
      | .ok ([], p) => readOneLoop s p rest
      | .ok ([msg], p) => .ok msg { s with parser := p, chunks := rest }
      | .ok (_, p) => .failed .extraMessages { s with parser := p, chunks := rest }

/-- `_read_one`. -/
def readOne (s : Session) : Progress RespValue := readOneLoop s s.parser s.chunks

/-- A reply equal to the text, as `str` or as `bytes`. -/
def isReply (text : String) : RespValue → Bool
  | .str t => t = text.toList
  | .bulk b => b = ascii text
  | _ => false

/-- Sending a command and checking its reply.
SOURCE: replication/replica.py:119-141 -/
def exchange (cmd : Command) (text : String) (s : Session) : Progress Unit :=
  (s.send cmd).readOne.andThen fun reply s =>
    if isReply text reply then .ok () s else .failed .unexpectedReply s

/-- `ensure`: chunks are appended to `buf` until it holds `n` bytes.
SOURCE: replication/replica.py:163-168 -/
def ensureLoop (s : Session) (n : ℕ) : Bytes → List Bytes → Progress Bytes
  | buf, [] => if buf.length < n then .waiting { s with chunks := [] }
    else .ok buf { s with chunks := [] }
  | buf, chunk :: rest =>
    if buf.length < n then
      if chunk.isEmpty then .failed .closed { s with chunks := rest }
      else ensureLoop s n (buf ++ chunk) rest
    else .ok buf { s with chunks := chunk :: rest }

/-- `ensure` of `_read_rdb_bulk`. -/
def ensure (n : ℕ) (buf : Bytes) (s : Session) : Progress Bytes := ensureLoop s n buf s.chunks

/-- The search for the end of the bulk header: one more chunk at a time until CRLF.
SOURCE: replication/replica.py:173-177 -/
def headerLoop (s : Session) : Bytes → List Bytes → Progress (Bytes × Bytes)
  | buf, chunks =>
    match readLine buf with
    | some (line, _) => .ok (line, buf) { s with chunks := chunks }
    | none =>
      match chunks with
      | [] => .waiting { s with chunks := [] }
      | chunk :: rest =>
        if chunk.isEmpty then .failed .closed { s with chunks := rest }
        else headerLoop s (buf ++ chunk) rest

/-- The snapshot once its length is known: the body is awaited, and what follows it goes
to the parser. The messages of that `feed` are not kept.
SOURCE: replication/replica.py:189-195 -/
def readRdbBody (start length : ℕ) (buf : Bytes) (s : Session) : Progress Bytes :=
  (ensure (start + length) buf s).andThen fun buf s =>
    let rdb := (buf.drop start).take length
    let leftover := buf.drop (start + length)
    if leftover.isEmpty then .ok rdb s
    else
      match s.parser.feed leftover with
      | .error e => .failed (.protocol e) s
      | .ok (_, p) => .ok rdb { s with parser := p }

/-- `_read_rdb_bulk`.
SOURCE: replication/replica.py:156-195 -/
def readRdbBulk (cfg : ReplicaConfig) (s : Session) : Progress Bytes :=
  let buf := s.parser.buf
  let s := { s with parser := s.parser.reset }
  (ensure 1 buf s).andThen fun buf s =>
    if buf.head? ≠ some 36 then .failed .expectedBulkHeader s
    else
      (headerLoop s buf s.chunks).andThen fun (line, buf) s =>
        let header := line.drop 1
        match pyInt header with
        | none => .failed (.badBulkLength header) s
        | some length =>
          if length < 0 then .failed .nullRdb s
          else if (cfg.snapshotMaxBytes : ℤ) < length then .failed (.snapshotTooLarge length) s
          else readRdbBody (line.length + 2) length.toNat buf s

/-- `full.startswith("FULLRESYNC ")` on a `str` message. -/
def isFullresync : RespValue → Bool
  | .str t => "FULLRESYNC ".toList.isPrefixOf t
  | _ => false

/-- The part of `_handshake` from `PSYNC` on. `now` is the clock `load_rdb_bytes` reads.
SOURCE: replication/replica.py:143-154 -/
def psync (cfg : ReplicaConfig) (now : ℤ) (s : Session) : Progress Unit :=
  (s.send [ascii "PSYNC", ascii "?", ascii "-1"]).readOne.andThen fun full s =>
    if isFullresync full then
      (readRdbBulk cfg s).andThen fun rdb s =>
        match loadRdbBytes cfg.snapshotMaxBytes now rdb with
        | .error e => .failed (.rdb e) s
        | .ok entries => .ok () { s with loaded := some entries }
    else .failed .expectedFullresync s

/-- `_handshake`.
SOURCE: replication/replica.py:98-154 -/
def handshake (cfg : ReplicaConfig) (now : ℤ) (s : Session) : Progress Unit :=
  (match cfg.masterauth with
    | none => Progress.ok () s
    | some pw => exchange [ascii "AUTH", encodeUtf8 pw] "OK" s).andThen fun _ s =>
  (exchange [ascii "PING"] "PONG" s).andThen fun _ s =>
  (exchange [ascii "REPLCONF", ascii "listening-port", natBytes cfg.listeningPort] "OK"
    s).andThen fun _ s =>
  (exchange [ascii "REPLCONF", ascii "capa", ascii "eof"] "OK" s).andThen fun _ s =>
  psync cfg now s

/-- The command a replication message stands for: `none` is a bad element.
SOURCE: replication/replica.py:217-226 -/
def argvOf (items : List RespValue) : Option Command := items.mapM RespValue.argument

/-- `_apply_messages`.
SOURCE: replication/replica.py:212-227 -/
def applyMessages : List RespValue → Session → Progress Unit
  | [], s => .ok () s
  | .array items :: rest, s =>
    if items.isEmpty then applyMessages rest s
    else
      match argvOf items with
      | none => .failed .badArgument s
      | some argv => applyMessages rest { s with applied := s.applied ++ [argv] }
  | _ :: rest, s => applyMessages rest s

/-- Feeding the parser and applying what it returns. -/
def feedAndApply (data : Bytes) (s : Session) : Progress Unit :=
  match s.parser.feed data with
  | .error e => .failed (.protocol e) s
  | .ok (messages, p) => applyMessages messages { s with parser := p }

/-- The loop of `_read_loop`.
SOURCE: replication/replica.py:201-210 -/
def readLoop (s : Session) : List Bytes → Progress Unit
  | [] => .waiting { s with chunks := [] }
  | data :: rest =>
    if data.isEmpty then .failed .closed { s with chunks := rest }
    else
      match feedAndApply data { s with chunks := rest } with
      | .waiting s => .waiting s
      | .failed e s => .failed e s
      | .ok _ s => readLoop s rest

/-- `_session`: the handshake, then `_read_loop`, on the chunks of a connection.
SOURCE: replication/replica.py:83-96, 197-210 -/
def run (cfg : ReplicaConfig) (now : ℤ) (chunks : List Bytes) : Progress Unit :=
  (handshake cfg now
    { parser := { limits := { maxBulkLen := cfg.maxBulkLen } }, chunks := chunks }).andThen
    fun _ s => (feedAndApply [] s).andThen fun _ s => readLoop s s.chunks

end Session

end ByoRedis.Model
