import ByoRedis.Model.Config
import ByoRedis.Model.Aof

/-!
# Command handlers

`byo_redis/commands/`: the registry, the classification of write commands and the
handlers that need only their arguments, the configuration, the clock and the store.
The handlers that reach into the server (INFO, AUTH, the persistence commands, PSYNC)
are in `ByoRedis.Model.Server`.
-/

set_option autoImplicit false

namespace ByoRedis.Model

/-! ## Names
SOURCE: commands/registry.py:67-98 -/

/-- The registered commands. -/
inductive CommandName where
  | ping | echo | select | command | auth
  | set | get | expire | ttl
  | lpush | rpop
  | hset | hgetall
  | info | save | bgsave | bgrewriteaof | config | del | dbsize
  | replconf | psync
  deriving DecidableEq

namespace CommandName

/-- The key a command is registered under. -/
def text : CommandName → Bytes
  | ping => ascii "PING"
  | echo => ascii "ECHO"
  | select => ascii "SELECT"
  | command => ascii "COMMAND"
  | auth => ascii "AUTH"
  | set => ascii "SET"
  | get => ascii "GET"
  | expire => ascii "EXPIRE"
  | ttl => ascii "TTL"
  | lpush => ascii "LPUSH"
  | rpop => ascii "RPOP"
  | hset => ascii "HSET"
  | hgetall => ascii "HGETALL"
  | info => ascii "INFO"
  | save => ascii "SAVE"
  | bgsave => ascii "BGSAVE"
  | bgrewriteaof => ascii "BGREWRITEAOF"
  | config => ascii "CONFIG"
  | del => ascii "DEL"
  | dbsize => ascii "DBSIZE"
  | replconf => ascii "REPLCONF"
  | psync => ascii "PSYNC"

/-- `create_default_registry`, in order of registration. -/
def registered : List CommandName :=
  [ping, echo, select, command, auth, set, get, expire, ttl, lpush, rpop, hset, hgetall,
    info, save, bgsave, bgrewriteaof, config, del, dbsize, replconf, psync]

/-- `CommandRegistry.get`.
SOURCE: commands/registry.py:34-35 -/
def lookup (name : Bytes) : Option CommandName :=
  registered.find? fun c => c.text = upper name

end CommandName

/-- `WRITE_COMMANDS`.
SOURCE: commands/base.py:62-71 -/
def writeCommands : List Bytes :=
  [ascii "SET", ascii "EXPIRE", ascii "LPUSH", ascii "RPOP", ascii "HSET", ascii "DEL"]

/-- `argv[0].upper() if argv else b""`. -/
def upperName (argv : Command) : Bytes :=
  match argv with
  | [] => []
  | name :: _ => upper name

/-- `upper in WRITE_COMMANDS`. -/
def isWrite (argv : Command) : Bool := upperName argv ∈ writeCommands

/-! ## Results and errors -/

/-- How a handler ends: with a value, with `RespError`, with any other exception, or with
the sentinel `_NO_CLIENT_REPLY`. -/
inductive Handled where
  | value (v : PyValue)
  | error (message : Str)
  | internal
  | noReply

/-- SOURCE: commands/base.py:29-30 -/
def wrongtype : Str :=
  "WRONGTYPE Operation against a key holding the wrong kind of value".toList

/-- SOURCE: commands/base.py:33-34 -/
def wrongArity (cmd : String) : Str :=
  "ERR wrong number of arguments for '".toList ++ cmd.toList ++ "' command".toList

/-- SOURCE: commands/base.py:37-39 -/
def unknownCommand (name : Bytes) : Str :=
  "ERR unknown command '".toList ++ decodeReplace name ++ "'".toList

/-- SOURCE: commands/base.py:42-43 -/
def readonlyError : Str := "READONLY You can't write against a read only replica.".toList

/-- The error of an option that a command does not know. -/
def syntaxError : Str := "ERR syntax error".toList

/-- The error of an argument that `int()` does not take. -/
def notAnInteger : Str := "ERR value is not an integer or out of range".toList

/-- A `_Simple` reply. -/
def Handled.simple (text : String) (noCr : cr ∉ ascii text := by decide)
    (noLf : lf ∉ ascii text := by decide) : Handled :=
  .value (.simple ⟨ascii text, noCr, noLf⟩)

/-- The reply `_Simple("OK")`. -/
def Handled.ok : Handled := .simple "OK"

/-! ## Connection commands -/

/-- `cmd_ping`.
SOURCE: commands/connection_cmds.py:8-14 -/
def cmdPing (argv : Command) : Handled :=
  match argv with
  | [_] => .simple "PONG"
  | [_, message] => .value (.bytes message)
  | _ => .error (wrongArity "ping")

/-- `cmd_echo`.
SOURCE: commands/connection_cmds.py:17-20 -/
def cmdEcho (argv : Command) : Handled :=
  match argv with
  | [_, message] => .value (.bytes message)
  | _ => .error (wrongArity "echo")

/-- `cmd_select`.
SOURCE: commands/connection_cmds.py:23-32 -/
def cmdSelect (argv : Command) : Handled :=
  match argv with
  | [_, index] =>
    match pyInt index with
    | none => .error "ERR invalid DB index".toList
    | some i => if i ≠ 0 then .error "ERR DB index is out of range".toList else .ok
  | _ => .error (wrongArity "select")

/-- `cmd_command`.
SOURCE: commands/connection_cmds.py:35-37 -/
def cmdCommand (_argv : Command) : Handled := .value (.list [])

/-- `cmd_replconf`.
SOURCE: commands/repl_cmds.py:9-13 -/
def cmdReplconf (argv : Command) : Handled :=
  if argv.length < 2 then .error (wrongArity "replconf") else .ok

/-! ## String commands -/

/-- The option loop of `cmd_set` from index 3 on; the last `EX` wins.
SOURCE: commands/string_cmds.py:18-34 -/
def setOptions : List Bytes → Option ℤ → Except Str (Option ℤ)
  | [], exSeconds => .ok exSeconds
  | opt :: args, _ =>
    if upper opt = ascii "EX" then
      match args with
      | [] => .error syntaxError
      | seconds :: rest =>
        match pyInt seconds with
        | none => .error notAnInteger
        | some n =>
          if n ≤ 0 then .error "ERR invalid expire time in set".toList
          else setOptions rest (some n)
    else .error syntaxError

/-- `cmd_set`.
SOURCE: commands/string_cmds.py:11-36 -/
def cmdSet (now : ℤ) (argv : Command) (s : Store) : Handled × Store :=
  match argv with
  | _ :: key :: value :: options =>
    match setOptions options none with
    | .error message => (.error message, s)
    | .ok exSeconds => (.ok, s.setString now key value exSeconds)
  | _ => (.error (wrongArity "set"), s)

/-- Turning the result of a store operation into a reply. -/
def Handled.ofStore {α : Type} (reply : α → PyValue) : Except StoreError α → Handled
  | .ok a => .value (reply a)
  | .error .wrongType => .error wrongtype

/-- `None` or a bulk string. -/
def PyValue.ofOption (value : Option Bytes) : PyValue := value.elim .none .bytes

/-- `cmd_get`.
SOURCE: commands/string_cmds.py:39-45 -/
def cmdGet (now : ℤ) (argv : Command) (s : Store) : Handled × Store :=
  match argv with
  | [_, key] =>
    let r := s.getString now key
    (.ofStore .ofOption r.1, r.2)
  | _ => (.error (wrongArity "get"), s)

/-- `cmd_expire`.
SOURCE: commands/string_cmds.py:48-56 -/
def cmdExpire (now : ℤ) (argv : Command) (s : Store) : Handled × Store :=
  match argv with
  | [_, key, secs] =>
    match pyInt secs with
    | none => (.error notAnInteger, s)
    | some seconds =>
      let r := s.expire now key seconds
      (.value (.int r.1), r.2)
  | _ => (.error (wrongArity "expire"), s)

/-- `cmd_ttl`.
SOURCE: commands/string_cmds.py:59-62 -/
def cmdTtl (now : ℤ) (argv : Command) (s : Store) : Handled × Store :=
  match argv with
  | [_, key] =>
    let r := s.ttl now key
    (.value (.int r.1), r.2)
  | _ => (.error (wrongArity "ttl"), s)

/-! ## List and hash commands -/

/-- `cmd_lpush`.
SOURCE: commands/list_cmds.py:10-18 -/
def cmdLpush (now : ℤ) (argv : Command) (s : Store) : Handled × Store :=
  match argv with
  | _ :: key :: element :: elements =>
    let r := s.lpush now key (element :: elements)
    (.ofStore .int r.1, r.2)
  | _ => (.error (wrongArity "lpush"), s)

/-- `cmd_rpop`.
SOURCE: commands/list_cmds.py:21-27 -/
def cmdRpop (now : ℤ) (argv : Command) (s : Store) : Handled × Store :=
  match argv with
  | [_, key] =>
    let r := s.rpop now key
    (.ofStore .ofOption r.1, r.2)
  | _ => (.error (wrongArity "rpop"), s)

/-- `for i in range(0, len(pairs), 2)`: the arguments of HSET two by two. An odd one out,
which the arity check excludes, is dropped. -/
def pairUp : List Bytes → List (Bytes × Bytes)
  | field :: value :: rest => (field, value) :: pairUp rest
  | _ => []

/-- `cmd_hset`. The second check of the number of arguments, on `pairs`, never fires after
the first.
SOURCE: commands/hash_cmds.py:10-26 -/
def cmdHset (now : ℤ) (argv : Command) (s : Store) : Handled × Store :=
  if argv.length < 4 ∨ argv.length % 2 ≠ 0 then (.error (wrongArity "hset"), s)
  else
    match argv with
    | _ :: key :: pairs =>
      if pairs.length % 2 ≠ 0 then (.error (wrongArity "hset"), s)
      else
        let r := s.hset now key (pairUp pairs)
        (.ofStore .int r.1, r.2)
    | _ => (.error (wrongArity "hset"), s)

/-- `cmd_hgetall`.
SOURCE: commands/hash_cmds.py:29-35 -/
def cmdHgetall (now : ℤ) (argv : Command) (s : Store) : Handled × Store :=
  match argv with
  | [_, key] =>
    let r := s.hgetall now key
    (.ofStore (fun items => .list (items.map .bytes)) r.1, r.2)
  | _ => (.error (wrongArity "hgetall"), s)

/-! ## Keyspace and configuration commands -/

/-- `cmd_del`.
SOURCE: commands/server_cmds.py:143-146 -/
def cmdDel (now : ℤ) (argv : Command) (s : Store) : Handled × Store :=
  match argv with
  | _ :: key :: keys =>
    let r := s.delete now (key :: keys)
    (.value (.int r.1), r.2)
  | _ => (.error (wrongArity "del"), s)

/-- `cmd_dbsize`.
SOURCE: commands/server_cmds.py:149-152 -/
def cmdDbsize (now : ℤ) (argv : Command) (s : Store) : Handled × Store :=
  match argv with
  | [_] =>
    let r := s.dbsize now
    (.value (.int r.1), r.2)
  | _ => (.error (wrongArity "dbsize"), s)

/-- `b.decode()`; `none` is `UnicodeDecodeError`. Bytes are well formed exactly when
decoding with replacement and encoding again gives them back. -/
def decodeStrict (b : Bytes) : Option Str :=
  if encodeUtf8 (decodeReplace b) = b then some (decodeReplace b) else none

/-- `CONFIG GET`. Only ASCII capitals lower to letters of the two names, so lowering
these alone gives the same comparisons as `str.lower`.
SOURCE: commands/server_cmds.py:122-135 -/
def configGet (cfg : Config) (arg : Bytes) : PyValue :=
  let pattern := (decodeReplace arg).map Char.toLower
  let mapping := [("dir".toList, cfg.dir), ("dbfilename".toList, cfg.dbfilename)]
  .list ((mapping.filter fun p => pattern = "*".toList ∨ pattern = p.1).flatMap
    fun p => [.bytes (encodeUtf8 p.1), .bytes (encodeUtf8 p.2)])

/-- `cmd_config`.
SOURCE: commands/server_cmds.py:118-140 -/
def cmdConfig (cfg : Config) (argv : Command) : Handled :=
  match argv with
  | _ :: sub :: args =>
    if upper sub = ascii "GET" then
      match args with
      | [pattern] => .value (configGet cfg pattern)
      | _ => .error (wrongArity "config|get")
    else if upper sub = ascii "SET" then
      .error "ERR CONFIG SET not supported in BYO-Redis v0.2.2".toList
    else
      match decodeStrict (upper sub) with
      | none => .internal
      | some shown =>
        .error ("ERR Unknown subcommand or wrong number of arguments for 'config|".toList ++
          shown ++ "'".toList)
  | _ => .error (wrongArity "config")

end ByoRedis.Model
