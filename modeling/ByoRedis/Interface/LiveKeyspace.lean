import ByoRedis.Model.Commands
import Mathlib.Data.Set.Card

/-!
# A keyspace without lazy expiry

What a client is told about keys and deadlines, with nothing of how the server gets there. A
`Keyspace` holds the keys that exist and no others: `elapse` takes a key away at the instant
its deadline is reached, and `perform` gives each of ten commands its documented meaning on
the keys that are left. A key that does not exist reads as an empty list or an empty hash,
and a list from which the last element is popped stops existing.

`ByoRedis.Analysis.LazyExpiry` compares this with the store, where an expired key stays until
something touches it.
SOURCE: docs/REQUIREMENTS.md:69-109
-/

set_option autoImplicit false

namespace ByoRedis.Interface

open ByoRedis.Model ByoRedis.Lib

/-! ## Commands -/

/-- The commands on strings, lists, hashes and keys. -/
inductive DataCommand where
  | set | get | expire | ttl | lpush | rpop | hset | hgetall | del | dbsize
  deriving DecidableEq

/-- The entry of the registry for a command. -/
def DataCommand.name : DataCommand → CommandName
  | set => .set
  | get => .get
  | expire => .expire
  | ttl => .ttl
  | lpush => .lpush
  | rpop => .rpop
  | hset => .hset
  | hgetall => .hgetall
  | del => .del
  | dbsize => .dbsize

/-- A command with its arguments taken apart. -/
inductive Request where
  | set (key value : Bytes) (exSeconds : Option ℤ)
  | get (key : Bytes)
  | expire (key : Bytes) (seconds : ℤ)
  | ttl (key : Bytes)
  | lpush (key element : Bytes) (elements : List Bytes)
  | rpop (key : Bytes)
  | hset (key : Bytes) (items : List (Bytes × Bytes))
  | hgetall (key : Bytes)
  | del (keys : List Bytes)
  | dbsize

/-- The name of a command in a message about the number of its arguments. -/
def DataCommand.shown : DataCommand → String
  | set => "set"
  | get => "get"
  | expire => "expire"
  | ttl => "ttl"
  | lpush => "lpush"
  | rpop => "rpop"
  | hset => "hset"
  | hgetall => "hgetall"
  | del => "del"
  | dbsize => "dbsize"

/-- The request an argument list stands for, or the message that refuses it. -/
def DataCommand.parse : DataCommand → Command → Except Str Request
  | set, _ :: key :: value :: options => (setOptions options none).map (.set key value)
  | get, [_, key] => .ok (.get key)
  | expire, [_, key, seconds] =>
    match pyInt seconds with
    | none => .error notAnInteger
    | some n => .ok (.expire key n)
  | ttl, [_, key] => .ok (.ttl key)
  | lpush, _ :: key :: element :: elements => .ok (.lpush key element elements)
  | rpop, [_, key] => .ok (.rpop key)
  | hset, _ :: key :: field :: value :: pairs =>
    if pairs.length % 2 = 0 then .ok (.hset key ((field, value) :: pairUp pairs))
    else .error (wrongArity "hset")
  | hgetall, [_, key] => .ok (.hgetall key)
  | del, _ :: key :: keys => .ok (.del (key :: keys))
  | dbsize, [_] => .ok .dbsize
  | c, _ => .error (wrongArity c.shown)

/-! ## Keys that exist -/

/-- The keys that exist, each with its value and deadline. -/
abbrev Keyspace := Bytes → Option KeyEntry

/-- `OK` has no carriage return. -/
theorem cr_notMem_ok : cr ∉ ascii "OK" := by decide

/-- `OK` has no line feed. -/
theorem lf_notMem_ok : lf ∉ ascii "OK" := by decide

/-- The text of the reply to SET. -/
def okText : SimpleText := ⟨ascii "OK", cr_notMem_ok, lf_notMem_ok⟩

namespace Keyspace

/-- What is left at time `t`: the keys whose deadline lies ahead and those without one. -/
def elapse (t : ℤ) (K : Keyspace) : Keyspace := fun key =>
  (K key).filter fun e => e.expireAtMs.all fun d => t < d

/-- The deadline of a key. -/
def deadline (K : Keyspace) (key : Bytes) : Option ℤ := (K key).bind KeyEntry.expireAtMs

/-- The number of keys. -/
noncomputable def count (K : Keyspace) : ℕ := {key | K key ≠ none}.ncard

/-- The string at a key. -/
def string (K : Keyspace) (key : Bytes) : Except Str (Option Bytes) :=
  match K key with
  | none => .ok none
  | some e =>
    match e.value with
    | .bytes b => .ok (some b)
    | _ => .error wrongtype

/-- The list at a key, empty when there is none. -/
def list (K : Keyspace) (key : Bytes) : Except Str (List Bytes) :=
  match K key with
  | none => .ok []
  | some e =>
    match e.value with
    | .deque items => .ok items
    | _ => .error wrongtype

/-- The hash at a key, empty when there is none. -/
def hash (K : Keyspace) (key : Bytes) : Except Str (Dict Bytes Bytes) :=
  match K key with
  | none => .ok Dict.empty
  | some e =>
    match e.value with
    | .dict mapping => .ok mapping
    | _ => .error wrongtype

/-- Storing a list under a key, which keeps its deadline; a key with no elements does not
exist. -/
def putList (K : Keyspace) (key : Bytes) (items : List Bytes) : Keyspace :=
  Function.update K key (if items = [] then none
    else some { type := .list, value := .deque items, expireAtMs := K.deadline key })

/-- Storing a hash under a key, which keeps its deadline. -/
def putHash (K : Keyspace) (key : Bytes) (mapping : Dict Bytes Bytes) : Keyspace :=
  Function.update K key
    (some { type := .hash, value := .dict mapping, expireAtMs := K.deadline key })

/-! ## What the commands mean -/

/-- The reply to a request at time `now`, and the keys it leaves. -/
noncomputable def perform (now : ℤ) (K : Keyspace) : Request → Except Str PyValue × Keyspace
  | .set key value exSeconds =>
    (.ok (.simple okText), Function.update K key
      (some { type := .string, value := .bytes value,
              expireAtMs := exSeconds.map fun n => now + n * 1000 }))
  | .get key => ((K.string key).map .ofOption, K)
  | .expire key seconds =>
    match K key with
    | none => (.ok (.int 0), K)
    | some e =>
      -- a deadline that is not ahead is reached at once
      (.ok (.int 1), Function.update K key
        (if seconds ≤ 0 then none else some (e.withDeadline (some (now + seconds * 1000)))))
  | .ttl key =>
    match K key with
    | none => (.ok (.int (-2)), K)
    | some e =>
      match e.expireAtMs with
      | none => (.ok (.int (-1)), K)
      | some d => (.ok (.int ((d - now) / 1000)), K)
  | .lpush key element elements =>
    match K.list key with
    | .error message => (.error message, K)
    | .ok items =>
      -- the last argument ends up leftmost
      let items := (element :: elements).reverse ++ items
      (.ok (.int items.length), K.putList key items)
  | .rpop key =>
    match K.list key with
    | .error message => (.error message, K)
    | .ok items => (.ok (.ofOption items.getLast?), K.putList key items.dropLast)
  | .hset key items =>
    match K.hash key with
    | .error message => (.error message, K)
    | .ok mapping =>
      let mapping' := mapping.insertMany items
      (.ok (.int ((mapping'.size : ℤ) - mapping.size)), K.putHash key mapping')
  | .hgetall key =>
    ((K.hash key).map fun mapping =>
      .list ((mapping.entries.flatMap fun p => [p.1, p.2]).map .bytes), K)
  | .del keys =>
    (.ok (.int (keys.toFinset.filter fun key => (K key).isSome).card),
      fun key => if key ∈ keys then none else K key)
  | .dbsize => (.ok (.int K.count), K)

/-- The reply to a command at time `now`, and the keys it leaves. -/
noncomputable def answer (now : ℤ) (c : DataCommand) (argv : Command) (K : Keyspace) :
    Except Str PyValue × Keyspace :=
  match c.parse argv with
  | .error message => (.error message, K)
  | .ok request => K.perform now request

end Keyspace

end ByoRedis.Interface
