import ByoRedis.Model.Rdb

/-!
# The BYOR format

A snapshot file as a value, apart from any reader or writer: its records with the lengths,
counts and deadlines that the fields of the format have room for, the bytes it stands for
and the keyspace it describes. A file may list a key or a field twice, and then the last one
counts; a negative deadline is none.
SOURCE: persistence/rdb.py:1-20
-/

set_option autoImplicit false

namespace ByoRedis.Interface

open ByoRedis.Model ByoRedis.Lib

/-- Bytes behind a 32-bit length. -/
structure Blob where
  data : Bytes
  fits : data.length < 2 ^ 32

/-- A list behind a 32-bit count. -/
structure Counted (α : Type) where
  items : List α
  fits : items.length < 2 ^ 32

/-- A signed 64-bit deadline in milliseconds. -/
structure Deadline where
  ms : ℤ
  fits : -2 ^ 63 ≤ ms ∧ ms < 2 ^ 63

/-- The value of a record. -/
inductive RawValue where
  | string (value : Blob)
  | list (blobs : Counted Blob)
  | hash (fields : Counted (Blob × Blob))

/-- A record. -/
structure RawRecord where
  key : Blob
  expireAt : Deadline
  value : RawValue

/-- A file: whether it is of the version without a checksum, and its records. -/
structure RdbFile where
  legacy : Bool
  records : Counted RawRecord

/-! ## The bytes -/

/-- A string behind its length. -/
def Blob.bytes (b : Blob) : Bytes := leBytes 4 b.data.length ++ b.data

/-- Eight bytes in two's complement. -/
def Deadline.bytes (t : Deadline) : Bytes := leBytes 8 (t.ms % 2 ^ 64).toNat

/-- The type of a value. -/
def RawValue.type : RawValue → RedisType
  | .string _ => .string
  | .list _ => .list
  | .hash _ => .hash

/-- A value behind its type. -/
def RawValue.bytes : RawValue → Bytes
  | .string value => value.bytes
  | .list blobs => leBytes 4 blobs.items.length ++ blobs.items.flatMap Blob.bytes
  | .hash fields =>
    leBytes 4 fields.items.length ++ fields.items.flatMap fun p => p.1.bytes ++ p.2.bytes

/-- Key, type, deadline and value. -/
def RawRecord.bytes (r : RawRecord) : Bytes :=
  r.key.bytes ++ [r.value.type.id] ++ r.expireAt.bytes ++ r.value.bytes

/-- The version that the header names. -/
def RdbFile.version (f : RdbFile) : ℕ := if f.legacy then rdbLegacyVersion else rdbVersion

/-- The file up to the checksum. -/
def RdbFile.body (f : RdbFile) : Bytes :=
  rdbMagic ++ leBytes 4 f.version ++ leBytes 4 f.records.items.length ++
    f.records.items.flatMap RawRecord.bytes

/-- Header, records, the checksum in the new version, and the footer. -/
def RdbFile.bytes (f : RdbFile) : Bytes :=
  f.body ++ (if f.legacy then [] else leBytes 4 (crc32 f.body).toNat) ++ rdbFooter

/-! ## The keyspace -/

/-- The value that a field stands for; a field of a hash that comes again replaces the first. -/
def RawValue.value : RawValue → RedisValue
  | .string value => .bytes value.data
  | .list blobs => .deque (blobs.items.map Blob.data)
  | .hash fields => .dict (Dict.empty.insertMany (fields.items.map fun p => (p.1.data, p.2.data)))

/-- It has the type of the field. -/
theorem RawValue.type_value (v : RawValue) : v.value.type = v.type := by
  cases v <;> rfl

/-- The entry of a record. -/
def RawRecord.entry (r : RawRecord) : KeyEntry where
  type := r.value.type
  value := r.value.value
  expireAtMs := if r.expireAt.ms < 0 then none else some r.expireAt.ms
  typed := r.value.type_value

/-- The records that have not expired, stored one after the other. -/
def storeRecords (now : ℤ) (d : Entries) (records : List RawRecord) : Entries :=
  records.foldl (fun d r =>
    if isExpired r.entry.expireAtMs now then d else d.insert r.key.data r.entry) d

/-- What a load at `now` takes over of a file. -/
def RdbFile.keyspace (f : RdbFile) (now : ℤ) : Entries :=
  storeRecords now Dict.empty f.records.items

end ByoRedis.Interface
