import ByoRedis.Model.Store

/-!
# Snapshots

`byo_redis/persistence/rdb.py`: the BYOR format, version 2 with a CRC-32 and the legacy
version 1 without. `dumpRdbEntries` fails where `struct.pack` does, on a length of
2^32 or more or a deadline outside the signed 64-bit range. `loadRdbBytes` walks the
bytes from the front; its `offset` is the number of bytes already taken off.
-/

set_option autoImplicit false

namespace ByoRedis.Model

open ByoRedis.Lib

/-! ## Fixed-width integers -/

/-- The `k` low bytes of `n`, least significant first. -/
def leBytes : ℕ → ℕ → Bytes
  | 0, _ => []
  | k + 1, n => UInt8.ofNat (n % 256) :: leBytes k (n / 256)

/-- The number little-endian bytes spell. -/
def leValue : Bytes → ℕ
  | [] => 0
  | b :: bs => b.toNat + 256 * leValue bs

/-- `struct.pack("<I", n)`; `none` is `struct.error`. -/
def packU32 (n : ℕ) : Option Bytes := if n < 2 ^ 32 then some (leBytes 4 n) else none

/-- `struct.pack("<q", i)`; `none` is `struct.error`. -/
def packI64 (i : ℤ) : Option Bytes :=
  if -2 ^ 63 ≤ i ∧ i < 2 ^ 63 then some (leBytes 8 (i % 2 ^ 64).toNat) else none

/-- `struct.unpack("<q", raw)[0]`. -/
def unpackI64 (raw : Bytes) : ℤ :=
  let v := leValue raw
  if v < 2 ^ 63 then (v : ℤ) else (v : ℤ) - 2 ^ 64

/-! ## CRC-32 -/

/-- One bit of the reflected CRC-32 with polynomial 0xEDB88320. -/
def crcBit (c : UInt32) : UInt32 := if c &&& 1 = 1 then (c >>> 1) ^^^ 0xEDB88320 else c >>> 1

/-- One byte of the CRC. -/
def crcByte (c : UInt32) (b : UInt8) : UInt32 :=
  crcBit (crcBit (crcBit (crcBit (crcBit (crcBit (crcBit (crcBit (c ^^^ b.toUInt32))))))))

/-- `zlib.crc32`. -/
def crc32 (data : Bytes) : UInt32 := data.foldl crcByte 0xFFFFFFFF ^^^ 0xFFFFFFFF

/-! ## The format -/

/-- `MAGIC`. -/
def rdbMagic : Bytes := ascii "BYOR"

/-- `VERSION`. -/
def rdbVersion : ℕ := 2

/-- `LEGACY_VERSION`. -/
def rdbLegacyVersion : ℕ := 1

/-- `FOOTER`. -/
def rdbFooter : Bytes := ascii "EOF\n"

/-- `TYPE_STRING`, `TYPE_LIST` and `TYPE_HASH`. -/
def RedisType.id : RedisType → UInt8
  | .string => 1
  | .list => 2
  | .hash => 3

/-- The reasons for `RdbError`. -/
inductive RdbError where
  | tooLarge (size limit : ℕ)
  | tooShort
  | badMagic (magic : Bytes)
  | unsupportedVersion (version : ℕ)
  | unexpectedEof
  | unknownType (id : UInt8)
  | checksumMismatch
  | missingFooter
  | trailingBytes
  deriving DecidableEq

/-- `_pack_bytes`.
SOURCE: persistence/rdb.py:48-49 -/
def packBytes (data : Bytes) : Option Bytes := (packU32 data.length).map (· ++ data)

/-- `_pack_bytes` on several blobs one after the other. -/
def packMany (blobs : List Bytes) : Option Bytes := (blobs.mapM packBytes).map List.flatten

/-- The type-specific payload of an entry.
SOURCE: persistence/rdb.py:95-109 -/
def packValue : RedisValue → Option Bytes
  | .bytes b => packBytes b
  | .deque items => do
    let count ← packU32 items.length
    let body ← packMany items
    pure (count ++ body)
  | .dict mapping => do
    let count ← packU32 mapping.entries.length
    let body ← packMany (mapping.entries.flatMap fun p => [p.1, p.2])
    pure (count ++ body)

/-- One key record.
SOURCE: persistence/rdb.py:83-109 -/
def packRecord (key : Bytes) (entry : KeyEntry) : Option Bytes := do
  let k ← packBytes key
  let expire ← packI64 (entry.expireAtMs.getD (-1))
  let payload ← packValue entry.value
  pure (k ++ [entry.type.id] ++ expire ++ payload)

/-- The file up to the checksum. -/
def rdbBody (version : ℕ) (entries : Entries) : Option Bytes := do
  let v ← packU32 version
  let count ← packU32 entries.size
  let records ← entries.entries.mapM fun e => packRecord e.1 e.2
  pure (rdbMagic ++ v ++ count ++ records.flatten)

/-- `dump_rdb_entries`; `none` is `struct.error`.
SOURCE: persistence/rdb.py:79-113 -/
def dumpRdbEntries (entries : Entries) : Option Bytes :=
  (rdbBody rdbVersion entries).map fun body =>
    body ++ leBytes 4 (crc32 body).toNat ++ rdbFooter

/-! ## Loading -/

/-- `_read_exact`.
SOURCE: persistence/rdb.py:52-56 -/
def readExact (n : ℕ) (buf : Bytes) : Except RdbError (Bytes × Bytes) :=
  if buf.length < n then .error .unexpectedEof else .ok (buf.take n, buf.drop n)

/-- `_read_u32`.
SOURCE: persistence/rdb.py:59-61 -/
def readU32 (buf : Bytes) : Except RdbError (ℕ × Bytes) := do
  let (raw, buf) ← readExact 4 buf
  pure (leValue raw, buf)

/-- `_read_i64`.
SOURCE: persistence/rdb.py:64-66 -/
def readI64 (buf : Bytes) : Except RdbError (ℤ × Bytes) := do
  let (raw, buf) ← readExact 8 buf
  pure (unpackI64 raw, buf)

/-- `_read_blob`.
SOURCE: persistence/rdb.py:69-71 -/
def readBlob (buf : Bytes) : Except RdbError (Bytes × Bytes) := do
  let (length, buf) ← readU32 buf
  readExact length buf

/-- The item loop of a list.
SOURCE: persistence/rdb.py:156-160 -/
def readListItems : ℕ → Bytes → Except RdbError (List Bytes × Bytes)
  | 0, buf => .ok ([], buf)
  | n + 1, buf => do
    let (item, buf) ← readBlob buf
    let (items, buf) ← readListItems n buf
    pure (item :: items, buf)

/-- The field loop of a hash.
SOURCE: persistence/rdb.py:163-168 -/
def readHashItems : ℕ → Dict Bytes Bytes → Bytes → Except RdbError (Dict Bytes Bytes × Bytes)
  | 0, mapping, buf => .ok (mapping, buf)
  | n + 1, mapping, buf => do
    let (field, buf) ← readBlob buf
    let (value, buf) ← readBlob buf
    readHashItems n (mapping.insert field value) buf

/-- The type-specific payload, as an entry.
SOURCE: persistence/rdb.py:152-171 -/
def readEntry (typeId : UInt8) (expireAtMs : Option ℤ) (buf : Bytes) :
    Except RdbError (KeyEntry × Bytes) :=
  if typeId = RedisType.string.id then do
    let (value, buf) ← readBlob buf
    pure ({ type := .string, value := .bytes value, expireAtMs := expireAtMs }, buf)
  else if typeId = RedisType.list.id then do
    let (n, buf) ← readU32 buf
    let (items, buf) ← readListItems n buf
    pure ({ type := .list, value := .deque items, expireAtMs := expireAtMs }, buf)
  else if typeId = RedisType.hash.id then do
    let (n, buf) ← readU32 buf
    let (mapping, buf) ← readHashItems n Dict.empty buf
    pure ({ type := .hash, value := .dict mapping, expireAtMs := expireAtMs }, buf)
  else .error (.unknownType typeId)

/-- One key record.
SOURCE: persistence/rdb.py:146-171 -/
def readRecord (buf : Bytes) : Except RdbError ((Bytes × KeyEntry) × Bytes) := do
  let (key, buf) ← readBlob buf
  let (typeRaw, buf) ← readExact 1 buf
  let (expireAt, buf) ← readI64 buf
  let (entry, buf) ← readEntry (typeRaw.headD 0) (if expireAt < 0 then none else some expireAt) buf
  pure ((key, entry), buf)

/-- The record loop; expired entries are dropped.
SOURCE: persistence/rdb.py:144-175 -/
def readRecords (now : ℤ) : ℕ → Entries → Bytes → Except RdbError (Entries × Bytes)
  | 0, entries, buf => .ok (entries, buf)
  | n + 1, entries, buf => do
    let ((key, entry), buf) ← readRecord buf
    readRecords now n
      (if isExpired entry.expireAtMs now then entries else entries.insert key entry) buf

/-- The checksum of a version 2 file; `body` is the file up to it.
SOURCE: persistence/rdb.py:176-182 -/
def readChecksum (version : ℕ) (body buf : Bytes) : Except RdbError Bytes :=
  if 2 ≤ version then do
    let (raw, buf) ← readExact 4 buf
    if (crc32 body).toNat ≠ leValue raw then .error .checksumMismatch else pure buf
  else .ok buf

/-- `load_rdb_bytes`.
SOURCE: persistence/rdb.py:128-188 -/
def loadRdbBytes (maxFileBytes : ℕ) (now : ℤ) (data : Bytes) : Except RdbError Entries :=
  if maxFileBytes < data.length then .error (.tooLarge data.length maxFileBytes)
  else if data.length < 12 then .error .tooShort
  else do
    let (magic, buf) ← readExact 4 data
    if magic ≠ rdbMagic then .error (.badMagic magic)
    else
      let (version, buf) ← readU32 buf
      if version ≠ rdbLegacyVersion ∧ version ≠ rdbVersion then
        .error (.unsupportedVersion version)
      else
        let (count, buf) ← readU32 buf
        let (entries, buf) ← readRecords now count Dict.empty buf
        let buf ← readChecksum version (data.take (data.length - buf.length)) buf
        let (footer, buf) ← readExact rdbFooter.length buf
        if footer ≠ rdbFooter then .error .missingFooter
        else if buf ≠ [] then .error .trailingBytes
        else pure entries

end ByoRedis.Model
