import ByoRedis.Lib.Decoding
import ByoRedis.Interface.RdbFormat
import ByoRedis.Analysis.RdbCorruption
import ByoRedis.Analysis.ReplicationSteps

/-!
# The loader reads the format

`load_rdb_bytes` accepts exactly the bytes of the files of the format, in either version, and
makes of each the keyspace it describes. Reader by reader: each one decodes one form, and what
it leaves out (a checksum that does not match, bytes behind the end) no file has.

A keyspace that was loaded can be written again, in no more bytes than it was read from but
for the checksum that the legacy version lacks, and is then read back as it was.
-/

set_option autoImplicit false

namespace ByoRedis.Analysis

open ByoRedis.Model ByoRedis.Lib ByoRedis.Interface

/-! ## Integers -/

/-- A number of that many bytes is below the power of 256. -/
theorem leValue_lt (raw : Bytes) : leValue raw < 256 ^ raw.length := by
  induction raw with
  | nil => exact Nat.one_pos
  | cons b raw ih =>
    have hb : b.toNat < 256 := UInt8.toNat_lt b
    have hpow : 256 ^ (b :: raw).length = 256 * 256 ^ raw.length := by
      rw [List.length_cons, pow_succ, Nat.mul_comm]
    rw [hpow, leValue]
    omega

/-- Little-endian bytes are those of the number they spell. -/
theorem leBytes_leValue {raw : Bytes} {k : ℕ} (h : raw.length = k) :
    leBytes k (leValue raw) = raw := by
  refine leValue_injective ((length_leBytes _ _).trans h.symm) ?_
  rw [leValue_leBytes, ← h]
  exact Nat.mod_eq_of_lt (leValue_lt raw)

/-- A number that fits is read back. -/
theorem leValue_leBytes_of_lt {k n : ℕ} (h : n < 256 ^ k) : leValue (leBytes k n) = n := by
  rw [leValue_leBytes]
  exact Nat.mod_eq_of_lt h

/-- The two readings of 64 bits. -/
theorem unpackI64_range {raw : Bytes} (h : raw.length = 8) :
    (-2 ^ 63 ≤ unpackI64 raw ∧ unpackI64 raw < 2 ^ 63) ∧
      (unpackI64 raw % 2 ^ 64).toNat = leValue raw := by
  have hlt := leValue_lt raw
  rw [h] at hlt
  unfold unpackI64
  dsimp only
  split_ifs <;> omega

/-! ## The readers -/

/-- SOURCE: persistence/rdb.py:52-56 -/
theorem decodes_readExact (n : ℕ) :
    Decodes (readExact n) fun a used => a = used ∧ used.length = n := by
  refine ⟨fun {buf rest a} => ?_⟩
  constructor
  · intro h
    obtain ⟨hlen, rfl⟩ := readExact_eq_ok h
    exact ⟨a, ⟨rfl, hlen⟩, rfl⟩
  · rintro ⟨used, ⟨rfl, rfl⟩, rfl⟩
    exact readExact_append a rest

/-- SOURCE: persistence/rdb.py:59-61 -/
theorem decodes_readU32 : Decodes readU32 fun n used => n < 2 ^ 32 ∧ used = leBytes 4 n := by
  refine ((decodes_readExact 4).bind fun raw => decodes_pure (leValue raw)).congr ?_
  intro n used
  constructor
  · rintro ⟨raw, front, back, ⟨rfl, hlen⟩, ⟨rfl, rfl⟩, rfl⟩
    have hlt := leValue_lt raw
    rw [hlen] at hlt
    exact ⟨hlt, by rw [List.append_nil, leBytes_leValue hlen]⟩
  · rintro ⟨hn, rfl⟩
    exact ⟨leBytes 4 n, leBytes 4 n, [], ⟨rfl, length_leBytes 4 n⟩,
      ⟨(leValue_leBytes_of_lt hn).symm, rfl⟩, (List.append_nil _).symm⟩

/-- SOURCE: persistence/rdb.py:64-66 -/
theorem decodes_readI64 :
    Decodes readI64 fun i used => ∃ t : Deadline, t.1 = i ∧ used = t.bytes := by
  refine ((decodes_readExact 8).bind fun raw => decodes_pure (unpackI64 raw)).congr ?_
  intro i used
  constructor
  · rintro ⟨raw, front, back, ⟨rfl, hlen⟩, ⟨rfl, rfl⟩, rfl⟩
    obtain ⟨hrange, hvalue⟩ := unpackI64_range hlen
    refine ⟨⟨unpackI64 raw, hrange⟩, rfl, ?_⟩
    show raw ++ [] = leBytes 8 (unpackI64 raw % 2 ^ 64).toNat
    rw [List.append_nil, hvalue, leBytes_leValue hlen]
  · rintro ⟨t, rfl, rfl⟩
    have hpack : packI64 t.1 = some t.bytes := if_pos t.2
    obtain ⟨hvalue, hlen⟩ := unpackI64_packI64 hpack
    exact ⟨t.bytes, t.bytes, [], ⟨rfl, hlen⟩, ⟨hvalue.symm, rfl⟩, (List.append_nil _).symm⟩

/-- SOURCE: persistence/rdb.py:69-71 -/
theorem decodes_readBlob :
    Decodes readBlob fun a used => ∃ b : Blob, b.1 = a ∧ used = b.bytes := by
  refine (decodes_readU32.bind fun n => decodes_readExact n).congr ?_
  intro a used
  constructor
  · rintro ⟨n, front, back, ⟨hn, rfl⟩, ⟨rfl, rfl⟩, rfl⟩
    exact ⟨⟨a, hn⟩, rfl, rfl⟩
  · rintro ⟨b, rfl, rfl⟩
    exact ⟨b.1.length, leBytes 4 b.1.length, b.1, ⟨b.2, rfl⟩, ⟨rfl, rfl⟩, rfl⟩

/-- The item loop of a list.
SOURCE: persistence/rdb.py:156-160 -/
theorem decodes_readListItems (n : ℕ) :
    Decodes (readListItems n) fun items used => ∃ blobs : List Blob, blobs.length = n ∧
      items = blobs.map Blob.data ∧ used = blobs.flatMap Blob.bytes := by
  induction n with
  | zero =>
    refine (decodes_pure []).congr fun items used => ?_
    constructor
    · rintro ⟨rfl, rfl⟩
      exact ⟨[], rfl, rfl, rfl⟩
    · rintro ⟨blobs, hlen, rfl, rfl⟩
      rw [List.length_eq_zero_iff.mp hlen]
      exact ⟨rfl, rfl⟩
  | succ n ih =>
    refine (decodes_readBlob.bind fun item => ih.bind fun items =>
      decodes_pure (item :: items)).congr fun items used => ?_
    constructor
    · rintro ⟨item, front, back, ⟨b, rfl, rfl⟩, ⟨items', mid, last, ⟨blobs, hlen, rfl, rfl⟩,
        ⟨rfl, rfl⟩, rfl⟩, rfl⟩
      exact ⟨b :: blobs, by rw [List.length_cons, hlen], rfl,
        by rw [List.flatMap_cons, List.append_nil]⟩
    · rintro ⟨blobs, hlen, rfl, rfl⟩
      obtain _ | ⟨b, blobs⟩ := blobs
      · cases hlen
      · exact ⟨b.1, b.bytes, blobs.flatMap Blob.bytes, ⟨b, rfl, rfl⟩,
          ⟨_, _, [], ⟨blobs, Nat.succ.inj hlen, rfl, rfl⟩, ⟨rfl, rfl⟩,
            (List.append_nil _).symm⟩, rfl⟩

/-- The pairs of a hash as the loader stores them. -/
def pairsOf (fields : List (Blob × Blob)) : List (Bytes × Bytes) :=
  fields.map fun p => (p.1.1, p.2.1)

/-- The bytes of the pairs of a hash. -/
def fieldBytes (fields : List (Blob × Blob)) : Bytes :=
  fields.flatMap fun p => p.1.bytes ++ p.2.bytes

/-- The first field comes first. -/
theorem fieldBytes_cons (p : Blob × Blob) (fields : List (Blob × Blob)) :
    fieldBytes (p :: fields) = p.1.bytes ++ (p.2.bytes ++ fieldBytes fields) := by
  rw [fieldBytes, List.flatMap_cons, List.append_assoc]
  rfl

/-- The field loop of a hash.
SOURCE: persistence/rdb.py:163-168 -/
theorem decodes_readHashItems (n : ℕ) (mapping : Dict Bytes Bytes) :
    Decodes (readHashItems n mapping) fun m used => ∃ fields : List (Blob × Blob),
      fields.length = n ∧ m = mapping.insertMany (pairsOf fields) ∧
        used = fieldBytes fields := by
  induction n generalizing mapping with
  | zero =>
    refine (decodes_pure mapping).congr fun m used => ?_
    constructor
    · rintro ⟨rfl, rfl⟩
      exact ⟨[], rfl, rfl, rfl⟩
    · rintro ⟨fields, hlen, rfl, rfl⟩
      rw [List.length_eq_zero_iff.mp hlen]
      exact ⟨rfl, rfl⟩
  | succ n ih =>
    refine (decodes_readBlob.bind fun field => decodes_readBlob.bind fun value =>
      ih (mapping.insert field value)).congr fun m used => ?_
    constructor
    · rintro ⟨field, front, back, ⟨f, rfl, rfl⟩, ⟨value, mid, last, ⟨v, rfl, rfl⟩,
        ⟨fields, hlen, rfl, rfl⟩, rfl⟩, rfl⟩
      exact ⟨(f, v) :: fields, by rw [List.length_cons, hlen], rfl,
        (fieldBytes_cons (f, v) fields).symm⟩
    · rintro ⟨fields, hlen, rfl, rfl⟩
      obtain _ | ⟨p, fields⟩ := fields
      · cases hlen
      · exact ⟨p.1.1, p.1.bytes, p.2.bytes ++ fieldBytes fields, ⟨p.1, rfl, rfl⟩,
          ⟨p.2.1, p.2.bytes, fieldBytes fields, ⟨p.2, rfl, rfl⟩,
            ⟨fields, Nat.succ.inj hlen, rfl, rfl⟩, rfl⟩, fieldBytes_cons p fields⟩

/-- A value behind its type.
SOURCE: persistence/rdb.py:152-171 -/
theorem decodes_readEntry (typeId : UInt8) (expireAtMs : Option ℤ) :
    Decodes (readEntry typeId expireAtMs) fun entry used => ∃ v : RawValue,
      typeId = v.type.id ∧ used = v.bytes ∧ entry.value = v.value ∧
        entry.expireAtMs = expireAtMs := by
  unfold readEntry
  split_ifs with hstring hlist hhash
  · refine (decodes_readBlob.bind fun value => decodes_pure
      ({ type := .string, value := .bytes value, expireAtMs := expireAtMs } : KeyEntry)).congr
      fun entry used => ?_
    constructor
    · rintro ⟨value, front, back, ⟨b, rfl, rfl⟩, ⟨rfl, rfl⟩, rfl⟩
      exact ⟨.string b, hstring, List.append_nil _, rfl, rfl⟩
    · rintro ⟨v, htype, rfl, hvalue, hexpire⟩
      cases v with
      | string b =>
        exact ⟨b.1, b.bytes, [], ⟨b, rfl, rfl⟩, ⟨KeyEntry.ext' hvalue hexpire, rfl⟩,
          (List.append_nil _).symm⟩
      | list items =>
        exact absurd (hstring.symm.trans htype)
          (by decide : RedisType.string.id ≠ RedisType.list.id)
      | hash fields =>
        exact absurd (hstring.symm.trans htype)
          (by decide : RedisType.string.id ≠ RedisType.hash.id)
  · refine (decodes_readU32.bind fun n => (decodes_readListItems n).bind fun items =>
      decodes_pure
        ({ type := .list, value := .deque items, expireAtMs := expireAtMs } : KeyEntry)).congr
      fun entry used => ?_
    constructor
    · rintro ⟨n, front, back, ⟨hn, rfl⟩, ⟨items, mid, last, ⟨blobs, rfl, rfl, rfl⟩, ⟨rfl, rfl⟩,
        rfl⟩, rfl⟩
      exact ⟨.list ⟨blobs, hn⟩, hlist, by rw [List.append_nil]; rfl, rfl, rfl⟩
    · rintro ⟨v, htype, rfl, hvalue, hexpire⟩
      cases v with
      | string b => exact absurd htype hstring
      | list items =>
        exact ⟨items.1.length, _, _, ⟨items.2, rfl⟩, ⟨_, _, [], ⟨items.1, rfl, rfl, rfl⟩,
          ⟨KeyEntry.ext' hvalue hexpire, rfl⟩, rfl⟩, by rw [List.append_nil]; rfl⟩
      | hash fields =>
        exact absurd (hlist.symm.trans htype) (by decide : RedisType.list.id ≠ RedisType.hash.id)
  · refine (decodes_readU32.bind fun n => (decodes_readHashItems n Dict.empty).bind fun m =>
      decodes_pure
        ({ type := .hash, value := .dict m, expireAtMs := expireAtMs } : KeyEntry)).congr
      fun entry used => ?_
    constructor
    · rintro ⟨n, front, back, ⟨hn, rfl⟩, ⟨m, mid, last, ⟨fields, rfl, rfl, rfl⟩, ⟨rfl, rfl⟩,
        rfl⟩, rfl⟩
      exact ⟨.hash ⟨fields, hn⟩, hhash, by rw [List.append_nil]; rfl, rfl, rfl⟩
    · rintro ⟨v, htype, rfl, hvalue, hexpire⟩
      cases v with
      | string b => exact absurd htype hstring
      | list items => exact absurd htype hlist
      | hash fields =>
        exact ⟨fields.1.length, _, _, ⟨fields.2, rfl⟩, ⟨_, _, [], ⟨fields.1, rfl, rfl, rfl⟩,
          ⟨KeyEntry.ext' hvalue hexpire, rfl⟩, rfl⟩, by rw [List.append_nil]; rfl⟩
  · refine (decodes_error _).congr fun entry used => ?_
    constructor
    · exact False.elim
    · rintro ⟨v, htype, -⟩
      cases v with
      | string b => exact hstring htype
      | list items => exact hlist htype
      | hash fields => exact hhash htype

/-- SOURCE: persistence/rdb.py:146-171 -/
theorem decodes_readRecord :
    Decodes readRecord fun p used => ∃ r : RawRecord, p = (r.key.1, r.entry) ∧ used = r.bytes := by
  refine (decodes_readBlob.bind fun key => (decodes_readExact 1).bind fun typeRaw =>
    decodes_readI64.bind fun expireAt => (decodes_readEntry _ _).bind fun entry =>
      decodes_pure (key, entry)).congr fun p used => ?_
  constructor
  · rintro ⟨key, front, back, ⟨k, rfl, rfl⟩, ⟨typeRaw, t₁, t₂, ⟨rfl, hone⟩, ⟨expireAt, e₁, e₂,
      ⟨t, rfl, rfl⟩, ⟨entry, v₁, v₂, ⟨v, htype, rfl, hvalue, hexpire⟩, ⟨rfl, rfl⟩, rfl⟩,
      rfl⟩, rfl⟩, rfl⟩
    obtain ⟨b, rfl⟩ := List.length_eq_one_iff.mp hone
    have htype' : b = v.type.id := htype
    subst htype'
    refine ⟨⟨k, t, v⟩, Prod.ext rfl (KeyEntry.ext' hvalue hexpire), ?_⟩
    simp only [RawRecord.bytes, List.append_assoc, List.append_nil]
  · rintro ⟨r, rfl, rfl⟩
    refine ⟨r.key.1, r.key.bytes, [r.value.type.id] ++ (r.expireAt.bytes ++ r.value.bytes),
      ⟨r.key, rfl, rfl⟩, ⟨[r.value.type.id], _, _, ⟨rfl, rfl⟩, ⟨r.expireAt.1, r.expireAt.bytes,
        r.value.bytes, ⟨r.expireAt, rfl, rfl⟩, ⟨r.entry, r.value.bytes, [],
          ⟨r.value, rfl, rfl, rfl, rfl⟩, ⟨rfl, rfl⟩, (List.append_nil _).symm⟩, rfl⟩, rfl⟩, ?_⟩
    simp only [RawRecord.bytes, List.append_assoc]

/-- The record loop.
SOURCE: persistence/rdb.py:144-175 -/
theorem decodes_readRecords (now : ℤ) (n : ℕ) (d : Entries) :
    Decodes (readRecords now n d) fun d' used => ∃ records : List RawRecord,
      records.length = n ∧ d' = storeRecords now d records ∧
        used = records.flatMap RawRecord.bytes := by
  induction n generalizing d with
  | zero =>
    refine (decodes_pure d).congr fun d' used => ?_
    constructor
    · rintro ⟨rfl, rfl⟩
      exact ⟨[], rfl, rfl, rfl⟩
    · rintro ⟨records, hlen, rfl, rfl⟩
      rw [List.length_eq_zero_iff.mp hlen]
      exact ⟨rfl, rfl⟩
  | succ n ih =>
    refine (decodes_readRecord.bind fun p => ih
      (if isExpired p.2.expireAtMs now then d else d.insert p.1 p.2)).congr fun d' used => ?_
    constructor
    · rintro ⟨p, front, back, ⟨r, rfl, rfl⟩, ⟨records, hlen, rfl, rfl⟩, rfl⟩
      exact ⟨r :: records, by rw [List.length_cons, hlen], rfl, by rw [List.flatMap_cons]⟩
    · rintro ⟨records, hlen, rfl, rfl⟩
      obtain _ | ⟨r, records⟩ := records
      · cases hlen
      · exact ⟨(r.key.1, r.entry), r.bytes, records.flatMap RawRecord.bytes, ⟨r, rfl, rfl⟩,
          ⟨records, Nat.succ.inj hlen, rfl, rfl⟩, rfl⟩

/-! ## Files -/

/-- The end of a file.
SOURCE: persistence/rdb.py:176-188 -/
theorem readChecksum_iff {version : ℕ} (hversion : version = rdbLegacyVersion ∨
    version = rdbVersion) {body rest : Bytes} :
    readChecksum version body rest = .ok rdbFooter ↔
      rest = (if version = rdbLegacyVersion then [] else leBytes 4 (crc32 body).toNat) ++
        rdbFooter := by
  obtain rfl | rfl := hversion
  · rw [if_pos rfl, List.nil_append]
    constructor
    · intro h
      exact Except.ok.inj h
    · rintro rfl
      rfl
  · rw [if_neg (by decide)]
    constructor
    · intro h
      obtain ⟨raw, hlen, hvalue, rfl⟩ := readChecksum_eq_ok h
      rw [← hvalue, leBytes_leValue hlen]
    · rintro rfl
      exact readChecksum_body body rdbFooter

/-- The header of a file with its records is walked.
SOURCE: persistence/rdb.py:137-175 -/
theorem walked_iff {now : ℤ} {data rest : Bytes} {version : ℕ} {d : Entries}
    (hversion : version < 2 ^ 32) :
    Walked now data version d rest ↔ ∃ records : Counted RawRecord,
      data = rdbMagic ++ leBytes 4 version ++ leBytes 4 records.1.length ++
        records.1.flatMap RawRecord.bytes ++ rest ∧ d = storeRecords now Dict.empty records.1 := by
  constructor
  · rintro ⟨hlong, hmagic, hv, hrecords⟩
    obtain ⟨used, ⟨records, hlen, rfl, rfl⟩, hdata⟩ := (decodes_readRecords now _ _).iff.mp hrecords
    have hcount : leValue ((data.drop 8).take 4) < 2 ^ 32 := by
      have hlt := leValue_lt ((data.drop 8).take 4)
      rw [List.length_take, List.length_drop, Nat.min_eq_left (by omega)] at hlt
      exact hlt
    refine ⟨⟨records, hlen ▸ hcount⟩, ?_, rfl⟩
    have hfield : ∀ k, k + 4 ≤ 12 →
        leBytes 4 (leValue ((data.drop k).take 4)) = (data.drop k).take 4 := by
      intro k hk
      refine leBytes_leValue ?_
      rw [List.length_take, List.length_drop]
      omega
    show data = rdbMagic ++ leBytes 4 version ++ leBytes 4 records.length ++
      records.flatMap RawRecord.bytes ++ rest
    rw [hlen, ← hv, hfield 4 (by decide), hfield 8 (by decide), ← hmagic, List.append_assoc,
      List.append_assoc, List.append_assoc, ← hdata]
    rw [show data.drop 12 = (data.drop 8).drop 4 from by rw [List.drop_drop],
      List.take_append_drop, show data.drop 8 = (data.drop 4).drop 4 from by rw [List.drop_drop],
      List.take_append_drop, List.take_append_drop]
  · rintro ⟨records, rfl, rfl⟩
    have hcount : records.1.length < 256 ^ 4 := records.2
    have hv : version < 256 ^ 4 := hversion
    generalize hbody : records.1.flatMap RawRecord.bytes ++ rest = tail
    have hshape : rdbMagic ++ leBytes 4 version ++ leBytes 4 records.1.length ++
        records.1.flatMap RawRecord.bytes ++ rest =
        rdbMagic ++ (leBytes 4 version ++ (leBytes 4 records.1.length ++ tail)) := by
      rw [← hbody]
      simp only [List.append_assoc]
    have h4 : (rdbMagic ++ (leBytes 4 version ++ (leBytes 4 records.1.length ++ tail))).drop 4 =
        leBytes 4 version ++ (leBytes 4 records.1.length ++ tail) := List.drop_left' rfl
    have h8 : (rdbMagic ++ (leBytes 4 version ++ (leBytes 4 records.1.length ++ tail))).drop 8 =
        leBytes 4 records.1.length ++ tail := by
      rw [show 8 = 4 + 4 from rfl, ← List.drop_drop, h4, List.drop_left' (length_leBytes 4 _)]
    have h12 : (rdbMagic ++ (leBytes 4 version ++ (leBytes 4 records.1.length ++ tail))).drop 12 =
        tail := by
      rw [show 12 = 8 + 4 from rfl, ← List.drop_drop, h8, List.drop_left' (length_leBytes 4 _)]
    rw [hshape]
    refine ⟨?_, List.take_left' rfl, ?_, ?_⟩
    · simp only [List.length_append, length_leBytes, show rdbMagic.length = 4 from rfl]
      omega
    · rw [h4, List.take_left' (length_leBytes 4 _), leValue_leBytes_of_lt hv]
    · rw [h8, h12, List.take_left' (length_leBytes 4 _), leValue_leBytes_of_lt hcount]
      exact (decodes_readRecords now _ _).iff.mpr ⟨_, ⟨records.1, rfl, rfl, rfl⟩, hbody.symm⟩

/-- A file has one of the two versions. -/
theorem version_known (file : RdbFile) :
    file.version = rdbLegacyVersion ∨ file.version = rdbVersion := by
  unfold RdbFile.version
  split_ifs
  · exact Or.inl rfl
  · exact Or.inr rfl

/-- The version fits four bytes. -/
theorem version_lt (file : RdbFile) : file.version < 2 ^ 32 := by
  unfold RdbFile.version
  split_ifs
  · decide
  · decide

/-- The header and the records of a file, whatever follows them. -/
theorem walked_body (file : RdbFile) (now : ℤ) (rest : Bytes) :
    Walked now (file.body ++ rest) file.version (file.keyspace now) rest :=
  (walked_iff (version_lt file)).mpr ⟨file.records, rfl, rfl⟩

/-- What stands behind the body of a file is what the loader asks for there. -/
theorem readChecksum_file (file : RdbFile) {rest : Bytes} :
    readChecksum file.version file.body rest = .ok rdbFooter ↔
      file.body ++ rest = file.bytes := by
  have hlegacy : file.version = rdbLegacyVersion ↔ file.legacy = true := by
    unfold RdbFile.version
    split_ifs with h
    · exact iff_of_true rfl h
    · exact iff_of_false (by decide) h
  rw [readChecksum_iff (version_known file), RdbFile.bytes, List.append_assoc,
    List.append_cancel_left_eq]
  simp only [hlegacy]

/-- **`load_rdb_bytes` reads the format**: it accepts exactly the files of the format, of
either version, that are not too large, and loads the keyspace that the file describes at the
time of the load: the records in order, the last one of a key counting, less those that have
expired.
SOURCE: persistence/rdb.py:1-20, 128-188 -/
theorem load_reads_format (maxFileBytes : ℕ) (now : ℤ) (data : Bytes) (d : Entries) :
    loadRdbBytes maxFileBytes now data = .ok d ↔
      data.length ≤ maxFileBytes ∧ ∃ file : RdbFile, file.bytes = data ∧
        file.keyspace now = d := by
  constructor
  · intro h
    have hmax : data.length ≤ maxFileBytes := by
      by_contra hlarge
      rw [loadRdbBytes, if_pos (by omega)] at h
      cases h
    obtain ⟨version, rest, hversion, hwalked, hend⟩ := walked_of_loadRdbBytes h
    have hlt : version < 2 ^ 32 := by
      obtain rfl | rfl := hversion
      · decide
      · decide
    obtain ⟨records, hdata, rfl⟩ := (walked_iff hlt).mp hwalked
    obtain ⟨file, hfile, hrecords⟩ : ∃ file : RdbFile, file.version = version ∧
        file.records = records := by
      obtain rfl | rfl := hversion
      · exact ⟨⟨true, records⟩, rfl, rfl⟩
      · exact ⟨⟨false, records⟩, rfl, rfl⟩
    subst hfile hrecords
    have hbody : data = file.body ++ rest := hdata
    have htake : data.take (data.length - rest.length) = file.body := by
      rw [hbody, List.length_append, Nat.add_sub_cancel, List.take_left]
    rw [htake, readChecksum_file] at hend
    exact ⟨hmax, file, hend.symm.trans hbody.symm, rfl⟩
  · rintro ⟨hmax, file, rfl, rfl⟩
    obtain ⟨rest, hrest⟩ : ∃ rest, file.body ++ rest = file.bytes :=
      ⟨_, (List.append_assoc _ _ _).symm⟩
    have hend := (readChecksum_file file).mpr hrest
    rw [← hrest] at hmax ⊢
    rw [loadRdbBytes_of_walked (walked_body file now rest) (version_known file)
      hmax, List.length_append,
      Nat.add_sub_cancel, List.take_left, finish_of_readChecksum hend]

/-! ## Writing what was read -/

section Total

variable {κ ν : Type} [DecidableEq κ]

/-- Storing a value adds its size at most. -/
theorem total_insert_le (f : κ → ν → ℕ) (d : Dict κ ν) (k : κ) (v : ν) :
    (d.insert k v).total f ≤ d.total f + f k v := by
  have hold := Dict.total_split f d k
  have hnew := Dict.total_split f (d.insert k v) k
  rw [Dict.erase_insert, Dict.get?_insert_self] at hnew
  simp only [Option.elim_some] at hnew
  omega

/-- Entries that are inserted add at most their sizes. -/
theorem total_insertMany_le (f : κ → ν → ℕ) (d : Dict κ ν) (l : List (κ × ν)) :
    (d.insertMany l).total f ≤ d.total f + (l.map fun e => f e.1 e.2).sum := by
  induction l generalizing d with
  | nil => exact le_rfl
  | cons e l ih =>
    have hrest := ih (d.insert e.1 e.2)
    have hfirst := total_insert_le f d e.1 e.2
    rw [Dict.insertMany_cons, List.map_cons, List.sum_cons]
    omega

end Total

/-- The size of the record of an entry. -/
def recordSize (key : Bytes) (entry : KeyEntry) : ℕ :=
  13 + key.length + match entry.value with
    | .bytes b => 4 + b.length
    | .deque items => 4 + (items.map fun item => 4 + item.length).sum
    | .dict mapping => 4 + mapping.total fun field value => 8 + (field.length + value.length)

/-- Bytes are packed with their length of four bytes. -/
theorem length_packBytes {b p : Bytes} (h : packBytes b = some p) : p.length = 4 + b.length := by
  obtain ⟨raw, hraw, rfl⟩ := Option.map_eq_some_iff.mp h
  rw [List.length_append, (leValue_packU32 hraw).2]

/-- Each of the bytes is packed with its length. -/
theorem length_packMany {blobs : List Bytes} {p : Bytes} (h : packMany blobs = some p) :
    p.length = (blobs.map fun b => 4 + b.length).sum := by
  induction blobs generalizing p with
  | nil =>
    cases h
    rfl
  | cons b blobs ih =>
    obtain ⟨q, r, hq, hr, rfl⟩ := packMany_cons h
    rw [List.length_append, length_packBytes hq, ih hr, List.map_cons, List.sum_cons]

/-- SOURCE: persistence/rdb.py:83-109 -/
theorem length_packRecord {key : Bytes} {entry : KeyEntry} {p : Bytes}
    (h : packRecord key entry = some p) : p.length = recordSize key entry := by
  obtain ⟨k, hk, h⟩ := Option.bind_eq_some_iff.mp h
  obtain ⟨expire, hexpire, h⟩ := Option.bind_eq_some_iff.mp h
  obtain ⟨payload, hpayload, h⟩ := Option.bind_eq_some_iff.mp h
  cases h
  rw [List.length_append, List.length_append, List.length_append, length_packBytes hk,
    (unpackI64_packI64 hexpire).2, recordSize]
  cases hv : entry.value with
  | bytes b =>
    rw [hv] at hpayload
    rw [length_packBytes hpayload]
    simp only [List.length_singleton]
    omega
  | deque items =>
    rw [hv] at hpayload
    obtain ⟨count, hcount, hpayload⟩ := Option.bind_eq_some_iff.mp hpayload
    obtain ⟨body, hbody, hpayload⟩ := Option.bind_eq_some_iff.mp hpayload
    cases hpayload
    rw [List.length_append, (leValue_packU32 hcount).2, length_packMany hbody]
    simp only [List.length_singleton]
    omega
  | dict mapping =>
    rw [hv] at hpayload
    obtain ⟨count, hcount, hpayload⟩ := Option.bind_eq_some_iff.mp hpayload
    obtain ⟨body, hbody, hpayload⟩ := Option.bind_eq_some_iff.mp hpayload
    cases hpayload
    have hsum : ∀ pairs : List (Bytes × Bytes),
        ((pairs.flatMap fun p => [p.1, p.2]).map fun b => 4 + b.length).sum =
          (pairs.map fun p => 8 + (p.1.length + p.2.length)).sum := by
      intro pairs
      induction pairs with
      | nil => rfl
      | cons q pairs ih =>
        rw [List.flatMap_cons, List.map_append, List.sum_append, ih, List.map_cons, List.sum_cons]
        simp only [List.map_cons, List.map_nil, List.sum_cons, List.sum_nil]
        omega
    rw [List.length_append, (leValue_packU32 hcount).2, length_packMany hbody, hsum]
    simp only [List.length_singleton, Dict.total]
    omega

/-- The size of a dump: the header, the records, the checksum and the footer.
SOURCE: persistence/rdb.py:79-113 -/
theorem length_dumpRdbEntries {d : Entries} {rdb : Bytes} (h : dumpRdbEntries d = some rdb) :
    rdb.length = 20 + d.total recordSize := by
  obtain ⟨body, hbody, rfl⟩ := Option.map_eq_some_iff.mp h
  obtain ⟨v, count, records, hv, hcount, hrecords, rfl⟩ := rdbBody_eq_some hbody
  have hsum : ∀ {l : List (Bytes × KeyEntry)} {records : List Bytes},
      l.mapM (fun e => packRecord e.1 e.2) = some records →
        records.flatten.length = (l.map fun e => recordSize e.1 e.2).sum := by
    intro l
    induction l with
    | nil =>
      intro records hl
      cases hl
      rfl
    | cons e l ih =>
      intro records hl
      rw [List.mapM_cons] at hl
      obtain ⟨p, hp, hl⟩ := Option.bind_eq_some_iff.mp hl
      obtain ⟨ps, hps, hl⟩ := Option.bind_eq_some_iff.mp hl
      cases hl
      rw [List.flatten_cons, List.length_append, length_packRecord hp, ih hps, List.map_cons,
        List.sum_cons]
  simp only [List.length_append, (leValue_packU32 hv).2, (leValue_packU32 hcount).2, hsum hrecords,
    length_leBytes, show rdbMagic.length = 4 from rfl, show rdbFooter.length = 4 from rfl]
  rw [Dict.total]
  omega

/-- A blob has a length of four bytes in front. -/
theorem length_blob (b : Blob) : b.bytes.length = 4 + b.1.length := by
  show (leBytes 4 b.1.length ++ b.1).length = 4 + b.1.length
  rw [List.length_append, length_leBytes]

/-- A record is as large as that of its entry, but for fields it lists twice. -/
theorem recordSize_le (r : RawRecord) : recordSize r.key.1 r.entry ≤ r.bytes.length := by
  have hdeadline : r.expireAt.bytes.length = 8 := length_leBytes 8 _
  have hlength : r.bytes.length = 13 + r.key.1.length + r.value.bytes.length := by
    simp only [RawRecord.bytes, List.length_append, length_blob, hdeadline, List.length_singleton]
    omega
  rw [hlength, recordSize]
  show 13 + r.key.1.length + (match r.value.value with
    | .bytes b => 4 + b.length
    | .deque items => 4 + (items.map fun item => 4 + item.length).sum
    | .dict mapping => 4 + mapping.total fun field value => 8 + (field.length + value.length)) ≤ _
  refine Nat.add_le_add_left ?_ _
  cases r.value with
  | string b => exact (length_blob b).ge
  | list items =>
    show 4 + ((items.1.map Blob.data).map fun item => 4 + item.length).sum ≤
      (leBytes 4 items.1.length ++ items.1.flatMap Blob.bytes).length
    rw [List.length_append, length_leBytes, List.length_flatMap, List.map_map]
    refine (Nat.add_le_add_left (le_of_eq ?_) 4)
    exact congrArg List.sum (List.map_congr_left fun b _ => (length_blob b).symm)
  | hash fields =>
    show 4 + (Dict.empty.insertMany (pairsOf fields.1)).total
        (fun field value => 8 + (field.length + value.length)) ≤
      (leBytes 4 fields.1.length ++ fieldBytes fields.1).length
    have htotal := total_insertMany_le
      (fun field value : Bytes => 8 + (field.length + value.length)) Dict.empty (pairsOf fields.1)
    have hsum : ((pairsOf fields.1).map fun e => 8 + (e.1.length + e.2.length)).sum =
        (fieldBytes fields.1).length := by
      rw [fieldBytes, List.length_flatMap, pairsOf, List.map_map]
      refine congrArg List.sum (List.map_congr_left fun p _ => ?_)
      rw [List.length_append, length_blob, length_blob]
      show 8 + (p.1.1.length + p.2.1.length) = _
      omega
    have hempty : (Dict.empty : Dict Bytes Bytes).total
        (fun field value => 8 + (field.length + value.length)) = 0 := rfl
    rw [List.length_append, length_leBytes]
    omega

/-- The records that are stored take no more than those that are read. -/
theorem total_storeRecords_le (now : ℤ) (d : Entries) (records : List RawRecord) :
    (storeRecords now d records).total recordSize ≤
      d.total recordSize + (records.flatMap RawRecord.bytes).length := by
  induction records generalizing d with
  | nil => exact le_rfl
  | cons r records ih =>
    have hrest := ih (if isExpired r.entry.expireAtMs now then d else d.insert r.key.1 r.entry)
    have hfirst := total_insert_le recordSize d r.key.1 r.entry
    have hrecord := recordSize_le r
    rw [List.flatMap_cons, List.length_append]
    show (storeRecords now (if isExpired r.entry.expireAtMs now then d
      else d.insert r.key.1 r.entry) records).total recordSize ≤ _
    split_ifs at hrest ⊢
    · omega
    · omega

/-- An entry that is stored is that of a record. -/
theorem mem_storeRecords {now : ℤ} {d : Entries} {records : List RawRecord}
    {e : Bytes × KeyEntry} (h : e ∈ (storeRecords now d records).entries) :
    e ∈ d.entries ∨ ∃ r ∈ records, e = (r.key.1, r.entry) := by
  induction records generalizing d with
  | nil => exact Or.inl h
  | cons r records ih =>
    obtain hmem | ⟨r', hr', he⟩ := ih h
    · have hfirst : e ∈ (if isExpired r.entry.expireAtMs now then d
          else d.insert r.key.1 r.entry).entries := hmem
      split_ifs at hfirst
      · exact Or.inl hfirst
      · obtain rfl | hold := Dict.mem_entries_insert hfirst
        · exact Or.inr ⟨r, List.mem_cons_self, rfl⟩
        · exact Or.inl hold
    · exact Or.inr ⟨r', List.mem_cons_of_mem r hr', he⟩

/-- A record adds at most one key. -/
theorem size_storeRecords_le (now : ℤ) (d : Entries) (records : List RawRecord) :
    (storeRecords now d records).size ≤ d.size + records.length := by
  have hsize : ∀ d : Entries, d.size = d.total fun _ _ => 1 := by
    intro d
    simp [Dict.size, Dict.total]
  induction records generalizing d with
  | nil => exact le_rfl
  | cons r records ih =>
    have hrest := ih (if isExpired r.entry.expireAtMs now then d else d.insert r.key.1 r.entry)
    have hfirst := total_insert_le (fun _ _ => 1) d r.key.1 r.entry
    rw [← hsize, ← hsize] at hfirst
    rw [List.length_cons]
    show (storeRecords now (if isExpired r.entry.expireAtMs now then d
      else d.insert r.key.1 r.entry) records).size ≤ _
    split_ifs at hrest ⊢
    · omega
    · omega

/-- The entry of a record has a value the format has room for. -/
theorem measured_entry (r : RawRecord) : Measured r.entry.value := by
  show Measured r.value.value
  cases r.value with
  | string b => exact b.fits
  | list blobs =>
    refine ⟨by rw [List.length_map]; exact blobs.fits, fun a ha => ?_⟩
    obtain ⟨b, -, rfl⟩ := List.mem_map.mp ha
    exact b.fits
  | hash fields =>
    have hsize : (Dict.empty.insertMany (pairsOf fields.items)).entries.length ≤
        fields.items.length := by
      have htotal := total_insertMany_le (fun _ _ : Bytes => 1) Dict.empty (pairsOf fields.items)
      have hempty : (Dict.empty : Dict Bytes Bytes).total (fun _ _ => 1) = 0 := rfl
      simpa [Dict.total, pairsOf, hempty, Function.comp_def] using htotal
    refine ⟨hsize.trans_lt fields.fits, fun p hp => ?_⟩
    obtain hp | hp := Dict.mem_entries_insertMany hp
    · obtain ⟨q, -, rfl⟩ := List.mem_map.mp hp
      exact ⟨q.1.fits, q.2.fits⟩
    · cases hp

/-- A deadline that was read is not negative and fits eight bytes. -/
theorem deadline_entry (r : RawRecord) {t : ℤ} (h : r.entry.expireAtMs = some t) :
    0 ≤ t ∧ t < 2 ^ 63 := by
  have hentry : (if r.expireAt.ms < 0 then none else some r.expireAt.ms) = some t := h
  split_ifs at hentry with hneg
  cases hentry
  exact ⟨not_lt.mp hneg, r.expireAt.fits.2⟩

/-- **What was loaded can be saved.** Whatever file was accepted, of either version and with
keys or fields listed twice, the keyspace it brought can be dumped, in no more bytes than the
file had but for the four of the checksum that a legacy file lacks; and the dump is read back
as the same keyspace, less what has expired by then.
SOURCE: persistence/rdb.py:79-188 -/
theorem load_then_dump {maxFileBytes : ℕ} {now : ℤ} {data : Bytes} {d : Entries}
    (h : loadRdbBytes maxFileBytes now data = .ok d) :
    ∃ rdb, dumpRdbEntries d = some rdb ∧
      rdb.length ≤ data.length + (if leValue ((data.drop 4).take 4) = rdbLegacyVersion then 4
        else 0) ∧
      ∀ limit later, rdb.length ≤ limit → loadRdbBytes limit later rdb = .ok (liveAt later d) := by
  obtain ⟨-, file, rfl, rfl⟩ := (load_reads_format maxFileBytes now data d).mp h
  have hrecord : ∀ e ∈ (file.keyspace now).entries, ∃ r ∈ file.records.items,
      e = (r.key.data, r.entry) := by
    intro e he
    obtain hnone | hr := mem_storeRecords he
    · cases hnone
    · exact hr
  have hsized : Sized (file.keyspace now) := by
    refine ⟨?_, fun e he => ?_, fun e he => ?_⟩
    · have hsize := size_storeRecords_le now Dict.empty file.records.items
      have hempty : (Dict.empty : Entries).size = 0 := rfl
      rw [hempty, Nat.zero_add] at hsize
      exact hsize.trans_lt file.records.fits
    · obtain ⟨r, -, rfl⟩ := hrecord e he
      exact r.key.fits
    · obtain ⟨r, -, rfl⟩ := hrecord e he
      exact measured_entry r
  have hdeadline : ∀ e ∈ (file.keyspace now).entries, ∀ t, e.2.expireAtMs = some t →
      0 ≤ t ∧ t < 2 ^ 63 := by
    intro e he t ht
    obtain ⟨r, -, rfl⟩ := hrecord e he
    exact deadline_entry r ht
  obtain ⟨rdb, hdump⟩ := exists_dumpRdbEntries hsized fun e he t ht =>
    ⟨(hdeadline e he t ht).1.trans' (by decide), (hdeadline e he t ht).2⟩
  refine ⟨rdb, hdump, ?_, fun limit later hlimit => ?_⟩
  · have htotal := total_storeRecords_le now Dict.empty file.records.items
    have hempty : (Dict.empty : Entries).total recordSize = 0 := rfl
    have hlength := length_dumpRdbEntries hdump
    rw [RdbFile.keyspace] at hlength
    have hversion : leValue ((file.bytes.drop 4).take 4) = file.version := by
      have hwalked := walked_body file now
        ((if file.legacy then [] else leBytes 4 (crc32 file.body).toNat) ++ rdbFooter)
      rw [← List.append_assoc] at hwalked
      exact hwalked.version
    have hbody : file.body.length =
        12 + (file.records.items.flatMap RawRecord.bytes).length := by
      simp only [RdbFile.body, List.length_append, length_leBytes,
        show rdbMagic.length = 4 from rfl]
    have hbytes : file.bytes.length =
        file.body.length + (if file.legacy then 0 else 4) + 4 := by
      rw [RdbFile.bytes, List.length_append, List.length_append,
        show rdbFooter.length = 4 from rfl]
      split_ifs
      · rfl
      · rw [length_leBytes]
    rw [hversion, hbytes, hbody]
    cases hl : file.legacy with
    | true =>
      rw [show file.version = rdbLegacyVersion from if_pos hl]
      simp only [if_true]
      omega
    | false =>
      simp only [Bool.false_eq_true, if_false]
      omega
  · exact loadRdbBytes_dumpRdbEntries hdump hlimit
      (fun e he t ht => (hdeadline e he t ht).1) later

/-- A legacy file that lists a key twice, first with `1` and then with `2`. -/
def doubledFile : Bytes :=
  let record (value : UInt8) : Bytes := leBytes 4 1 ++ ascii "k" ++ [1] ++
    leBytes 8 (2 ^ 64 - 1) ++ leBytes 4 1 ++ [value]
  rdbMagic ++ leBytes 4 1 ++ leBytes 4 2 ++ record 49 ++ record 50 ++ rdbFooter

/-- It is loaded, and saved in 39 bytes instead of 54. -/
theorem load_then_dump_doubled :
    ∃ d rdb, loadRdbBytes 100 0 doubledFile = .ok d ∧
      d.entries.map (fun e => (e.1, e.2.value)) = [(ascii "k", .bytes (ascii "2"))] ∧
      dumpRdbEntries d = some rdb ∧ rdb.length ≤ doubledFile.length + 4 ∧
      loadRdbBytes 1000 7 rdb = .ok (liveAt 7 d) := by
  have hvalues : (loadRdbBytes 100 0 doubledFile).toOption.map
      (fun d => d.entries.map fun e => (e.1, e.2.value)) =
        some [(ascii "k", .bytes (ascii "2"))] := by decide +kernel
  cases hload : loadRdbBytes 100 0 doubledFile with
  | error e =>
    rw [hload] at hvalues
    cases hvalues
  | ok d =>
    rw [hload] at hvalues
    obtain ⟨rdb, hdump, hlength, hback⟩ := load_then_dump hload
    have hversion : leValue ((doubledFile.drop 4).take 4) = rdbLegacyVersion := by decide +kernel
    have hsize : doubledFile.length = 54 := by decide +kernel
    rw [if_pos hversion] at hlength
    exact ⟨d, rdb, rfl, Option.some.inj hvalues, hdump, hlength, hback 1000 7 (by omega)⟩

end ByoRedis.Analysis
