import ByoRedis.Model.Rdb
import ByoRedis.Lib.Dict
import Mathlib.Tactic.Ring

/-!
# A snapshot is read back

`loadRdbBytes_dumpRdbEntries`: what `dump_rdb_entries` writes, `load_rdb_bytes` reads back
in order, less the entries that have expired by the time of the load. Each reader undoes
its packer in front of arbitrary further bytes; the lemmas follow the layout of the
format from the integers up to the record loop.
-/

set_option autoImplicit false

namespace ByoRedis.Analysis

open ByoRedis.Model ByoRedis.Lib

/-! ## Integers -/

/-- A field has its length. -/
theorem length_leBytes (k n : ℕ) : (leBytes k n).length = k := by
  induction k generalizing n with
  | zero => rfl
  | succ k ih => simp [leBytes, ih]

/-- SOURCE: persistence/rdb.py:59-66 -/
theorem leValue_leBytes (k n : ℕ) : leValue (leBytes k n) = n % 256 ^ k := by
  induction k generalizing n with
  | zero => simp [leBytes, leValue, Nat.mod_one]
  | succ k ih =>
    have hbyte : (UInt8.ofNat (n % 256)).toNat = n % 256 := by
      rw [UInt8.toNat_ofNat']
      omega
    rw [leBytes, leValue, ih, hbyte, pow_succ, Nat.mul_comm (256 ^ k) 256, Nat.mod_mul]

/-- A 64-bit number is read back from its eight bytes. -/
theorem unpackI64_packI64 {i : ℤ} {raw : Bytes} (h : packI64 i = some raw) :
    unpackI64 raw = i ∧ raw.length = 8 := by
  unfold packI64 at h
  split_ifs at h with hr
  cases h
  refine ⟨?_, length_leBytes _ _⟩
  have hlt : (i % 2 ^ 64).toNat < 256 ^ 8 := by
    have h1 : 0 ≤ i % 2 ^ 64 := Int.emod_nonneg i (by decide)
    have h2 : i % 2 ^ 64 < 2 ^ 64 := Int.emod_lt_of_pos i (by decide)
    omega
  unfold unpackI64
  simp only [leValue_leBytes, Nat.mod_eq_of_lt hlt]
  split_ifs with hs
  · omega
  · omega

/-- The bytes in front are read. -/
theorem readExact_append (a rest : Bytes) : readExact a.length (a ++ rest) = .ok (a, rest) := by
  simp [readExact]

/-- A 32-bit number is read back from its four bytes. -/
theorem leValue_packU32 {n : ℕ} {raw : Bytes} (h : packU32 n = some raw) :
    leValue raw = n ∧ raw.length = 4 := by
  unfold packU32 at h
  split_ifs at h with hn
  cases h
  refine ⟨?_, length_leBytes _ _⟩
  rw [leValue_leBytes]
  exact Nat.mod_eq_of_lt hn

/-- SOURCE: persistence/rdb.py:59-61 -/
theorem readU32_packU32 {n : ℕ} {raw : Bytes} (h : packU32 n = some raw) (rest : Bytes) :
    readU32 (raw ++ rest) = .ok (n, rest) := by
  obtain ⟨hv, hl⟩ := leValue_packU32 h
  have hx := readExact_append raw rest
  rw [hl] at hx
  simp only [readU32, hx, bind, Except.bind, pure, Except.pure, hv]

/-- SOURCE: persistence/rdb.py:64-66 -/
theorem readI64_packI64 {i : ℤ} {raw : Bytes} (h : packI64 i = some raw) (rest : Bytes) :
    readI64 (raw ++ rest) = .ok (i, rest) := by
  obtain ⟨hv, hl⟩ := unpackI64_packI64 h
  have hx := readExact_append raw rest
  rw [hl] at hx
  simp only [readI64, hx, bind, Except.bind, pure, Except.pure, hv]

/-! ## Blobs -/

/-- SOURCE: persistence/rdb.py:48-49, 69-71 -/
theorem readBlob_packBytes {data p : Bytes} (h : packBytes data = some p) (rest : Bytes) :
    readBlob (p ++ rest) = .ok (data, rest) := by
  obtain ⟨raw, hraw, rfl⟩ := Option.map_eq_some_iff.mp h
  rw [List.append_assoc]
  simp only [readBlob, readU32_packU32 hraw, bind, Except.bind, readExact_append]

/-- Blobs packed one after the other come apart again. -/
theorem packMany_cons {b : Bytes} {bs : List Bytes} {p : Bytes}
    (h : packMany (b :: bs) = some p) :
    ∃ q r, packBytes b = some q ∧ packMany bs = some r ∧ p = q ++ r := by
  obtain ⟨parts, hparts, rfl⟩ := Option.map_eq_some_iff.mp h
  rw [List.mapM_cons] at hparts
  obtain ⟨q, hq, hparts⟩ := Option.bind_eq_some_iff.mp hparts
  obtain ⟨qs, hqs, hparts⟩ := Option.bind_eq_some_iff.mp hparts
  cases hparts
  exact ⟨q, qs.flatten, hq, by rw [packMany, hqs]; rfl, by simp⟩

/-- SOURCE: persistence/rdb.py:156-160 -/
theorem readListItems_packMany {items : List Bytes} {p : Bytes} (h : packMany items = some p)
    (rest : Bytes) : readListItems items.length (p ++ rest) = .ok (items, rest) := by
  induction items generalizing p with
  | nil =>
    cases h
    rfl
  | cons b items ih =>
    obtain ⟨q, r, hq, hr, rfl⟩ := packMany_cons h
    rw [List.length_cons, List.append_assoc]
    simp only [readListItems, readBlob_packBytes hq, bind, Except.bind, ih hr, pure, Except.pure]

/-- SOURCE: persistence/rdb.py:163-168 -/
theorem readHashItems_packMany {pairs : List (Bytes × Bytes)} {p : Bytes}
    (h : packMany (pairs.flatMap fun q => [q.1, q.2]) = some p) (mapping : Dict Bytes Bytes)
    (rest : Bytes) :
    readHashItems pairs.length mapping (p ++ rest) = .ok (mapping.insertMany pairs, rest) := by
  induction pairs generalizing p mapping with
  | nil =>
    cases h
    rfl
  | cons q pairs ih =>
    rw [List.flatMap_cons, List.cons_append, List.singleton_append] at h
    obtain ⟨p1, r1, h1, hr1, rfl⟩ := packMany_cons h
    obtain ⟨p2, r2, h2, hr2, rfl⟩ := packMany_cons hr1
    rw [List.length_cons, List.append_assoc, List.append_assoc]
    simp only [readHashItems, readBlob_packBytes h1, readBlob_packBytes h2, bind, Except.bind,
      ih hr2, Dict.insertMany_cons]

/-! ## Records -/

/-- The payload of an entry is read back, whatever the deadline.
SOURCE: persistence/rdb.py:95-109, 152-171 -/
theorem readEntry_packValue {entry : KeyEntry} {p : Bytes} (h : packValue entry.value = some p)
    (rest : Bytes) : readEntry entry.type.id entry.expireAtMs (p ++ rest) = .ok (entry, rest) := by
  obtain ⟨type, value, expireAtMs, typed⟩ := entry
  subst typed
  cases value with
  | bytes b =>
    have hb := readBlob_packBytes h rest
    simp only [readEntry, RedisValue.type, RedisType.id, if_true, hb, bind, Except.bind, pure,
      Except.pure]
  | deque items =>
    obtain ⟨count, hcount, h⟩ := Option.bind_eq_some_iff.mp h
    obtain ⟨body, hbody, h⟩ := Option.bind_eq_some_iff.mp h
    cases h
    have h1 : ¬ (RedisType.list.id = RedisType.string.id) := by decide
    rw [List.append_assoc]
    simp only [readEntry, RedisValue.type, if_neg h1, if_true, readU32_packU32 hcount, bind,
      Except.bind, readListItems_packMany hbody, pure, Except.pure]
  | dict mapping =>
    obtain ⟨count, hcount, h⟩ := Option.bind_eq_some_iff.mp h
    obtain ⟨body, hbody, h⟩ := Option.bind_eq_some_iff.mp h
    cases h
    have h1 : ¬ (RedisType.hash.id = RedisType.string.id) := by decide
    have h2 : ¬ (RedisType.hash.id = RedisType.list.id) := by decide
    rw [List.append_assoc]
    simp only [readEntry, RedisValue.type, if_neg h1, if_neg h2, if_true,
      readU32_packU32 hcount, bind, Except.bind, readHashItems_packMany hbody, pure,
      Except.pure, Dict.insertMany_entries]

/-- A deadline, if there is one, is not negative: the format uses -1 for none. -/
def NonNegDeadline (entry : KeyEntry) : Prop := ∀ d, entry.expireAtMs = some d → 0 ≤ d

/-- The entry that the record of `entry` stands for: a negative deadline is lost. -/
def restored (entry : KeyEntry) : KeyEntry :=
  { entry with
    expireAtMs := if entry.expireAtMs.getD (-1) < 0 then none
      else some (entry.expireAtMs.getD (-1)) }

/-- A deadline that is not negative is restored as it was. -/
theorem restored_of_nonNeg {entry : KeyEntry} (hd : NonNegDeadline entry) :
    restored entry = entry := by
  refine KeyEntry.ext' rfl ?_
  simp only [restored]
  cases hx : entry.expireAtMs with
  | none => rfl
  | some d =>
    have := hd d hx
    simp only [Option.getD_some]
    rw [if_neg (by omega)]

/-- SOURCE: persistence/rdb.py:83-109, 146-171 -/
theorem readRecord_packRecord {key : Bytes} {entry : KeyEntry} {p : Bytes}
    (h : packRecord key entry = some p) (rest : Bytes) :
    readRecord (p ++ rest) = .ok ((key, restored entry), rest) := by
  obtain ⟨k, hk, h⟩ := Option.bind_eq_some_iff.mp h
  obtain ⟨expire, hexpire, h⟩ := Option.bind_eq_some_iff.mp h
  obtain ⟨payload, hpayload, h⟩ := Option.bind_eq_some_iff.mp h
  cases h
  have htype : readExact 1 ([entry.type.id] ++ (expire ++ (payload ++ rest))) =
      .ok ([entry.type.id], expire ++ (payload ++ rest)) := readExact_append [entry.type.id] _
  have hentry := @readEntry_packValue (restored entry) payload hpayload rest
  rw [List.append_assoc, List.append_assoc, List.append_assoc]
  simp only [readRecord, readBlob_packBytes hk, bind, Except.bind, htype,
    readI64_packI64 hexpire, List.headD_cons]
  simp only [restored] at hentry ⊢
  rw [hentry]
  rfl

/-- The entries of a list that have not expired. -/
def unexpired (now : ℤ) (l : List (Bytes × KeyEntry)) : List (Bytes × KeyEntry) :=
  l.filter fun e => !isExpired e.2.expireAtMs now

/-- SOURCE: persistence/rdb.py:144-175 -/
theorem readRecords_packRecord (now : ℤ) {l : List (Bytes × KeyEntry)} {records : List Bytes}
    (h : l.mapM (fun e => packRecord e.1 e.2) = some records) (entries : Entries) (rest : Bytes) :
    readRecords now l.length entries (records.flatten ++ rest) =
      .ok (entries.insertMany (unexpired now (l.map fun e => (e.1, restored e.2))), rest) := by
  induction l generalizing records entries with
  | nil =>
    rw [List.mapM_nil] at h
    cases h
    rfl
  | cons e l ih =>
    rw [List.mapM_cons] at h
    obtain ⟨p, hp, h⟩ := Option.bind_eq_some_iff.mp h
    obtain ⟨ps, hps, h⟩ := Option.bind_eq_some_iff.mp h
    cases h
    have hrec := readRecord_packRecord hp (ps.flatten ++ rest)
    rw [List.length_cons, List.flatten_cons, List.append_assoc]
    simp only [readRecords, hrec, bind, Except.bind]
    cases hx : isExpired (restored e.2).expireAtMs now with
    | true =>
      simp only [if_true]
      rw [ih hps, unexpired, unexpired, List.map_cons, List.filter_cons_of_neg (by simp [hx])]
    | false =>
      simp only [Bool.false_eq_true, if_false]
      rw [ih hps, unexpired, unexpired, List.map_cons, List.filter_cons_of_pos (by simp [hx]),
        Dict.insertMany_cons]

/-! ## Files -/

/-- The parts of the body of a file. -/
theorem rdbBody_eq_some {version : ℕ} {entries : Entries} {body : Bytes}
    (h : rdbBody version entries = some body) :
    ∃ v count records, packU32 version = some v ∧ packU32 entries.entries.length = some count ∧
      entries.entries.mapM (fun e => packRecord e.1 e.2) = some records ∧
      body = rdbMagic ++ v ++ count ++ records.flatten := by
  obtain ⟨v, hv, h⟩ := Option.bind_eq_some_iff.mp h
  obtain ⟨count, hcount, h⟩ := Option.bind_eq_some_iff.mp h
  obtain ⟨records, hrecords, h⟩ := Option.bind_eq_some_iff.mp h
  exact ⟨v, count, records, hv, hcount, hrecords, (Option.some.inj h).symm⟩

/-- Header and records of `data` have been read: it claims the version, holds the entries,
and `rest` is what follows them.
SOURCE: persistence/rdb.py:137-175 -/
structure Walked (now : ℤ) (data : Bytes) (version : ℕ) (entries : Entries) (rest : Bytes) :
    Prop where
  long : 12 ≤ data.length
  magic : data.take 4 = rdbMagic
  version : leValue ((data.drop 4).take 4) = version
  records : readRecords now (leValue ((data.drop 8).take 4)) Dict.empty (data.drop 12) =
    .ok (entries, rest)

/-- The end of `load_rdb_bytes`: checksum, footer and nothing after it.
SOURCE: persistence/rdb.py:176-188 -/
def finish (version : ℕ) (body : Bytes) (entries : Entries) (rest : Bytes) :
    Except RdbError Entries := do
  let rest ← readChecksum version body rest
  let (footer, rest) ← readExact rdbFooter.length rest
  if footer ≠ rdbFooter then .error .missingFooter
  else if rest ≠ [] then .error .trailingBytes
  else pure entries

/-- A buffer of four bytes has a number in front. -/
theorem readU32_of_le {buf : Bytes} (h : 4 ≤ buf.length) :
    readU32 buf = .ok (leValue (buf.take 4), buf.drop 4) := by
  simp only [readU32, readExact, if_neg (Nat.not_lt.mpr h), bind, Except.bind, pure, Except.pure]

/-- What `load_rdb_bytes` makes of a file whose records it can read.
SOURCE: persistence/rdb.py:128-188 -/
theorem loadRdbBytes_of_walked {now : ℤ} {data rest : Bytes} {version maxFileBytes : ℕ}
    {entries : Entries} (h : Walked now data version entries rest)
    (hversion : version = rdbLegacyVersion ∨ version = rdbVersion)
    (hmax : data.length ≤ maxFileBytes) :
    loadRdbBytes maxFileBytes now data =
      finish version (data.take (data.length - rest.length)) entries rest := by
  obtain ⟨hlong, hmagic, hv, hrecords⟩ := h
  have h4 : readExact 4 data = .ok (rdbMagic, data.drop 4) := by
    rw [readExact, if_neg (by omega), hmagic]
  have h8 : readU32 (data.drop 4) = .ok (version, data.drop 8) := by
    rw [readU32_of_le (by rw [List.length_drop]; omega), hv, List.drop_drop]
  have h12 : readU32 (data.drop 8) = .ok (leValue ((data.drop 8).take 4), data.drop 12) := by
    rw [readU32_of_le (by rw [List.length_drop]; omega), List.drop_drop]
  have hknown : ¬ (version ≠ rdbLegacyVersion ∧ version ≠ rdbVersion) := by
    rintro ⟨h1, h2⟩
    exact hversion.elim h1 h2
  unfold loadRdbBytes finish
  rw [if_neg (by omega), if_neg (by omega)]
  simp only [h4, bind, Except.bind, ne_eq, not_true_eq_false, if_false, h8, h12]
  rw [if_neg hknown]
  simp only [hrecords]

/-- The body that `dump_rdb_entries` writes is walked, whatever follows it.
SOURCE: persistence/rdb.py:79-109, 137-175 -/
theorem walked_rdbBody {version : ℕ} {entries : Entries} {body : Bytes}
    (h : rdbBody version entries = some body) (now : ℤ) (rest : Bytes) :
    Walked now (body ++ rest) version (Dict.empty.insertMany
      (unexpired now (entries.entries.map fun e => (e.1, restored e.2)))) rest := by
  obtain ⟨v, count, records, hv, hcount, hrecords, rfl⟩ := rdbBody_eq_some h
  obtain ⟨hvalue, hvlen⟩ := leValue_packU32 hv
  obtain ⟨hcvalue, hclen⟩ := leValue_packU32 hcount
  have hmlen : rdbMagic.length = 4 := rfl
  have hshape : rdbMagic ++ v ++ count ++ records.flatten ++ rest =
      rdbMagic ++ (v ++ (count ++ (records.flatten ++ rest))) := by
    simp only [List.append_assoc]
  rw [hshape]
  have h4 : (rdbMagic ++ (v ++ (count ++ (records.flatten ++ rest)))).drop 4 =
      v ++ (count ++ (records.flatten ++ rest)) := List.drop_left' hmlen
  have h8 : (rdbMagic ++ (v ++ (count ++ (records.flatten ++ rest)))).drop 8 =
      count ++ (records.flatten ++ rest) := by
    rw [show 8 = 4 + 4 from rfl, ← List.drop_drop, h4, List.drop_left' hvlen]
  have h12 : (rdbMagic ++ (v ++ (count ++ (records.flatten ++ rest)))).drop 12 =
      records.flatten ++ rest := by
    rw [show 12 = 8 + 4 from rfl, ← List.drop_drop, h8, List.drop_left' hclen]
  refine ⟨?_, List.take_left' hmlen, ?_, ?_⟩
  · simp only [List.length_append, hmlen, hvlen, hclen]
    omega
  · rw [h4, List.take_left' hvlen, hvalue]
  · rw [h8, h12, List.take_left' hclen, hcvalue]
    exact readRecords_packRecord now hrecords Dict.empty rest

/-- What follows the checked body of a version 2 file. -/
theorem readChecksum_body (body rest : Bytes) :
    readChecksum rdbVersion body (leBytes 4 (crc32 body).toNat ++ rest) = .ok rest := by
  have hx := readExact_append (leBytes 4 (crc32 body).toNat) rest
  rw [length_leBytes] at hx
  have hv : leValue (leBytes 4 (crc32 body).toNat) = (crc32 body).toNat := by
    rw [leValue_leBytes]
    exact Nat.mod_eq_of_lt (UInt32.toNat_lt _)
  have h2 : 2 ≤ rdbVersion := by decide
  simp only [readChecksum, if_pos h2, hx, bind, Except.bind, hv, ne_eq, not_true_eq_false,
    if_false, pure, Except.pure]

/-- With the right checksum and the footer a load ends well. -/
theorem finish_of_readChecksum {version : ℕ} {body rest : Bytes} {entries : Entries}
    (h : readChecksum version body rest = .ok rdbFooter) :
    finish version body entries rest = .ok entries := by
  have hfoot : readExact rdbFooter.length rdbFooter = .ok (rdbFooter, []) := by
    simpa using readExact_append rdbFooter []
  simp only [finish, h, bind, Except.bind, hfoot, ne_eq, not_true_eq_false, if_false, pure,
    Except.pure]

/-- A body with deadlines that are not negative is restored, less what has expired. -/
theorem insertMany_restored {entries : Entries} (hd : ∀ e ∈ entries.entries, NonNegDeadline e.2)
    (now : ℤ) :
    Dict.empty.insertMany (unexpired now (entries.entries.map fun e => (e.1, restored e.2))) =
      entries.filter fun _ e => !isExpired e.expireAtMs now := by
  have hmap : (entries.entries.map fun e => (e.1, restored e.2)) = entries.entries := by
    rw [List.map_congr_left fun e he => by rw [restored_of_nonNeg (hd e he)], List.map_id']
  have hself := Dict.insertMany_entries (entries.filter fun _ e => !isExpired e.expireAtMs now)
  rw [Dict.entries_filter] at hself
  rw [hmap]
  exact hself

/-- A file whose end checks is loaded, less what has expired by the time of the load. -/
theorem loadRdbBytes_rdbBody {version : ℕ} {entries : Entries} {body rest : Bytes}
    {maxFileBytes : ℕ} (h : rdbBody version entries = some body)
    (hversion : version = rdbLegacyVersion ∨ version = rdbVersion)
    (hrest : readChecksum version body rest = .ok rdbFooter)
    (hlen : (body ++ rest).length ≤ maxFileBytes)
    (hd : ∀ e ∈ entries.entries, NonNegDeadline e.2) (now : ℤ) :
    loadRdbBytes maxFileBytes now (body ++ rest) =
      .ok (entries.filter fun _ e => !isExpired e.expireAtMs now) := by
  have hcut : (body ++ rest).take ((body ++ rest).length - rest.length) = body := by
    rw [List.length_append, Nat.add_sub_cancel, List.take_left]
  rw [loadRdbBytes_of_walked (walked_rdbBody h now rest) hversion hlen, hcut,
    finish_of_readChecksum hrest, insertMany_restored hd]

/-- **A dump is read back**, less what has expired by the time of the load.
SOURCE: persistence/rdb.py:79-113, 128-188 -/
theorem loadRdbBytes_dumpRdbEntries {entries : Entries} {rdb : Bytes} {maxFileBytes : ℕ}
    (h : dumpRdbEntries entries = some rdb) (hlen : rdb.length ≤ maxFileBytes)
    (hd : ∀ e ∈ entries.entries, NonNegDeadline e.2) (now : ℤ) :
    loadRdbBytes maxFileBytes now rdb =
      .ok (entries.filter fun _ e => !isExpired e.expireAtMs now) := by
  obtain ⟨body, hbody, rfl⟩ := Option.map_eq_some_iff.mp h
  rw [List.append_assoc] at hlen ⊢
  exact loadRdbBytes_rdbBody hbody (Or.inr rfl) (readChecksum_body body rdbFooter) hlen hd now

/-! ## Which keyspaces can be written -/

/-- A value whose lengths and counts are unsigned 32-bit numbers. -/
def Measured : RedisValue → Prop
  | .bytes b => b.length < 2 ^ 32
  | .deque items => items.length < 2 ^ 32 ∧ ∀ a ∈ items, a.length < 2 ^ 32
  | .dict mapping => mapping.entries.length < 2 ^ 32 ∧
    ∀ p ∈ mapping.entries, p.1.length < 2 ^ 32 ∧ p.2.length < 2 ^ 32

instance : DecidablePred Measured
  | .bytes b => inferInstanceAs (Decidable (b.length < 2 ^ 32))
  | .deque items =>
    inferInstanceAs (Decidable (items.length < 2 ^ 32 ∧ ∀ a ∈ items, a.length < 2 ^ 32))
  | .dict mapping => inferInstanceAs (Decidable (mapping.entries.length < 2 ^ 32 ∧
    ∀ p ∈ mapping.entries, p.1.length < 2 ^ 32 ∧ p.2.length < 2 ^ 32))

/-- A keyspace whose lengths and counts are unsigned 32-bit numbers. -/
structure Sized (entries : Entries) : Prop where
  count : entries.size < 2 ^ 32
  keys : ∀ e ∈ entries.entries, e.1.length < 2 ^ 32
  values : ∀ e ∈ entries.entries, Measured e.2.value

/-- A deadline the format has room for. -/
def StorableDeadline (entry : KeyEntry) : Prop :=
  ∀ d, entry.expireAtMs = some d → -2 ^ 63 ≤ d ∧ d < 2 ^ 63

/-- A list is packed when its elements are. -/
theorem exists_mapM {α β : Type} {f : α → Option β} {l : List α}
    (h : ∀ a ∈ l, ∃ b, f a = some b) : ∃ bs, l.mapM f = some bs := by
  induction l with
  | nil => exact ⟨[], rfl⟩
  | cons a l ih =>
    obtain ⟨b, hb⟩ := h a (by simp)
    obtain ⟨bs, hbs⟩ := ih fun c hc => h c (List.mem_cons_of_mem _ hc)
    exact ⟨b :: bs, by rw [List.mapM_cons, hb, hbs]; rfl⟩

/-- A number below 2^32 can be packed. -/
theorem exists_packU32 {n : ℕ} (h : n < 2 ^ 32) : ∃ raw, packU32 n = some raw :=
  ⟨_, if_pos h⟩

/-- A string shorter than 2^32 can be packed. -/
theorem exists_packBytes {b : Bytes} (h : b.length < 2 ^ 32) : ∃ p, packBytes b = some p := by
  obtain ⟨raw, hraw⟩ := exists_packU32 h
  exact ⟨raw ++ b, by rw [packBytes, hraw]; rfl⟩

/-- So can a list of them. -/
theorem exists_packMany {blobs : List Bytes} (h : ∀ b ∈ blobs, b.length < 2 ^ 32) :
    ∃ p, packMany blobs = some p := by
  obtain ⟨ps, hps⟩ := exists_mapM fun b hb => exists_packBytes (h b hb)
  exact ⟨ps.flatten, by rw [packMany, hps]; rfl⟩

/-- A number of 64 bits with a sign can be packed. -/
theorem exists_packI64 {i : ℤ} (h : -2 ^ 63 ≤ i ∧ i < 2 ^ 63) : ∃ raw, packI64 i = some raw :=
  ⟨_, if_pos h⟩

/-- SOURCE: persistence/rdb.py:95-109 -/
theorem exists_packValue {v : RedisValue} (h : Measured v) : ∃ p, packValue v = some p := by
  cases v with
  | bytes b => exact exists_packBytes h
  | deque items =>
    obtain ⟨count, hcount⟩ := exists_packU32 h.1
    obtain ⟨body, hbody⟩ := exists_packMany h.2
    exact ⟨count ++ body, by simp only [packValue, hcount, hbody, bind, Option.bind, pure]⟩
  | dict mapping =>
    have hpairs : ∀ b ∈ mapping.entries.flatMap fun p => [p.1, p.2], b.length < 2 ^ 32 := by
      intro b hb
      obtain ⟨p, hp, hb⟩ := List.mem_flatMap.mp hb
      obtain ⟨h1, h2⟩ := h.2 p hp
      simp only [List.mem_cons, List.not_mem_nil, or_false] at hb
      rcases hb with rfl | rfl
      · exact h1
      · exact h2
    obtain ⟨count, hcount⟩ := exists_packU32 h.1
    obtain ⟨body, hbody⟩ := exists_packMany hpairs
    exact ⟨count ++ body, by simp only [packValue, hcount, hbody, bind, Option.bind, pure]⟩

/-- SOURCE: persistence/rdb.py:83-109 -/
theorem exists_packRecord {key : Bytes} {entry : KeyEntry} (hkey : key.length < 2 ^ 32)
    (hvalue : Measured entry.value) (hd : StorableDeadline entry) :
    ∃ p, packRecord key entry = some p := by
  have hdeadline : -2 ^ 63 ≤ entry.expireAtMs.getD (-1) ∧ entry.expireAtMs.getD (-1) < 2 ^ 63 := by
    cases hx : entry.expireAtMs with
    | none => decide
    | some d => exact hd d hx
  obtain ⟨k, hk⟩ := exists_packBytes hkey
  obtain ⟨expire, hexpire⟩ := exists_packI64 hdeadline
  obtain ⟨payload, hpayload⟩ := exists_packValue hvalue
  refine ⟨k ++ [entry.type.id] ++ expire ++ payload, ?_⟩
  simp only [packRecord, hk, hexpire, hpayload, bind, Option.bind, pure]

/-- The body of a file exists in either version. -/
theorem exists_rdbBody {entries : Entries} (hsized : Sized entries)
    (hd : ∀ e ∈ entries.entries, StorableDeadline e.2) {version : ℕ} (hversion : version < 2 ^ 32) :
    ∃ body, rdbBody version entries = some body := by
  obtain ⟨v, hv⟩ := exists_packU32 hversion
  obtain ⟨count, hcount⟩ := exists_packU32 hsized.count
  obtain ⟨records, hrecords⟩ := exists_mapM fun e he =>
    exists_packRecord (hsized.keys e he) (hsized.values e he) (hd e he)
  refine ⟨rdbMagic ++ v ++ count ++ records.flatten, ?_⟩
  simp only [rdbBody, hv, hcount, hrecords, bind, Option.bind, pure]

/-- **A keyspace whose lengths and deadlines the format has room for can be dumped.**
SOURCE: persistence/rdb.py:79-113 -/
theorem exists_dumpRdbEntries {entries : Entries} (hsized : Sized entries)
    (hd : ∀ e ∈ entries.entries, StorableDeadline e.2) :
    ∃ rdb, dumpRdbEntries entries = some rdb := by
  obtain ⟨body, hbody⟩ := exists_rdbBody hsized hd (by decide : rdbVersion < 2 ^ 32)
  exact ⟨_, by rw [dumpRdbEntries, hbody]; rfl⟩

/-! ## Both versions -/

/-- A file of version 1: the same body under the old version number, and no checksum. -/
def legacyFile (entries : Entries) : Option Bytes :=
  (rdbBody rdbLegacyVersion entries).map fun body => body ++ rdbFooter

/-- The version does not change the length of a body. -/
theorem length_rdbBody {v w : ℕ} {entries : Entries} {b c : Bytes}
    (hb : rdbBody v entries = some b) (hc : rdbBody w entries = some c) :
    b.length = c.length := by
  obtain ⟨rv, count, records, hv, hcount, hrecords, rfl⟩ := rdbBody_eq_some hb
  obtain ⟨rw', count', records', hw, hcount', hrecords', rfl⟩ := rdbBody_eq_some hc
  rw [hcount] at hcount'
  rw [hrecords] at hrecords'
  cases hcount'
  cases hrecords'
  simp only [List.length_append, (leValue_packU32 hv).2, (leValue_packU32 hw).2]

/-- **Loading undoes dumping, in both versions.** A keyspace with lengths and counts below
2^32 and deadlines in [0, 2^63) can be dumped, and what is loaded from the file, or from the
version 1 file of the same body, are the entries that have not expired, in their order.
SOURCE: persistence/rdb.py:79-113, 128-188 -/
theorem load_undoes_dump {entries : Entries} (hsized : Sized entries)
    (hd : ∀ e ∈ entries.entries, ∀ d, e.2.expireAtMs = some d → 0 ≤ d ∧ d < 2 ^ 63)
    {maxFileBytes : ℕ} (hmax : ∀ rdb, dumpRdbEntries entries = some rdb →
      rdb.length ≤ maxFileBytes) (now : ℤ) :
    ∃ rdb old, dumpRdbEntries entries = some rdb ∧ legacyFile entries = some old ∧
      loadRdbBytes maxFileBytes now rdb =
        .ok (entries.filter fun _ e => !isExpired e.expireAtMs now) ∧
      loadRdbBytes maxFileBytes now old =
        .ok (entries.filter fun _ e => !isExpired e.expireAtMs now) := by
  have hstorable : ∀ e ∈ entries.entries, StorableDeadline e.2 := by
    intro e he d hx
    have := hd e he d hx
    omega
  have hnonneg : ∀ e ∈ entries.entries, NonNegDeadline e.2 := fun e he d hx => (hd e he d hx).1
  obtain ⟨body, hbody⟩ := exists_rdbBody hsized hstorable (by decide : rdbVersion < 2 ^ 32)
  obtain ⟨body', hbody'⟩ := exists_rdbBody hsized hstorable (by decide : rdbLegacyVersion < 2 ^ 32)
  have hdump : dumpRdbEntries entries =
      some (body ++ leBytes 4 (crc32 body).toNat ++ rdbFooter) := by
    rw [dumpRdbEntries, hbody]
    rfl
  have hold : legacyFile entries = some (body' ++ rdbFooter) := by
    rw [legacyFile, hbody']
    rfl
  have hlen := hmax _ hdump
  refine ⟨_, _, hdump, hold, loadRdbBytes_dumpRdbEntries hdump hlen hnonneg now,
    loadRdbBytes_rdbBody hbody' (Or.inl rfl) rfl ?_ hnonneg now⟩
  have hsame := length_rdbBody hbody hbody'
  simp only [List.length_append] at hlen ⊢
  omega

/-- A string that stays, a list that expires at 5 and a hash that expires at 20. -/
def sampleEntries : Entries :=
  Dict.empty.insertMany [
    (ascii "s", { type := .string, value := .bytes (ascii "EOF\n") }),
    (ascii "l", { type := .list, value := .deque [[], ascii "a"], expireAtMs := some 5 }),
    (ascii "h", { type := .hash, value := .dict (Dict.empty.insert (ascii "f") (ascii "v")),
                  expireAtMs := some 20 })]

/-- Loaded at 10, the list is gone, from a file of either version. -/
theorem load_undoes_dump_sample :
    (sampleEntries.filter fun _ e => !isExpired e.expireAtMs 10).entries.map Prod.fst =
      [ascii "s", ascii "h"] ∧
    ∃ rdb old, dumpRdbEntries sampleEntries = some rdb ∧ legacyFile sampleEntries = some old ∧
      loadRdbBytes 100 10 rdb =
        .ok (sampleEntries.filter fun _ e => !isExpired e.expireAtMs 10) ∧
      loadRdbBytes 100 10 old =
        .ok (sampleEntries.filter fun _ e => !isExpired e.expireAtMs 10) := by
  have hdeadlines : ∀ e ∈ sampleEntries.entries, ∀ d, e.2.expireAtMs = some d →
      0 ≤ d ∧ d < 2 ^ 63 := by
    have hget : ∀ e ∈ sampleEntries.entries, 0 ≤ e.2.expireAtMs.getD 0 ∧
        e.2.expireAtMs.getD 0 < 2 ^ 63 := by decide
    intro e he d hx
    have := hget e he
    rwa [hx] at this
  have hlength : (dumpRdbEntries sampleEntries).map List.length = some 97 := by decide +kernel
  have hmax : ∀ rdb, dumpRdbEntries sampleEntries = some rdb → rdb.length ≤ 100 := by
    intro rdb h
    rw [h] at hlength
    have := Option.some.inj hlength
    omega
  exact ⟨by decide, load_undoes_dump ⟨by decide, by decide, by decide⟩ hdeadlines hmax 10⟩

end ByoRedis.Analysis
