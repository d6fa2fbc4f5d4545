import ByoRedis.Analysis.RdbRoundTrip
import ByoRedis.Lib.Framing
import Mathlib.Data.Nat.Bitwise

/-!
# Damaged snapshots

No file that differs from a dump by a cut, by bytes at its end or by the value of one byte
is loaded (`corruption_detected`). A file that is loaded ends eight bytes after its records,
in version 2, or four, in version 1 (`length_of_finish`). Readers give the same answer when
bytes are added, so cut and extended files have the records of the dump and the wrong number
of bytes after them. A changed byte leaves the length as it is, which puts the checksum
where it was; the rest is that CRC-32 is injective in each byte (`crc32_ne`), and that a
version 2 file under version number 1 is four bytes too long.
-/

set_option autoImplicit false

namespace ByoRedis.Analysis

open ByoRedis.Model ByoRedis.Lib ByoRedis.Lib.Framing

/-! ## CRC-32 and one byte -/

/-- One shift of the register, in numbers. -/
theorem toNat_crcBit (c : UInt32) :
    (crcBit c).toNat =
      if c.toNat % 2 = 1 then (c.toNat / 2) ^^^ 0xEDB88320 else c.toNat / 2 := by
  have hshift : (c >>> 1).toNat = c.toNat / 2 := by
    rw [UInt32.toNat_shiftRight]
    exact Nat.shiftRight_eq_div_pow _ 1
  have hlow : c &&& 1 = 1 ↔ c.toNat % 2 = 1 := by
    rw [← UInt32.toNat_inj, UInt32.toNat_and]
    show c.toNat &&& 1 = 1 ↔ _
    rw [Nat.and_one_is_mod]
  unfold crcBit
  by_cases h : c &&& 1 = 1
  · rw [if_pos h, if_pos (hlow.mp h), UInt32.toNat_xor, hshift]
    rfl
  · rw [if_neg h, if_neg (fun hc => h (hlow.mpr hc)), hshift]

/-- The polynomial has its top bit set, and a register that was shifted has not. -/
theorem xor_polynomial_ne {a b : ℕ} (ha : a < 2 ^ 31) (hb : b < 2 ^ 31) :
    a ^^^ 0xEDB88320 ≠ b := by
  rintro rfl
  have hlt := Nat.xor_lt_two_pow ha hb
  rw [← Nat.xor_assoc, Nat.xor_self, Nat.zero_xor] at hlt
  exact absurd hlt (by decide)

/-- A shift loses nothing: the bit that falls out shows in the top bit of the result. -/
theorem crcBit_injective : Function.Injective crcBit := by
  intro c d h
  have hnat := congrArg UInt32.toNat h
  have hc : c.toNat < 2 ^ 32 := UInt32.toNat_lt c
  have hd : d.toNat < 2 ^ 32 := UInt32.toNat_lt d
  rw [toNat_crcBit, toNat_crcBit] at hnat
  apply UInt32.toNat_inj.mp
  by_cases h1 : c.toNat % 2 = 1
  · by_cases h2 : d.toNat % 2 = 1
    · rw [if_pos h1, if_pos h2] at hnat
      have hhalf : c.toNat / 2 = d.toNat / 2 := by
        rw [← Nat.xor_xor_cancel_right (c.toNat / 2) 0xEDB88320, hnat, Nat.xor_xor_cancel_right]
      omega
    · rw [if_pos h1, if_neg h2] at hnat
      exact absurd hnat (xor_polynomial_ne (by omega) (by omega))
  · by_cases h2 : d.toNat % 2 = 1
    · rw [if_neg h1, if_pos h2] at hnat
      exact absurd hnat.symm (xor_polynomial_ne (by omega) (by omega))
    · rw [if_neg h1, if_neg h2] at hnat
      omega

/-- Different registers stay different through a byte. -/
theorem crcByte_injective_left (b : UInt8) : Function.Injective fun c => crcByte c b := by
  intro c d h
  have hxor : c ^^^ b.toUInt32 = d ^^^ b.toUInt32 := by
    simpa only [crcByte, crcBit_injective.eq_iff] using h
  exact (UInt32.xor_left_inj _).mp hxor

/-- Different bytes make different registers. -/
theorem crcByte_injective_right (c : UInt32) : Function.Injective (crcByte c) := by
  intro b d h
  have hxor : c ^^^ b.toUInt32 = c ^^^ d.toUInt32 := by
    simpa only [crcByte, crcBit_injective.eq_iff] using h
  have hnat := congrArg UInt32.toNat ((UInt32.xor_right_inj _).mp hxor)
  rw [UInt8.toNat_toUInt32, UInt8.toNat_toUInt32] at hnat
  exact UInt8.toNat_inj.mp hnat

/-- Different registers stay different through any data. -/
theorem foldl_crcByte_injective (data : Bytes) :
    Function.Injective fun c => data.foldl crcByte c := by
  induction data with
  | nil => exact fun c d h => h
  | cons b data ih =>
    intro c d h
    exact crcByte_injective_left b (ih h)

/-- **CRC-32 tells files apart that differ in one byte.** -/
theorem crc32_ne (pre post : Bytes) {b d : UInt8} (h : b ≠ d) :
    crc32 (pre ++ b :: post) ≠ crc32 (pre ++ d :: post) := by
  intro heq
  have hfold := (UInt32.xor_left_inj _).mp heq
  rw [List.foldl_append, List.foldl_append, List.foldl_cons, List.foldl_cons] at hfold
  exact h (crcByte_injective_right _ (foldl_crcByte_injective post hfold))

/-! ## Readers and longer files -/

/-- What was read is a front of the buffer. -/
theorem readExact_eq_ok {n : ℕ} {buf a rest : Bytes} (h : readExact n buf = .ok (a, rest)) :
    a.length = n ∧ buf = a ++ rest := by
  unfold readExact at h
  split_ifs at h with hshort
  cases h
  refine ⟨?_, (List.take_append_drop n buf).symm⟩
  rw [List.length_take]
  omega

/-- The reader does not look past its bytes. -/
theorem readExact_stable (n : ℕ) : Stable (readExact n) := by
  constructor
  case front =>
    intro buf rest a h
    exact ⟨a, (readExact_eq_ok h).2⟩
  case append =>
    intro buf rest a ext h
    obtain ⟨rfl, rfl⟩ := readExact_eq_ok h
    rw [List.append_assoc, readExact_append]

/-- The reader of 32-bit numbers does not look past its bytes. -/
theorem readU32_stable : Stable readU32 :=
  stable_bind (readExact_stable 4) fun raw => stable_pure (leValue raw)

/-- The reader of 64-bit numbers does not look past its bytes. -/
theorem readI64_stable : Stable readI64 :=
  stable_bind (readExact_stable 8) fun raw => stable_pure (unpackI64 raw)

/-- The reader of a string does not look past its bytes. -/
theorem readBlob_stable : Stable readBlob := stable_bind readU32_stable readExact_stable

/-- The reader of a list does not look past its bytes. -/
theorem readListItems_stable (n : ℕ) : Stable (readListItems n) := by
  induction n with
  | zero => exact stable_pure []
  | succ n ih =>
    exact stable_bind readBlob_stable fun item => stable_bind ih fun items =>
      stable_pure (item :: items)

/-- The reader of a hash does not look past its bytes. -/
theorem readHashItems_stable (n : ℕ) (mapping : Dict Bytes Bytes) :
    Stable (readHashItems n mapping) := by
  induction n generalizing mapping with
  | zero => exact stable_pure mapping
  | succ n ih =>
    exact stable_bind readBlob_stable fun field => stable_bind readBlob_stable fun value =>
      ih (mapping.insert field value)

/-- The reader of an entry does not look past its bytes. -/
theorem readEntry_stable (typeId : UInt8) (expireAtMs : Option ℤ) :
    Stable (readEntry typeId expireAtMs) := by
  unfold readEntry
  split_ifs
  · refine stable_bind readBlob_stable fun value => ?_
    exact stable_pure _
  · refine stable_bind readU32_stable fun n => ?_
    refine stable_bind (readListItems_stable n) fun items => ?_
    exact stable_pure _
  · refine stable_bind readU32_stable fun n => ?_
    refine stable_bind (readHashItems_stable n Dict.empty) fun mapping => ?_
    exact stable_pure _
  · exact stable_error _

/-- The reader of a record does not look past its bytes. -/
theorem readRecord_stable : Stable readRecord := by
  refine stable_bind readBlob_stable fun key => ?_
  refine stable_bind (readExact_stable 1) fun typeRaw => ?_
  refine stable_bind readI64_stable fun expireAt => ?_
  refine stable_bind (readEntry_stable _ _) fun entry => ?_
  exact stable_pure (key, entry)

/-- SOURCE: persistence/rdb.py:144-175 -/
theorem readRecords_stable (now : ℤ) (n : ℕ) (entries : Entries) :
    Stable (readRecords now n entries) := by
  induction n generalizing entries with
  | zero => exact stable_pure entries
  | succ n ih =>
    refine stable_bind readRecord_stable fun r => ?_
    exact ih _

/-- A file with more bytes at its end has the same records.
SOURCE: persistence/rdb.py:137-175 -/
theorem Walked.append {now : ℤ} {data rest : Bytes} {version : ℕ} {entries : Entries}
    (h : Walked now data version entries rest) (ext : Bytes) :
    Walked now (data ++ ext) version entries (rest ++ ext) := by
  obtain ⟨hlong, hmagic, hversion, hrecords⟩ := h
  have hfield : ∀ k, k + 4 ≤ 12 → ((data ++ ext).drop k).take 4 = (data.drop k).take 4 := by
    intro k hk
    rw [List.drop_append_of_le_length (by omega),
      List.take_append_of_le_length (by rw [List.length_drop]; omega)]
  refine ⟨?_, ?_, ?_, ?_⟩
  · rw [List.length_append]
    omega
  · rw [List.take_append_of_le_length (by omega), hmagic]
  · rw [hfield 4 (by omega), hversion]
  · rw [hfield 8 (by omega), List.drop_append_of_le_length hlong]
    exact (readRecords_stable now _ _).append ext hrecords

/-- What follows the records is the end of the file. -/
theorem Walked.suffix {now : ℤ} {data rest : Bytes} {version : ℕ} {entries : Entries}
    (h : Walked now data version entries rest) : ∃ front, data = front ++ rest := by
  obtain ⟨used, hused⟩ := (readRecords_stable now _ _).front h.records
  refine ⟨data.take 12 ++ used, ?_⟩
  rw [List.append_assoc, ← hused, List.take_append_drop]

/-- What follows the records of a file is determined by the file. -/
theorem Walked.unique {now : ℤ} {data rest rest' : Bytes} {version version' : ℕ}
    {entries entries' : Entries} (h : Walked now data version entries rest)
    (h' : Walked now data version' entries' rest') : version = version' ∧ rest = rest' := by
  have hrecords := h.records.symm.trans h'.records
  exact ⟨h.version.symm.trans h'.version, (Prod.mk.inj (Except.ok.inj hrecords)).2⟩

/-! ## The end of a file -/

/-- A version 2 file is accepted with the checksum of its body. -/
theorem readChecksum_eq_ok {body rest buf : Bytes}
    (h : readChecksum rdbVersion body rest = .ok buf) :
    ∃ raw, raw.length = 4 ∧ leValue raw = (crc32 body).toNat ∧ rest = raw ++ buf := by
  unfold readChecksum at h
  rw [if_pos (by decide)] at h
  rcases hr : readExact 4 rest with e | ⟨raw, tail⟩
  · simp only [hr, bind, Except.bind] at h
    cases h
  · simp only [hr, bind, Except.bind] at h
    split_ifs at h with hsum
    cases h
    obtain ⟨hlen, hrest⟩ := readExact_eq_ok hr
    exact ⟨raw, hlen, (not_not.mp hsum).symm, hrest⟩

/-- A file that is loaded has nothing but the footer after its checksum, and its entries are
those of the records.
SOURCE: persistence/rdb.py:183-188 -/
theorem finish_eq_ok {version : ℕ} {body rest : Bytes} {entries d : Entries}
    (h : finish version body entries rest = .ok d) :
    readChecksum version body rest = .ok rdbFooter ∧ entries = d := by
  unfold finish at h
  rcases hc : readChecksum version body rest with e | buf
  · simp only [hc, bind, Except.bind] at h
    cases h
  · simp only [hc, bind, Except.bind] at h
    rcases hf : readExact rdbFooter.length buf with e | ⟨footer, tail⟩
    · simp only [hf] at h
      cases h
    · simp only [hf] at h
      split_ifs at h with hfoot htail
      cases h
      rw [(readExact_eq_ok hf).2, not_not.mp hfoot, not_not.mp htail, List.append_nil]
      exact ⟨rfl, rfl⟩

/-- A file that is loaded has been walked, and its end checks.
SOURCE: persistence/rdb.py:128-188 -/
theorem walked_of_loadRdbBytes {maxFileBytes : ℕ} {now : ℤ} {data : Bytes} {d : Entries}
    (h : loadRdbBytes maxFileBytes now data = .ok d) :
    ∃ version rest, (version = rdbLegacyVersion ∨ version = rdbVersion) ∧
      Walked now data version d rest ∧
      readChecksum version (data.take (data.length - rest.length)) rest = .ok rdbFooter := by
  have hunfold := h
  unfold loadRdbBytes at hunfold
  split_ifs at hunfold with hmax hshort
  have h4 : readExact 4 data = .ok (data.take 4, data.drop 4) := if_neg (by omega)
  have h8 : readU32 (data.drop 4) = .ok (leValue ((data.drop 4).take 4), data.drop 8) := by
    rw [readU32_of_le (by rw [List.length_drop]; omega), List.drop_drop]
  have h12 : readU32 (data.drop 8) = .ok (leValue ((data.drop 8).take 4), data.drop 12) := by
    rw [readU32_of_le (by rw [List.length_drop]; omega), List.drop_drop]
  simp only [h4, bind, Except.bind] at hunfold
  split_ifs at hunfold with hmagic
  simp only [h8] at hunfold
  split_ifs at hunfold with hversion
  simp only [h12] at hunfold
  rcases hr : readRecords now (leValue ((data.drop 8).take 4)) Dict.empty (data.drop 12) with
    e | ⟨entries, rest⟩
  · simp only [hr] at hunfold
    cases hunfold
  · have hwalked : Walked now data (leValue ((data.drop 4).take 4)) entries rest :=
      ⟨by omega, not_not.mp hmagic, rfl, hr⟩
    have hknown : leValue ((data.drop 4).take 4) = rdbLegacyVersion ∨
        leValue ((data.drop 4).take 4) = rdbVersion := by
      by_contra hno
      exact hversion (not_or.mp hno)
    rw [loadRdbBytes_of_walked hwalked hknown (by omega)] at h
    obtain ⟨hend, rfl⟩ := finish_eq_ok h
    exact ⟨_, _, hknown, hwalked, hend⟩

/-- The footer alone follows in the old version, checksum and footer in the new one. -/
theorem length_of_readChecksum {version : ℕ} {body rest : Bytes}
    (h : readChecksum version body rest = .ok rdbFooter) :
    (version = rdbLegacyVersion → rest.length = 4) ∧ (version = rdbVersion → rest.length = 8) := by
  constructor
  · rintro rfl
    cases h
    rfl
  · rintro rfl
    obtain ⟨raw, hlen, -, rfl⟩ := readChecksum_eq_ok h
    rw [List.length_append, hlen]
    rfl

/-- The layout of a dump: body, checksum and footer. -/
theorem walked_dump {entries : Entries} {f : Bytes} (h : dumpRdbEntries entries = some f)
    (now : ℤ) : ∃ body d, f = body ++ (leBytes 4 (crc32 body).toNat ++ rdbFooter) ∧
      Walked now f rdbVersion d (leBytes 4 (crc32 body).toNat ++ rdbFooter) := by
  obtain ⟨body, hbody, rfl⟩ := Option.map_eq_some_iff.mp h
  rw [List.append_assoc]
  exact ⟨body, _, rfl, walked_rdbBody hbody now _⟩

/-- Checksum and footer are eight bytes. -/
theorem length_checksum (body : Bytes) :
    (leBytes 4 (crc32 body).toNat ++ rdbFooter).length = 8 := by
  rw [List.length_append, length_leBytes]
  rfl

/-! ## Damage -/

/-- The file `g` is `f` with another value in one place. -/
def OneByteChanged (f g : Bytes) : Prop :=
  ∃ pre b d post, b ≠ d ∧ f = pre ++ b :: post ∧ g = pre ++ d :: post

/-- Fields of one length with one value are equal. -/
theorem leValue_injective {a b : Bytes} (hlen : a.length = b.length)
    (h : leValue a = leValue b) : a = b := by
  induction a generalizing b with
  | nil => exact (List.length_eq_zero_iff.mp hlen.symm).symm
  | cons x a ih =>
    cases b with
    | nil => cases hlen
    | cons y b =>
      have hx : x.toNat < 256 := UInt8.toNat_lt x
      have hy : y.toNat < 256 := UInt8.toNat_lt y
      simp only [leValue] at h
      have hxy : x = y := UInt8.toNat_inj.mp (by omega)
      rw [hxy, ih (Nat.succ.inj hlen) (by omega)]

/-- A file cut short or extended has the wrong number of bytes after its records.
SOURCE: persistence/rdb.py:176-188 -/
theorem not_loaded_of_length {entries : Entries} {f g ext : Bytes}
    (hf : dumpRdbEntries entries = some f) (hext : ext ≠ []) (hg : f = g ++ ext ∨ g = f ++ ext)
    (maxFileBytes : ℕ) (now : ℤ) (d : Entries) : loadRdbBytes maxFileBytes now g ≠ .ok d := by
  intro hload
  obtain ⟨version, rest, hversion, hwalked, hend⟩ := walked_of_loadRdbBytes hload
  obtain ⟨body, d', -, hdump⟩ := walked_dump hf now
  have hpos := List.length_pos_iff.mpr hext
  have hlen := length_checksum body
  rcases hg with rfl | rfl
  · obtain ⟨rfl, hrest⟩ := (hwalked.append ext).unique hdump
    have := congrArg List.length hrest
    have h8 := (length_of_readChecksum hend).2 rfl
    rw [List.length_append, hlen] at this
    omega
  · obtain ⟨rfl, rfl⟩ := hwalked.unique (hdump.append ext)
    have h8 := (length_of_readChecksum hend).2 rfl
    rw [List.length_append, hlen] at h8
    omega

/-- A file with one changed byte under the version number of the dump: the checksum is where
it was, and does not fit.
SOURCE: persistence/rdb.py:176-182 -/
theorem not_checked_of_changed {body f g rest : Bytes}
    (hf : f = body ++ (leBytes 4 (crc32 body).toNat ++ rdbFooter)) (hg : OneByteChanged f g)
    (hrest : ∃ b, g = b ++ rest) :
    readChecksum rdbVersion (g.take (g.length - rest.length)) rest ≠ .ok rdbFooter := by
  intro hend
  obtain ⟨gbody, rfl⟩ := hrest
  rw [List.length_append, Nat.add_sub_cancel, List.take_left] at hend
  obtain ⟨raw, hraw, hsum, rfl⟩ := readChecksum_eq_ok hend
  obtain ⟨pre, b, d, post, hne, hfb, hgd⟩ := hg
  have hvalue : leValue (leBytes 4 (crc32 body).toNat) = (crc32 body).toNat := by
    rw [leValue_leBytes]
    exact Nat.mod_eq_of_lt (UInt32.toNat_lt _)
  have hfoot : rdbFooter.length = 4 := rfl
  have hsame : gbody.length = body.length := by
    have h1 := congrArg List.length (hf.symm.trans hfb)
    have h2 := congrArg List.length hgd
    simp only [List.length_append, List.length_cons, hraw, length_leBytes, hfoot] at h1 h2
    omega
  by_cases hpos : body.length ≤ pre.length
  · -- the change is behind the body, so the checksum must be the same and nothing has changed
    have hbody : gbody = body := by
      have h1 := congrArg (List.take body.length) (hf.symm.trans hfb)
      have h2 := congrArg (List.take gbody.length) hgd
      rw [List.take_left, List.take_append_of_le_length hpos] at h1
      rw [List.take_left, hsame, List.take_append_of_le_length hpos] at h2
      exact h2.trans h1.symm
    have hsums : raw = leBytes 4 (crc32 body).toNat :=
      leValue_injective (hraw.trans (length_leBytes 4 _).symm) (by rw [hsum, hvalue, hbody])
    rw [hbody, hsums, ← hf, hfb] at hgd
    exact hne (List.cons.inj (List.append_cancel_left hgd)).1
  · -- the change is in the body, so the checksum is the old one
    obtain ⟨mid, rfl, rfl⟩ : ∃ mid, body = pre ++ b :: mid ∧
        post = mid ++ (leBytes 4 (crc32 body).toNat ++ rdbFooter) := by
      rcases List.append_eq_append_iff.mp (hf.symm.trans hfb) with ⟨t, rfl, -⟩ | ⟨t, hb, hpost⟩
      · rw [List.length_append] at hpos
        omega
      · cases t with
        | nil =>
          rw [hb, List.append_nil] at hpos
          exact absurd le_rfl hpos
        | cons x mid =>
          obtain ⟨rfl, htail⟩ := List.cons.inj hpost
          exact ⟨mid, hb, htail⟩
    have hshape : gbody ++ (raw ++ rdbFooter) = (pre ++ d :: mid) ++
        (leBytes 4 (crc32 (pre ++ b :: mid)).toNat ++ rdbFooter) := by
      rw [hgd]
      simp only [List.append_assoc, List.cons_append]
    obtain ⟨rfl, htail⟩ := List.append_inj hshape (by
      rw [hsame]
      simp only [List.length_append, List.length_cons])
    have hraws : raw = leBytes 4 (crc32 (pre ++ b :: mid)).toNat := List.append_cancel_right htail
    rw [hraws, hvalue] at hsum
    exact crc32_ne pre mid hne (UInt32.toNat_inj.mp hsum)

/-- A change that the version number shows is in the first eight bytes. -/
theorem drop_of_changed {f g : Bytes} (hg : OneByteChanged f g)
    (hversion : (f.drop 4).take 4 ≠ (g.drop 4).take 4) : f.drop 8 = g.drop 8 := by
  obtain ⟨pre, b, d, post, -, rfl, rfl⟩ := hg
  have hpos : pre.length < 8 := by
    by_contra hlate
    apply hversion
    have hfield : ∀ l : Bytes, ((pre ++ l).drop 4).take 4 = (pre.drop 4).take 4 := by
      intro l
      rw [List.drop_append_of_le_length (by omega),
        List.take_append_of_le_length (by rw [List.length_drop]; omega)]
    rw [hfield, hfield]
  obtain ⟨k, hk⟩ : ∃ k, 8 - pre.length = k + 1 := ⟨7 - pre.length, by omega⟩
  rw [List.drop_append, List.drop_append, hk, List.drop_succ_cons, List.drop_succ_cons]

/-- **Corruption is detected.** A proper prefix of a dump, a proper extension of it and a
file with one byte changed anywhere are rejected, whatever the size limit and the time.
SOURCE: persistence/rdb.py:128-188 -/
theorem corruption_detected {entries : Entries} {f g : Bytes}
    (hf : dumpRdbEntries entries = some f)
    (hg : (g <+: f ∧ g ≠ f) ∨ (f <+: g ∧ g ≠ f) ∨ OneByteChanged f g)
    (maxFileBytes : ℕ) (now : ℤ) : ∃ e, loadRdbBytes maxFileBytes now g = .error e := by
  rcases hload : loadRdbBytes maxFileBytes now g with e | d
  · exact ⟨e, rfl⟩
  exfalso
  rcases hg with ⟨⟨ext, rfl⟩, hne⟩ | ⟨⟨ext, rfl⟩, hne⟩ | hchanged
  · have hext : ext ≠ [] := by
      rintro rfl
      exact hne (List.append_nil g).symm
    exact not_loaded_of_length hf hext (Or.inl rfl) maxFileBytes now d hload
  · have hext : ext ≠ [] := by
      rintro rfl
      exact hne (List.append_nil f)
    exact not_loaded_of_length hf hext (Or.inr rfl) maxFileBytes now d hload
  · obtain ⟨version, rest, hversion, hwalked, hend⟩ := walked_of_loadRdbBytes hload
    obtain ⟨body, d', hlayout, hdump⟩ := walked_dump hf now
    rcases hversion with rfl | rfl
    · -- the change is in the version number: the records are those of the dump
      have hdrop : f.drop 8 = g.drop 8 := by
        refine drop_of_changed hchanged fun hsame => ?_
        have hvalue := hwalked.version
        rw [← hsame, hdump.version] at hvalue
        exact absurd hvalue (by decide)
      have hdrop' : f.drop 12 = g.drop 12 := by
        rw [show 12 = 8 + 4 from rfl, ← List.drop_drop, hdrop, List.drop_drop]
      have hrecords := hwalked.records
      rw [← hdrop, ← hdrop', hdump.records] at hrecords
      obtain ⟨-, rfl⟩ := Prod.mk.inj (Except.ok.inj hrecords)
      have h4 := (length_of_readChecksum hend).1 rfl
      rw [length_checksum] at h4
      exact absurd h4 (by decide)
    · exact not_checked_of_changed hlayout hchanged hwalked.suffix hend

/-- The version number of a dump of three keys changed from 2 to 1. -/
theorem corruption_detected_version :
    ∃ rest e, dumpRdbEntries sampleEntries = some (rdbMagic ++ 2 :: rest) ∧
      loadRdbBytes 100 10 (rdbMagic ++ 1 :: rest) = .error e := by
  have hhead : (dumpRdbEntries sampleEntries).map (List.take 5) = some (rdbMagic ++ [2]) := by
    decide +kernel
  cases hdump : dumpRdbEntries sampleEntries with
  | none =>
    rw [hdump] at hhead
    cases hhead
  | some f =>
    rw [hdump] at hhead
    have hf : f = rdbMagic ++ 2 :: f.drop 5 := by
      conv_lhs => rw [← List.take_append_drop 5 f, Option.some.inj hhead]
      simp
    obtain ⟨e, he⟩ := corruption_detected hdump
      (Or.inr (Or.inr ⟨rdbMagic, 2, 1, f.drop 5, by decide, hf, rfl⟩)) 100 10
    exact ⟨f.drop 5, e, congrArg some hf, he⟩

end ByoRedis.Analysis
