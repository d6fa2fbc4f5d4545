import ByoRedis.Lib.Trace
import ByoRedis.Model.RdbFiles
import ByoRedis.Model.Server
import ByoRedis.Analysis.RdbRoundTrip

/-!
# SAVE while BGSAVE runs

A saver that has the temporary file for itself leaves the RDB file as one of the snapshots:
it writes its own inode, which has no other name, and the rename puts it in place at once
(`Alone.step`). Two savers share the temporary file, so the handle of one may be on the
inode that the other has renamed. `rdb_intact` says that the RDB file is always one of the
snapshots taken, and not an older one than that of a SAVE that replied OK, as long as no SAVE
starts while a BGSAVE has its snapshot and has not ended.
-/

set_option autoImplicit false

namespace ByoRedis.Analysis

open ByoRedis.Model ByoRedis.Lib

/-! ## The property -/

/-- The file at `rdb_path`, once it exists, is the encoding of a snapshot that was taken, none
older than that of a SAVE that replied OK, and it can be loaded. -/
def Intact (saved : List ℕ) (st : Savers) : Prop :=
  ∀ bytes, st.files.read .path = some bytes →
    (∃ n d, st.taken[n]? = some d ∧ dumpRdbEntries d = some bytes ∧ ∀ m ∈ saved, m ≤ n) ∧
    ∀ limit now, bytes.length ≤ limit → ∃ d, loadRdbBytes limit now bytes = .ok d

/-- SAVE starts only when no BGSAVE has its snapshot. -/
def NoOverlap (st : Savers) : SaversAction → Prop
  | .saveStart => st.bgsave = none
  | _ => True

instance (st : Savers) (a : SaversAction) : Decidable (NoOverlap st a) :=
  match a with
  | .saveStart => decidable_of_iff (st.bgsave.isNone = true) Option.isNone_iff_eq_none
  | .commands _ => isTrue trivial
  | .save _ => isTrue trivial
  | .bgsaveSnapshot => isTrue trivial
  | .bgsave _ => isTrue trivial

/-- SOURCE: persistence/rdb.py:128-188 -/
theorem loads_of_dump {d : Entries} {bytes : Bytes} (h : dumpRdbEntries d = some bytes)
    {limit : ℕ} (hlen : bytes.length ≤ limit) (now : ℤ) :
    ∃ d', loadRdbBytes limit now bytes = .ok d' := by
  obtain ⟨body, hbody, rfl⟩ := Option.map_eq_some_iff.mp h
  rw [List.append_assoc] at hlen ⊢
  have hcut : (body ++ (leBytes 4 (crc32 body).toNat ++ rdbFooter)).take
      ((body ++ (leBytes 4 (crc32 body).toNat ++ rdbFooter)).length -
        (leBytes 4 (crc32 body).toNat ++ rdbFooter).length) = body := by
    rw [List.length_append, Nat.add_sub_cancel, List.take_left]
  rw [loadRdbBytes_of_walked (walked_rdbBody hbody now _) (Or.inr rfl) hlen, hcut,
    finish_of_readChecksum (readChecksum_body body rdbFooter)]
  exact ⟨_, rfl⟩

/-! ## One saver -/

/-- A saver that has the temporary file for itself: it writes the last snapshot, and what it
has written is a part of it. -/
structure Writing (taken : List Entries) (f : Files RdbName UInt8) (s : Saver) : Prop where
  latest : s.number + 1 = taken.length
  payload : ∃ d, taken[s.number]? = some d ∧ dumpRdbEntries d = some s.payload
  written : match s.stage with
    | .opening => True
    | .writing i offset => f.inode .tmp = some i ∧ f.content i = s.payload.take offset ∧
        offset ≤ s.payload.length
    | .replacing => f.read .tmp = some s.payload

variable {taken : List Entries} {f f' : Files RdbName UInt8} {s : Saver} {r : SaveResult}

/-- What has become of the saver and of the RDB file after an operation. -/
def Advanced (taken : List Entries) (f f' : Files RdbName UInt8) (s : Saver) :
    SaveResult → Prop
  | .running s' => Writing taken f' s' ∧ s'.number = s.number ∧ f'.read .path = f.read .path
  | .done => f'.read .path = some s.payload
  | .failed => f'.read .path = f.read .path

/-- SOURCE: persistence/rdb.py:116-125, server.py:599-607 -/
theorem Writing.step (hd : f.Distinct) (h : Writing taken f s) {a : SaveStep}
    (hs : s.step f a = some (r, f')) : f'.Distinct ∧ Advanced taken f f' s r := by
  obtain ⟨number, payload, stage⟩ := s
  obtain ⟨hlatest, hpayload, hwritten⟩ := h
  cases a with
  | openTmp =>
    cases stage with
    | opening =>
      cases hs
      obtain ⟨hd', hinode, hcontent, hothers⟩ := Files.openTruncate_spec hd .tmp
      refine ⟨hd', ⟨hlatest, hpayload, hinode, ?_, Nat.zero_le _⟩, rfl, ?_⟩
      · rw [hcontent]
        rfl
      · exact hothers .path (by decide)
    | writing i offset => cases hs
    | replacing => cases hs
  | write n =>
    cases stage with
    | opening => cases hs
    | replacing => cases hs
    | writing i offset =>
      obtain ⟨hinode, hcontent, hle⟩ := hwritten
      simp only [Saver.step] at hs
      split_ifs at hs with hn
      cases hs
      have hend : (f.content i).length = offset := by
        rw [hcontent, List.length_take, Nat.min_eq_left hle]
      have hnew : (f.writeAt i offset ((payload.drop offset).take n)).content i =
          payload.take (offset + n) := by
        have happend := overwrite_length (f.content i) ((payload.drop offset).take n)
        rw [hend, hcontent] at happend
        rw [Files.writeAt, Files.content_setContent, hcontent, happend, List.take_add]
      refine ⟨hd.setContent i _, ⟨hlatest, hpayload, hinode, hnew, hn.2⟩, rfl, ?_⟩
      apply Files.read_setContent
      intro hpath
      cases hd.injective hpath hinode
  | sync =>
    cases stage with
    | opening => cases hs
    | replacing => cases hs
    | writing i offset =>
      obtain ⟨hinode, hcontent, -⟩ := hwritten
      simp only [Saver.step] at hs
      split_ifs at hs with hend
      cases hs
      refine ⟨hd, ⟨hlatest, hpayload, ?_⟩, rfl, rfl⟩
      show f.read .tmp = some payload
      rw [Files.read, hinode, Option.map_some, hcontent, hend, List.take_length]
  | replace =>
    cases stage with
    | opening => cases hs
    | writing i offset => cases hs
    | replacing =>
      simp only [Saver.step] at hs
      cases hr : f.replace .tmp .path with
      | none =>
        rw [hr] at hs
        cases hs
        exact ⟨hd, rfl⟩
      | some g =>
        rw [hr] at hs
        cases hs
        obtain ⟨hd', hread⟩ := Files.replace_spec hd hr
        exact ⟨hd', hread.trans hwritten⟩
  | fail =>
    cases hs
    exact ⟨hd, rfl⟩

/-! ## Runs without overlap -/

/-- At most one saver is at work. -/
structure Alone (saved : List ℕ) (st : Savers) : Prop where
  distinct : st.files.Distinct
  single : st.save = none ∨ st.bgsave = none
  save : ∀ s, st.save = some s → Writing st.taken st.files s
  bgsave : ∀ s, st.bgsave = some s → Writing st.taken st.files s
  replied : ∀ m ∈ saved, m < st.taken.length
  file : ∀ bytes, st.files.read .path = some bytes →
    ∃ n d, st.taken[n]? = some d ∧ dumpRdbEntries d = some bytes ∧ ∀ m ∈ saved, m ≤ n

variable {saved es : List ℕ} {st st' : Savers}

/-- A saver that is alone leaves the file intact. -/
theorem Alone.intact (h : Alone saved st) : Intact saved st := by
  intro bytes hread
  obtain ⟨n, d, hn, hdump, hle⟩ := h.file bytes hread
  exact ⟨⟨n, d, hn, hdump, hle⟩, fun limit now hlen => loads_of_dump hdump hlen now⟩

/-- The saver that a new snapshot starts. -/
theorem writing_snapshot (hs : st.snapshot.1 = some s) :
    Writing st.snapshot.2.taken st.files s := by
  obtain ⟨payload, hdump, rfl⟩ := Option.map_eq_some_iff.mp hs
  refine ⟨?_, ⟨st.keyspace, ?_, hdump⟩, trivial⟩
  · simp [Savers.snapshot]
  · simp [Savers.snapshot]

/-- A snapshot leaves the earlier ones where they are. -/
theorem getElem?_snapshot {n : ℕ} {d : Entries} (h : st.taken[n]? = some d) :
    st.snapshot.2.taken[n]? = some d := by
  have hlt : n < st.taken.length := by
    by_contra hge
    rw [List.getElem?_eq_none (Nat.not_lt.mp hge)] at h
    cases h
  rw [← h]
  exact List.getElem?_append_left hlt

/-- A saver that starts alone is alone. -/
theorem Alone.snapshot (h : Alone saved st) {save bgsave : Option Saver}
    (hsingle : save = none ∨ bgsave = none)
    (hsave : ∀ s, save = some s → Writing st.snapshot.2.taken st.files s)
    (hbgsave : ∀ s, bgsave = some s → Writing st.snapshot.2.taken st.files s) :
    Alone saved { st.snapshot.2 with save := save, bgsave := bgsave } := by
  refine ⟨h.distinct, hsingle, hsave, hbgsave, ?_, ?_⟩
  · intro m hm
    have := h.replied m hm
    simp only [Savers.snapshot, List.length_append, List.length_singleton]
    omega
  · intro bytes hread
    obtain ⟨n, d, hn, hdump, hle⟩ := h.file bytes hread
    exact ⟨n, d, getElem?_snapshot hn, hdump, hle⟩

/-- What an operation of the one saver at work does; only SAVE replies. -/
theorem Alone.advanced (h : Alone saved st) (hw : Writing st.taken st.files s)
    (hf : f'.Distinct) (ha : Advanced st.taken st.files f' s r) {save bgsave : Option Saver}
    (hkept : save = none ∧ bgsave = Savers.keep r ∨ save = Savers.keep r ∧ bgsave = none)
    (hes : es = [] ∨ r = .done ∧ es = [s.number]) :
    Alone (saved ++ es) { st with files := f', save := save, bgsave := bgsave } := by
  have hrunning : ∀ s', Savers.keep r = some s' → Writing st.taken f' s' := by
    intro s' hs'
    cases r with
    | running s₁ =>
      cases hs'
      exact ha.1
    | done => cases hs'
    | failed => cases hs'
  have hsame : es = [] → f'.read .path = st.files.read .path →
      ∀ bytes, f'.read .path = some bytes → ∃ n d, st.taken[n]? = some d ∧
        dumpRdbEntries d = some bytes ∧ ∀ m ∈ saved ++ es, m ≤ n := by
    rintro rfl hread bytes hbytes
    rw [hread] at hbytes
    rw [List.append_nil]
    exact h.file bytes hbytes
  have hreplied : ∀ m ∈ saved ++ es, m < st.taken.length := by
    intro m hm
    rcases List.mem_append.mp hm with hm | hm
    · exact h.replied m hm
    · rcases hes with rfl | ⟨-, rfl⟩
      · cases hm
      · have := hw.latest
        rw [List.mem_singleton.mp hm]
        omega
  refine ⟨hf, ?_, ?_, ?_, hreplied, ?_⟩
  · rcases hkept with ⟨hsave, -⟩ | ⟨-, hbgsave⟩
    · exact Or.inl hsave
    · exact Or.inr hbgsave
  · intro s' hs'
    rcases hkept with ⟨hsave, -⟩ | ⟨hsave, -⟩
    · rw [hsave] at hs'
      cases hs'
    · exact hrunning s' (hsave.symm.trans hs')
  · intro s' hs'
    rcases hkept with ⟨-, hbgsave⟩ | ⟨-, hbgsave⟩
    · exact hrunning s' (hbgsave.symm.trans hs')
    · rw [hbgsave] at hs'
      cases hs'
  · cases r with
    | running s₁ =>
      refine hsame ?_ ha.2.2
      rcases hes with hes | ⟨hr, -⟩
      · exact hes
      · cases hr
    | failed =>
      refine hsame ?_ ha
      rcases hes with hes | ⟨hr, -⟩
      · exact hes
      · cases hr
    | done =>
      intro bytes hbytes
      obtain ⟨d, hd, hdump⟩ := hw.payload
      have hpayload : s.payload = bytes := Option.some.inj (ha.symm.trans hbytes)
      refine ⟨s.number, d, hd, hpayload ▸ hdump, ?_⟩
      intro m hm
      have hlt := hreplied m hm
      have hlatest := hw.latest
      omega

/-- **Every step without overlap leaves the RDB file to one saver.** -/
theorem Alone.step {a : SaversAction} (h : Alone saved st) (hok : NoOverlap st a)
    (hs : st.step a = some (st', es)) : Alone (saved ++ es) st' := by
  cases a with
  | commands d =>
    simp only [Savers.step] at hs
    split_ifs at hs
    cases hs
    rw [List.append_nil]
    exact ⟨h.distinct, h.single, h.save, h.bgsave, h.replied, h.file⟩
  | saveStart =>
    simp only [Savers.step] at hs
    split_ifs at hs
    cases hs
    have hidle : st.bgsave = none := hok
    rw [List.append_nil]
    have hbgsave : ∀ s, st.bgsave = some s → Writing st.snapshot.2.taken st.files s := by
      intro s hs
      rw [hidle] at hs
      cases hs
    exact h.snapshot (Or.inr hidle) (fun s hs => writing_snapshot hs) hbgsave
  | save a =>
    simp only [Savers.step] at hs
    cases hsave : st.save with
    | none =>
      rw [hsave] at hs
      cases hs
    | some s =>
      rw [hsave, Option.bind_some, Option.map_eq_some_iff] at hs
      obtain ⟨⟨r, f'⟩, hstep, heq⟩ := hs
      cases heq
      have hw := h.save s hsave
      obtain ⟨hf, ha⟩ := hw.step h.distinct hstep
      have hidle : st.bgsave = none := by
        rcases h.single with hnone | hidle
        · rw [hsave] at hnone
          cases hnone
        · exact hidle
      apply h.advanced hw hf ha (Or.inr ⟨rfl, hidle⟩)
      cases r with
      | running s₁ => exact Or.inl rfl
      | done => exact Or.inr ⟨rfl, rfl⟩
      | failed => exact Or.inl rfl
  | bgsaveSnapshot =>
    simp only [Savers.step] at hs
    split_ifs at hs with hidle
    cases hs
    have hsave : st.save = none := Option.isNone_iff_eq_none.mp hidle.1
    rw [List.append_nil]
    have hnone : ∀ s, st.save = some s → Writing st.snapshot.2.taken st.files s := by
      intro s hs
      rw [hsave] at hs
      cases hs
    exact h.snapshot (Or.inl hsave) hnone (fun s hs => writing_snapshot hs)
  | bgsave a =>
    simp only [Savers.step] at hs
    cases hbgsave : st.bgsave with
    | none =>
      rw [hbgsave] at hs
      cases hs
    | some s =>
      rw [hbgsave, Option.bind_some, Option.map_eq_some_iff] at hs
      obtain ⟨⟨r, f'⟩, hstep, heq⟩ := hs
      cases heq
      have hw := h.bgsave s hbgsave
      obtain ⟨hf, ha⟩ := hw.step h.distinct hstep
      have hidle : st.save = none := by
        rcases h.single with hidle | hnone
        · exact hidle
        · rw [hbgsave] at hnone
          cases hnone
      exact h.advanced hw hf ha (Or.inl ⟨hidle, rfl⟩) (Or.inl rfl)

/-- Nobody saves yet; a file that is there is that of a snapshot. -/
structure Quiescent (st : Savers) : Prop where
  distinct : st.files.Distinct
  save : st.save = none
  bgsave : st.bgsave = none
  intact : Intact [] st

/-- **The RDB file is never a mixture** in a run in which no SAVE starts while a BGSAVE has
its snapshot and has not ended: in every state the file, once it exists, is the encoding of
one snapshot, which can be loaded, and none older than that of a SAVE that replied OK.
SOURCE: server.py:580-613, persistence/rdb.py:116-125, commands/server_cmds.py:86-104 -/
theorem rdb_intact {st₀ : Savers} (h₀ : Quiescent st₀)
    (hrun : Runs Savers.step NoOverlap st₀ saved st) : Intact saved st := by
  have halone : Alone saved st := by
    refine hrun.invariant (I := Alone) ?_ (fun h hok hs => h.step hok hs)
    refine ⟨h₀.distinct, Or.inl h₀.save, ?_, ?_, ?_, ?_⟩
    · intro s hs
      rw [h₀.save] at hs
      cases hs
    · intro s hs
      rw [h₀.bgsave] at hs
      cases hs
    · intro m hm
      cases hm
    · exact fun bytes hread => (h₀.intact bytes hread).1
  exact halone.intact

/-- The file operations of a saver that is not interrupted. -/
def saveSteps (payload : Bytes) : List SaveStep :=
  [.openTmp, .write payload.length, .sync, .replace]

/-- A dump has a byte. -/
theorem dump_length_pos {d : Entries} {bytes : Bytes} (h : dumpRdbEntries d = some bytes) :
    0 < bytes.length := by
  obtain ⟨body, -, rfl⟩ := Option.map_eq_some_iff.mp h
  have hfooter : 0 < rdbFooter.length := by decide
  rw [List.length_append]
  omega

/-- **A SAVE that nothing interrupts** leaves the file that `cmdSave` of the server's model
writes at once.
SOURCE: persistence/rdb.py:116-125, server.py:580-582 -/
theorem save_uninterrupted {srv : Server} {env : Env} {argv : Command} {payload : Bytes}
    (hd : st.files.Distinct) (hsave : st.save = none) (hbgsave : st.bgsave = none)
    (hkeyspace : st.keyspace = (srv.store.snapshot env.now).1)
    (hdump : dumpRdbEntries st.keyspace = some payload) (hargs : argv.length = 1)
    (herror : env.saveError = none) :
    ∃ st', runAll Savers.step NoOverlap (.saveStart :: (saveSteps payload).map .save) st =
        some ([st.taken.length], st') ∧
      st'.files.read .path = (srv.cmdSave env argv).2.rdbFile := by
  have hpos := dump_length_pos hdump
  have hcmd : (srv.cmdSave env argv).2.rdbFile = some payload := by
    rw [hkeyspace] at hdump
    simp [Server.cmdSave, hargs, hdump, herror]
  obtain ⟨hd', hinode, hcontent, -⟩ := Files.openTruncate_spec hd RdbName.tmp
  have hfile : ((st.files.openTruncate .tmp).2.writeAt (st.files.openTruncate .tmp).1 0
      payload).read .tmp = some payload := by
    have happend := overwrite_length ([] : Bytes) payload
    rw [Files.writeAt, hcontent, Files.read, Files.inode_setContent, hinode, Option.map_some,
      Files.content_setContent]
    exact congrArg some happend
  obtain ⟨g, hg⟩ : ∃ g, ((st.files.openTruncate .tmp).2.writeAt
      (st.files.openTruncate .tmp).1 0 payload).replace .tmp .path = some g := by
    rw [Files.replace, Files.writeAt, Files.inode_setContent, hinode]
    exact ⟨_, rfl⟩
  have hread := (Files.replace_spec (hd'.setContent _ _) hg).2
  refine ⟨{ st with files := g, taken := st.taken ++ [st.keyspace], save := none }, ?_, ?_⟩
  · simp [runAll, saveSteps, Savers.step, Savers.snapshot, hdump, hsave, hbgsave, Saver.step,
      NoOverlap, hpos, Savers.keep, hg]
  · rw [hcmd]
    exact hread.trans hfile

/-! ## Two savers at once -/

/-- A server that has just started in an empty directory. -/
theorem quiescent_start : Quiescent {} := by
  refine ⟨⟨?_, ?_⟩, rfl, rfl, ?_⟩
  · intro n m i hn
    cases hn
  · intro n i hn
    cases hn
  · intro bytes hread
    cases hread

/-- A keyspace with a key. -/
def savedKey : Entries :=
  Dict.empty.insert (ascii "k") { type := .string, value := .bytes (ascii "v") }

/-- The encoding of the empty keyspace. -/
def emptyDump : Bytes := (dumpRdbEntries Dict.empty).getD []

/-- The dump of the key. -/
def savedDump : Bytes := (dumpRdbEntries savedKey).getD []

/-- A BGSAVE of the empty keyspace and then a SAVE of a key. -/
theorem rdb_intact_twice :
    ∃ st, Runs Savers.step NoOverlap {} [1] st ∧ st.files.read .path = some savedDump ∧
      Intact [1] st := by
  have hend : (runAll Savers.step NoOverlap
      (.bgsaveSnapshot :: (saveSteps emptyDump).map .bgsave ++
        .commands savedKey :: .saveStart :: (saveSteps savedDump).map .save) {}).map
        (fun q => (q.1, q.2.files.read .path)) = some ([1], some savedDump) := by
    decide +kernel
  obtain ⟨st, hrun, hread⟩ := exists_runs (fun st : Savers => st.files.read .path) hend
  exact ⟨st, hrun, hread, rdb_intact quiescent_start hrun⟩

/-- What is at `rdb_path` when the handle of BGSAVE is on the file that SAVE has put there: the
snapshot of SAVE with the older one written over it. -/
def mixedDump : Bytes := emptyDump ++ savedDump.drop emptyDump.length

/-- BGSAVE has written one byte when SAVE opens the same temporary file and moves it to
`rdb_path`; then BGSAVE goes on writing. -/
theorem rdb_intact_mixture :
    ∃ st, Runs Savers.step (fun _ _ => True) {} [1] st ∧
      st.files.read .path = some mixedDump ∧ ¬ Intact [1] st := by
  have hend : (runAll Savers.step (fun _ _ => True)
      (.bgsaveSnapshot :: .bgsave .openTmp :: .bgsave (.write 1) :: .commands savedKey ::
        .saveStart :: (saveSteps savedDump).map .save ++
        [.bgsave (.write (emptyDump.length - 1))]) {}).map
        (fun q => (q.1, q.2.files.read .path, q.2.taken)) =
      some ([1], some mixedDump, [Dict.empty, savedKey]) := by
    decide +kernel
  obtain ⟨st, hrun, hview⟩ :=
    exists_runs (fun st : Savers => (st.files.read .path, st.taken)) hend
  obtain ⟨hread, htaken⟩ := Prod.mk.inj hview
  refine ⟨st, hrun, hread, ?_⟩
  intro hintact
  obtain ⟨⟨n, d, hn, hdump, -⟩, -⟩ := hintact mixedDump hread
  have hd : d ∈ [Dict.empty, savedKey] := by
    rw [← htaken]
    exact List.mem_of_getElem? hn
  rcases List.mem_cons.mp hd with rfl | hd
  · exact absurd hdump (by decide +kernel)
  · rw [List.mem_singleton.mp hd] at hdump
    exact absurd hdump (by decide +kernel)

end ByoRedis.Analysis
