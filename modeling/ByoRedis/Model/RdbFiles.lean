import ByoRedis.Lib.Files
import ByoRedis.Model.Rdb

/-!
# SAVE and BGSAVE on the file system

`dump_rdb` of `byo_redis/persistence/rdb.py` and `_bgsave_worker` of `byo_redis/server.py`,
one file operation at a time. SAVE runs on the event loop, which does nothing else until it
has ended, while the file operations of BGSAVE run in a worker thread. Both write the
temporary file of the same name and move it onto the RDB file.

A write goes to the file in pieces of any size, and every operation may fail with `OSError`,
which ends the saver.
-/

set_option autoImplicit false

namespace ByoRedis.Model

open ByoRedis.Lib

/-- `rdb_path` and its temporary file. -/
inductive RdbName where
  | path
  | tmp
  deriving DecidableEq

/-- Where a saver stands: before `open`, with a handle on an inode at an offset, or before
`os.replace`. -/
inductive SaveStage where
  | opening
  | writing (inode offset : ℕ)
  | replacing
  deriving DecidableEq

/-- SAVE or BGSAVE once it has taken its snapshot: the number of the snapshot and its
encoding. -/
structure Saver where
  number : ℕ
  payload : Bytes
  stage : SaveStage := .opening

/-- The next operation of a saver: `open`, a write of `n` bytes, `fsync` and `close`,
`os.replace`, or an operation that fails. -/
inductive SaveStep where
  | openTmp
  | write (n : ℕ)
  | sync
  | replace
  | fail

/-- What has become of a saver. -/
inductive SaveResult where
  | running (s : Saver)
  | done
  | failed

/-- One file operation; `none` when the saver is not at it. A temporary file that is gone
makes `os.replace` fail.
SOURCE: persistence/rdb.py:116-125, server.py:599-607 -/
def Saver.step (s : Saver) (f : Files RdbName UInt8) :
    SaveStep → Option (SaveResult × Files RdbName UInt8)
  | .openTmp =>
    match s.stage with
    | .opening =>
      let r := f.openTruncate .tmp
      some (.running { s with stage := .writing r.1 0 }, r.2)
    | _ => none
  | .write n =>
    match s.stage with
    | .writing i offset =>
      if 0 < n ∧ offset + n ≤ s.payload.length then
        some (.running { s with stage := .writing i (offset + n) },
          f.writeAt i offset ((s.payload.drop offset).take n))
      else none
    | _ => none
  | .sync =>
    match s.stage with
    | .writing _ offset =>
      if offset = s.payload.length then some (.running { s with stage := .replacing }, f) else none
    | _ => none
  | .replace =>
    match s.stage with
    | .replacing =>
      match f.replace .tmp .path with
      | some f => some (.done, f)
      | none => some (.failed, f)
    | _ => none
  | .fail => some (.failed, f)

/-- The keyspace, the files and the two savers. `taken` are the snapshots taken so far. -/
structure Savers where
  keyspace : Entries := Dict.empty
  files : Files RdbName UInt8 := {}
  taken : List Entries := []
  save : Option Saver := none
  bgsave : Option Saver := none

/-- What happens next: commands change the keyspace, SAVE starts, BGSAVE takes its snapshot,
or one of the savers does a file operation. -/
inductive SaversAction where
  | commands (d : Entries)
  | saveStart
  | save (step : SaveStep)
  | bgsaveSnapshot
  | bgsave (step : SaveStep)

namespace Savers

/-- A snapshot, and the saver that writes it; none when it cannot be encoded. -/
def snapshot (st : Savers) : Option Saver × Savers :=
  ((dumpRdbEntries st.keyspace).map fun payload =>
      { number := st.taken.length, payload := payload },
    { st with taken := st.taken ++ [st.keyspace] })

/-- The saver after an operation. -/
def keep : SaveResult → Option Saver
  | .running s => some s
  | _ => none

/-- One step; the event is the number of the snapshot of a SAVE that replies OK. While SAVE
runs only the worker thread of BGSAVE does anything else, and there is at most one.
SOURCE: server.py:580-613, commands/server_cmds.py:86-104 -/
def step (st : Savers) : SaversAction → Option (Savers × List ℕ)
  | .commands d => if st.save.isNone then some ({ st with keyspace := d }, []) else none
  | .saveStart =>
    if st.save.isNone then
      let r := st.snapshot
      some ({ r.2 with save := r.1 }, [])
    else none
  | .save a =>
    st.save.bind fun s => (s.step st.files a).map fun r =>
      ({ st with files := r.2, save := keep r.1 },
        match r.1 with
        | .done => [s.number]
        | _ => [])
  | .bgsaveSnapshot =>
    if st.save.isNone ∧ st.bgsave.isNone then
      let r := st.snapshot
      some ({ r.2 with bgsave := r.1 }, [])
    else none
  | .bgsave a =>
    st.bgsave.bind fun s => (s.step st.files a).map fun r =>
      ({ st with files := r.2, bgsave := keep r.1 }, [])

end Savers

end ByoRedis.Model
