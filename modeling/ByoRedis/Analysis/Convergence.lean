import ByoRedis.Analysis.LogReplay
import ByoRedis.Analysis.RdbRoundTrip

/-!
# A replica converges to its master

A replica loads a snapshot of the master and then applies what the master propagated
after it. Without deadlines the two keyspaces are equal at the end, in content and in the
order of keys, lists and hash fields: the snapshot is read back exactly, and both sides
are the replay of the same records from it.
-/

set_option autoImplicit false

namespace ByoRedis.Analysis

open ByoRedis.Model ByoRedis.Lib ByoRedis.Interface

/-- The master after `store.snapshot()` at time `t`, which purges the store. -/
def snapshotted (srv : Server) (t : ℤ) : Server :=
  { srv with store := (srv.store.snapshot t).2 }

/-- The replica after `store.load_entries(entries)`. -/
def resynced (srv : Server) (entries : Entries) : Server :=
  { srv with store := srv.store.loadEntries entries }

/-- The snapshot of a keyspace without deadlines changes nothing. -/
theorem settled_snapshotted {srv : Server} (h : Settled srv) (t : ℤ) :
    snapshotted srv t = srv := by
  unfold snapshotted
  simp only [Store.snapshot]
  rw [purge_of_fresh (h.timeless.fresh t)]

/-- Without deadlines the load of a dump gives back the dumped entries.
SOURCE: persistence/rdb.py:79-188 -/
theorem loadRdbBytes_of_timeless {entries : Entries} {rdb : Bytes} {limit : ℕ}
    (ht : Timeless entries) (hdump : dumpRdbEntries entries = some rdb)
    (hlen : rdb.length ≤ limit) (now : ℤ) : loadRdbBytes limit now rdb = .ok entries := by
  rw [loadRdbBytes_dumpRdbEntries hdump hlen ?_ now]
  · congr 1
    apply Dict.filter_eq_self
    intro e he
    simp [ht.fresh now e he]
  · intro e he d hd
    rw [ht e he] at hd
    cases hd

/-- **Master and replica converge.** The master starts empty under any memory limit and
policy, serves any client commands without TTL, gives a snapshot at any point, and serves
any further ones; commands may be refused, or rolled back for lack of memory. A replica
without a memory limit that loads the snapshot and applies the records committed after it
ends with the master's keyspace.
SOURCE: server.py:475-529, persistence/rdb.py:79-188, storage/store.py:58-84 -/
theorem replica_converges {cfg : Config} (replid : Replid) (hrole : cfg.isReplica = false)
    (before after : List Call) (hbefore : ∀ c ∈ before, TtlFree c.argv)
    (hafter : ∀ c ∈ after, TtlFree c.argv) (t : ℤ) {rdb : Bytes}
    (hdump : dumpRdbEntries ((serve (started cfg replid) before).2.store.snapshot t).1 = some rdb)
    {limit : ℕ} (hlen : rdb.length ≤ limit) (replica : Server)
    (hunlimited : replica.store.maxmemoryBytes = 0) (loadTime : ℤ) (clock : ℕ → ℤ) :
    ∃ entries, loadRdbBytes limit loadTime rdb = .ok entries ∧
      (applyLog .replicated clock
          (serve (snapshotted (serve (started cfg replid) before).2 t) after).1
          (resynced replica entries)).store.entries =
        (serve (snapshotted (serve (started cfg replid) before).2 t) after).2.store.entries := by
  obtain ⟨hm, -, -⟩ := entries_serve (settled_started replid hrole) before hbefore
  rw [settled_snapshotted hm t]
  obtain ⟨-, hlog, hrecords⟩ := entries_serve hm after hafter
  have hsnap : ((serve (started cfg replid) before).2.store.snapshot t).1 =
      (serve (started cfg replid) before).2.store.entries :=
    live_of_fresh (hm.timeless.fresh t)
  rw [hsnap] at hdump
  refine ⟨_, loadRdbBytes_of_timeless hm.timeless hdump hlen loadTime, ?_⟩
  obtain ⟨happly, -, -⟩ := entries_applyLog
    (rfl : Flags.replicated.isReplicaClient = true) clock _ hrecords
    (resynced replica (serve (started cfg replid) before).2.store.entries)
    hunlimited hm.timeless
  rw [happly, hlog]
  rfl

/-- A master that may hold about two keys: `a` is in the snapshot and is evicted by the
write of `c`, and the list `b` by the next one. -/
def tightConfig : Config := { maxmemoryBytes := 140, maxmemoryPolicy := .allkeysLru }

/-- The command before the snapshot. -/
def tightBefore : List Call := [{ argv := [ascii "SET", ascii "a", ascii "1"] }]

/-- The commands after the snapshot; the last one is refused. -/
def tightAfter : List Call :=
  [{ argv := [ascii "LPUSH", ascii "b", ascii "2"] },
    { argv := [ascii "SET", ascii "c", ascii "3"] },
    { argv := [ascii "RPOP", ascii "c"] }]

/-- The snapshot of `tightBefore`. -/
def tightRdb : Bytes :=
  (dumpRdbEntries ((serve (started tightConfig default) tightBefore).2.store.snapshot 0).1).get
    (by decide)

/-- Each of the two writes evicts a key on the master, and the replica, which has no limit, ends
with the master's entries. -/
theorem replica_converges_tight :
    (serve (snapshotted (serve (started tightConfig default) tightBefore).2 0) tightAfter).1 =
      [[ascii "LPUSH", ascii "b", ascii "2"], [ascii "DEL", ascii "a"],
        [ascii "SET", ascii "c", ascii "3"], [ascii "DEL", ascii "b"]] ∧
    ∃ entries, loadRdbBytes 1024 0 tightRdb = .ok entries ∧
      (applyLog .replicated (fun _ => 0)
          (serve (snapshotted (serve (started tightConfig default) tightBefore).2 0) tightAfter).1
          (resynced (started {} default) entries)).store.entries =
        (serve (snapshotted (serve (started tightConfig default) tightBefore).2 0)
          tightAfter).2.store.entries :=
  ⟨by decide, replica_converges default rfl tightBefore tightAfter (by decide) (by decide) 0
    (Option.some_get _).symm (by decide) (started {} default) rfl 0 (fun _ => 0)⟩

end ByoRedis.Analysis
