import ByoRedis.Analysis.LogReplay
import ByoRedis.Lib.Prefixes

/-!
# Replaying a log under the memory limit that shaped it

`enforce_memory_limit` also runs while a log is replayed and on a replica, over an access
order that reads on the original server changed and the log does not show. The keys it
chooses there are deleted without a record; those the original server chose follow as
records. `replay_under_limit` says exactly when the two servers agree: at every accepted
write, what the replaying server evicts by itself is among what the original evicted.
-/

set_option autoImplicit false

namespace ByoRedis.Analysis

open ByoRedis.Model ByoRedis.Lib ByoRedis.Interface

/-! ## Eviction without deadlines -/

/-- Under `allkeys-lru` the limit can always be met.
SOURCE: storage/store.py:298-319 -/
theorem enforceLoop_lru {now : ℤ} (fuel : ℕ) (s : Store) (hf : Fresh now s.entries)
    (hp : s.maxmemoryPolicy = .allkeysLru) :
    ∃ evicted, (Store.enforceLoop now fuel s).1 = some evicted := by
  induction fuel generalizing s with
  | zero => exact ⟨[], rfl⟩
  | succ fuel ih =>
    simp only [Store.enforceLoop]
    rw [purge_of_fresh hf]
    split_ifs with hu
    · exact ⟨[], rfl⟩
    · cases hv : s.victim with
      | some key =>
        obtain ⟨rest, hrest⟩ := ih (s.evict key) (hf.filter _) hp
        exact ⟨key :: rest, by simp only [hrest, Option.map_some]⟩
      | none =>
        simp only [Store.victim, hp] at hv
        have hnil := minBy_eq_none hv
        simp only [Store.candidates, hp, List.map_eq_nil_iff, List.filter_eq_nil_iff] at hnil
        have hempty : s.entries.entries = [] := by
          rw [List.eq_nil_iff_forall_not_mem]
          intro e he
          exact hnil e he (by simp)
        rw [Store.usageOf, hempty] at hu
        exact absurd (Nat.zero_le _) hu

/-- Without deadlines the other policies evict nothing: they meet the limit or fail.
SOURCE: storage/store.py:298-313 -/
theorem enforceMemoryLimit_strict {now : ℤ} {s : Store} (ht : Timeless s.entries)
    (hp : s.maxmemoryPolicy ≠ .allkeysLru) :
    s.enforceMemoryLimit now =
      if s.maxmemoryBytes = 0 ∨ Store.usageOf s.entries ≤ s.maxmemoryBytes then (some [], s)
      else (none, s) := by
  by_cases hin : s.maxmemoryBytes = 0 ∨ Store.usageOf s.entries ≤ s.maxmemoryBytes
  · rw [if_pos hin]
    exact enforceMemoryLimit_within (ht.fresh now) hin
  · rw [if_neg hin]
    rw [not_or] at hin
    have hv : s.victim = none := by
      unfold Store.victim
      cases hpol : s.maxmemoryPolicy with
      | noeviction => rfl
      | allkeysLru => exact absurd hpol hp
      | volatileTtl =>
        have hnil : s.candidates = [] := by
          rw [Store.candidates, List.map_eq_nil_iff, List.filter_eq_nil_iff]
          intro e he
          simp [hpol, ht e he]
        simp only [hnil, Store.minBy]
    unfold Store.enforceMemoryLimit
    rw [if_neg hin.1]
    simp only [Store.enforceLoop]
    rw [purge_of_fresh (ht.fresh now), if_neg hin.2, hv]

/-- Whether the limit can be met depends on the entries, not on the access order.
SOURCE: storage/store.py:293-319 -/
theorem enforceMemoryLimit_isSome_congr (now now' : ℤ) {s : Store} (s' : Store)
    (ht : Timeless s.entries) (he : s'.entries = s.entries) (hl : SameLimits s s')
    {evicted : List Bytes}
    (h : (s.enforceMemoryLimit now).1 = some evicted) :
    ∃ evicted', (s'.enforceMemoryLimit now').1 = some evicted' := by
  have ht' : Timeless s'.entries := by rw [he]; exact ht
  by_cases hp : s.maxmemoryPolicy = .allkeysLru
  · unfold Store.enforceMemoryLimit
    split_ifs
    · exact ⟨[], rfl⟩
    · exact enforceLoop_lru _ s' (ht'.fresh now') (hl.2.trans hp)
  · rw [enforceMemoryLimit_strict ht hp] at h
    rw [enforceMemoryLimit_strict ht' (by rw [hl.2]; exact hp), hl.1, he]
    split_ifs at h ⊢
    exact ⟨[], rfl⟩

/-! ## One command and its evictions on the replaying server -/

/-- A log is applied part by part. -/
theorem applyLog_append (flags : Flags) (clock : ℕ → ℤ) (log log' : List Command) (srv : Server) :
    applyLog flags clock (log ++ log') srv =
      applyLog flags (fun i => clock (i + log.length)) log' (applyLog flags clock log srv) := by
  induction log generalizing clock srv with
  | nil => rfl
  | cons argv log ih =>
    rw [List.cons_append]
    simp only [applyLog]
    rw [ih]
    simp only [List.length_cons, Nat.add_assoc]

/-- Calls are served part by part. -/
theorem serve_append (srv : Server) (calls calls' : List Call) :
    serve srv (calls ++ calls') =
      ((serve srv calls).1 ++ (serve (serve srv calls).2 calls').1,
        (serve (serve srv calls).2 calls').2) := by
  induction calls generalizing srv with
  | nil => rfl
  | cons c calls ih =>
    rw [List.cons_append]
    simp only [serve]
    rw [ih]
    simp

/-- A store within its limit. -/
def Within (s : Store) : Prop :=
  s.maxmemoryBytes = 0 ∨ Store.usageOf s.entries ≤ s.maxmemoryBytes

/-- The records of evictions delete their keys and make room, so that nothing else is
evicted.
SOURCE: server.py:475-479, 511-522 -/
theorem applyLog_evictions {flags : Flags} (hf : flags.isReplicaClient = true) (clock : ℕ → ℤ)
    (evicted : List Bytes) (srv : Server) (ht : Timeless srv.store.entries)
    (hin : Within srv.store) :
    (applyLog flags clock (evicted.map Server.evictionRecord) srv).store.entries =
      srv.store.entries.eraseMany evicted ∧
    SameLimits srv.store
      (applyLog flags clock (evicted.map Server.evictionRecord) srv).store := by
  induction evicted generalizing clock srv with
  | nil => exact ⟨rfl, SameLimits.refl _⟩
  | cons k evicted ih =>
    have hw := isWrite_evictionRecord k
    obtain ⟨hout, hst, -, hlim⟩ := execute_applied srv { now := clock 0 } 0 hf hw []
    have heff : effect (clock 0) (Server.evictionRecord k) (srv.store.live (clock 0)) =
        some (srv.store.entries.erase k) := by
      rw [live_of_fresh (ht.fresh _), effect_evictionRecord]
    obtain ⟨hent, hsame, hfresh⟩ := handled_spec hw heff
    have hwithin : (handled (clock 0) (Server.evictionRecord k) srv.store).enforceMemoryLimit
        (clock 0) = (some [], handled (clock 0) (Server.evictionRecord k) srv.store) := by
      apply enforceMemoryLimit_within
      · rw [hent]; exact hfresh
      · rw [hent, hsame.1]
        rcases hin with h | h
        · exact Or.inl h
        · exact Or.inr ((usageOf_filter_le _ _).trans h)
    have hstep : (srv.execute { now := clock 0 } flags 0 (Server.evictionRecord k)
        []).server.store.entries = srv.store.entries.erase k := by
      rw [hst]
      generalize srv.prepare { now := clock 0 } flags 0 (Server.evictionRecord k) = r at hout
      cases hout with
      | refused m h1 => rw [heff] at h1; cases h1
      | oom d s h1 h2 => rw [hwithin] at h2; cases h2
      | accepted d e v s h1 h2 =>
        rw [hwithin] at h2
        cases h2
        exact hent
    have ht' : Timeless (srv.execute { now := clock 0 } flags 0 (Server.evictionRecord k)
        []).server.store.entries := by
      rw [hstep]
      exact ht.eraseMany [k]
    have hin' : Within (srv.execute { now := clock 0 } flags 0 (Server.evictionRecord k)
        []).server.store := by
      unfold Within
      rw [hstep, hlim.1]
      rcases hin with h | h
      · exact Or.inl h
      · exact Or.inr ((usageOf_filter_le _ _).trans h)
    obtain ⟨h1, h2⟩ := ih (fun i => clock (i + 1)) _ ht' hin'
    rw [List.map_cons, Dict.eraseMany_cons]
    refine ⟨?_, hlim.trans h2⟩
    rw [← hstep]
    exact h1

/-- The condition on one client command, `m` and `r` being the original and the replaying
server before it: if the command is accepted, the access order of the replaying server
sends no key away that the access order of the original keeps. -/
def VictimsAgree (m r : Server) (c : Call) (now : ℤ) : Prop :=
  Accepted m c.env c.conn c.argv →
    ∀ k ∈ localVictims now c.argv r.store, k ∈ localVictims c.env.now c.argv m.store

/-- Deleting more keys first makes no difference exactly when they are deleted anyway. -/
theorem eraseMany_eraseMany_eq_iff {d : Entries} {xs ys : List Bytes}
    (hxs : ∀ k ∈ xs, k ∈ d.keys) :
    (d.eraseMany xs).eraseMany ys = d.eraseMany ys ↔ ∀ k ∈ xs, k ∈ ys := by
  rw [Dict.eraseMany_eq_filter, Dict.eraseMany_eq_filter, Dict.eraseMany_eq_filter,
    Dict.filter_filter]
  constructor
  · intro h k hk
    by_contra hny
    obtain ⟨v, hv⟩ := (d.mem_keys_iff k).mp (hxs k hk)
    have hget := congrArg (fun e => Dict.get? e k) h
    simp [Dict.get?_filter, hv, Option.filter, hk, hny] at hget
  · intro h
    congr 1
    funext k v
    by_cases hk : k ∈ xs
    · simp [hk, h k hk]
    · simp [hk]

/-- **One client command and its records on the replaying server.** From equal keyspaces
the two servers come to equal keyspaces exactly when their victims agree.
SOURCE: server.py:475-522 -/
theorem entries_eq_iff_victimsAgree {flags : Flags} (hf : flags.isReplicaClient = true)
    (clock : ℕ → ℤ) {m r : Server} (hm : Settled m) (c : Call) (ht : TtlFree c.argv)
    (he : r.store.entries = m.store.entries) (hl : SameLimits m.store r.store) :
    ((applyLog flags clock (m.execute c.env .client c.conn c.argv []).records r).store.entries =
        (m.execute c.env .client c.conn c.argv []).server.store.entries ↔
      VictimsAgree m r c (clock 0)) ∧
    SameLimits (m.execute c.env .client c.conn c.argv []).server.store
      (applyLog flags clock (m.execute c.env .client c.conn c.argv []).records r).store := by
  have hfm := hm.timeless.fresh c.env.now
  have htr : Timeless r.store.entries := by rw [he]; exact hm.timeless
  obtain ⟨hstep, hsteady⟩ := execute_client c.env c.conn c.argv
    hm.role hm.healthy
  have hlm := hsteady.limits
  cases hstep with
  | silent hnot hrec hwrite hkeep =>
    have hback : SameLimits (m.execute c.env .client c.conn c.argv []).server.store r.store :=
      ⟨hl.1.trans hlm.1.symm, hl.2.trans hlm.2.symm⟩
    rw [hrec, hkeep hfm]
    refine ⟨⟨fun _ hacc => absurd hacc hnot, fun _ => he⟩, hback⟩
  | logged d evicted hacc heff hlim hrec =>
    have hw := hacc.write
    obtain ⟨hent, -, -⟩ := accepted_spec hw heff hlim
    rw [live_of_fresh hfm] at heff
    have heffr : effect (clock 0) c.argv (r.store.live (clock 0)) = some d := by
      rw [live_of_fresh (htr.fresh _), he, effect_of_ttlFree ht (clock 0) c.env.now]
      exact heff
    have hdt : Timeless d := hm.timeless.effect ht heff
    -- the replaying server accepts the command as well
    obtain ⟨hmh, hms, -⟩ := handled_spec (s := m.store) hw
      (by rw [live_of_fresh hfm]; exact heff)
    obtain ⟨hrh, hrs, -⟩ := handled_spec (s := r.store) hw heffr
    obtain ⟨own, hown⟩ := enforceMemoryLimit_isSome_congr c.env.now (clock 0)
      (s := handled c.env.now c.argv m.store) (handled (clock 0) c.argv r.store)
      (by rw [hmh]; exact hdt) (by rw [hmh, hrh])
      ⟨hrs.1.trans (hl.1.trans hms.1.symm), hrs.2.trans (hl.2.trans hms.2.symm)⟩
      (by rw [hlim])
    rcases henf : (handled (clock 0) c.argv r.store).enforceMemoryLimit (clock 0) with ⟨o, s⟩
    rw [henf] at hown
    simp only at hown
    subst hown
    obtain ⟨hrent, hrkeys, hrlim⟩ := accepted_spec hw heffr henf
    have hvm : localVictims c.env.now c.argv m.store = evicted := by
      rw [localVictims, hlim]
      rfl
    have hvr : localVictims (clock 0) c.argv r.store = own := by
      rw [localVictims, henf]
      rfl
    obtain ⟨hout, hst, -, -⟩ := execute_applied r { now := clock 0 } 0 hf hw []
    have hstore : (r.execute { now := clock 0 } flags 0 c.argv []).server.store = s := by
      rw [hst]
      generalize r.prepare { now := clock 0 } flags 0 c.argv = p at hout
      cases hout with
      | refused m h1 => rw [heffr] at h1; cases h1
      | oom d' s' h1 h2 => rw [henf] at h2; cases h2
      | accepted d' e v s' h1 h2 => rw [henf] at h2; cases h2; rfl
    have hwithin : Within s := by
      have hspec := (enforceMemoryLimit_spec (clock 0) (s := handled (clock 0) c.argv r.store)
        (by rw [hrh]; exact hdt.fresh _)).2 own (by rw [henf])
      rw [hrh, henf] at hspec
      unfold Within
      rw [hrent, hrlim.1, ← hrs.1]
      exact hspec.2.2
    obtain ⟨hfin, hfinl⟩ := applyLog_evictions hf (fun i => clock (i + 1)) evicted
      (r.execute { now := clock 0 } flags 0 c.argv []).server
      (by rw [hstore, hrent]; exact hdt.eraseMany own) (by rw [hstore]; exact hwithin)
    rw [hstore] at hfin hfinl
    have happ : applyLog flags clock (c.argv :: evicted.map Server.evictionRecord) r =
        applyLog flags (fun i => clock (i + 1)) (evicted.map Server.evictionRecord)
          (r.execute { now := clock 0 } flags 0 c.argv []).server := rfl
    constructor
    · rw [hrec, happ, hfin, hent, hrent, eraseMany_eraseMany_eq_iff hrkeys, VictimsAgree, hvr,
        hvm]
      exact ⟨fun h _ => h, fun h => h hacc⟩
    · rw [hrec, happ]
      exact ⟨hfinl.1.trans (hrlim.1.trans (hl.1.trans hlm.1.symm)),
        hfinl.2.trans (hrlim.2.trans (hl.2.trans hlm.2.symm))⟩

/-! ## Runs -/

/-- The replaying server after the records of `calls`. -/
def replayer (cfg : Config) (replid : Replid) (flags : Flags) (clock : ℕ → ℤ) (replica : Server)
    (calls : List Call) : Server :=
  applyLog flags clock (serve (started cfg replid) calls).1 replica

/-- One more command: the replaying server goes on from where it was. -/
theorem replayer_snoc (cfg : Config) (replid : Replid) (flags : Flags) (clock : ℕ → ℤ)
    (replica : Server) (calls : List Call) (c : Call) :
    replayer cfg replid flags clock replica (calls ++ [c]) =
      applyLog flags (fun i => clock (i + (serve (started cfg replid) calls).1.length))
        ((serve (started cfg replid) calls).2.execute c.env .client c.conn c.argv []).records
        (replayer cfg replid flags clock replica calls) := by
  rw [replayer, serve_append, applyLog_append]
  simp [serve, replayer]

/-- The server after one more call. -/
theorem serve_snoc (srv : Server) (calls : List Call) (c : Call) :
    (serve srv (calls ++ [c])).2 =
      ((serve srv calls).2.execute c.env .client c.conn c.argv []).server := by
  rw [serve_append]
  rfl

/-- **Replaying a log under the memory limit that shaped it.** At every point of a run of
client commands without TTL the replaying server, through the AOF or as a replica, has the
keyspace of the original if and only if their victims agree at every command.
SOURCE: server.py:226-240, 475-522, storage/store.py:293-324 -/
theorem replay_under_limit {cfg : Config} (replid : Replid) (hrole : cfg.isReplica = false)
    {flags : Flags} (hf : flags.isReplicaClient = true) {replica : Server}
    (hempty : replica.store = cfg.emptyStore) (clock : ℕ → ℤ) (calls : List Call)
    (ht : ∀ c ∈ calls, TtlFree c.argv) :
    (∀ done, done <+: calls →
      (replayer cfg replid flags clock replica done).store.entries =
        (serve (started cfg replid) done).2.store.entries) ↔
    ∀ done c, done ++ [c] <+: calls →
      VictimsAgree (serve (started cfg replid) done).2
        (replayer cfg replid flags clock replica done) c
        (clock (serve (started cfg replid) done).1.length) := by
  refine forall_prefix_iff calls
    (P := fun done => (replayer cfg replid flags clock replica done).store.entries =
      (serve (started cfg replid) done).2.store.entries)
    (I := fun done => SameLimits (serve (started cfg replid) done).2.store
      (replayer cfg replid flags clock replica done).store)
    (C := fun done c => VictimsAgree (serve (started cfg replid) done).2
      (replayer cfg replid flags clock replica done) c
      (clock (serve (started cfg replid) done).1.length)) ?_ ?_ ?_
  · show replica.store.entries = Dict.empty
    rw [hempty]
    rfl
  · show SameLimits cfg.emptyStore replica.store
    rw [hempty]
    exact SameLimits.refl _
  · intro done c hpre he hl
    have hdone := (List.prefix_append done [c]).trans hpre
    have hm : Settled (serve (started cfg replid) done).2 :=
      (entries_serve (settled_started replid hrole) done
        (fun c' hc' => ht c' (hdone.subset hc'))).1
    have hone := entries_eq_iff_victimsAgree hf
      (fun i => clock (i + (serve (started cfg replid) done).1.length)) hm c
      (ht c (hpre.subset (by simp))) he hl
    rw [replayer_snoc, serve_snoc]
    simpa only [Nat.zero_add] using hone

/-- Room for two keys. -/
def lruConfig : Config := { maxmemoryBytes := 140, maxmemoryPolicy := .allkeysLru }

/-- Two keys, and a third that makes one of them go. -/
def lruWrites : List Call :=
  [{ argv := [ascii "SET", ascii "a", ascii "1"] },
    { argv := [ascii "SET", ascii "b", ascii "1"] },
    { argv := [ascii "SET", ascii "c", ascii "1"] }]

/-- The same writes with a read of `a` before the third. -/
def lruReads : List Call :=
  [{ argv := [ascii "SET", ascii "a", ascii "1"] },
    { argv := [ascii "SET", ascii "b", ascii "1"] },
    { argv := [ascii "GET", ascii "a"] },
    { argv := [ascii "SET", ascii "c", ascii "1"] }]

/-- Without the read the original and the replay evict the same key. -/
theorem replay_under_limit_lruWrites :
    (replayer lruConfig default .loading (fun _ => 0) (started lruConfig default)
        lruWrites).store.entries =
      (serve (started lruConfig default) lruWrites).2.store.entries := by
  refine (replay_under_limit default rfl (rfl : Flags.loading.isReplicaClient = true) rfl
    (fun _ => 0) lruWrites (by decide)).mpr ?_ lruWrites (List.prefix_refl _)
  refine forall_prefix_cons ?_ (forall_prefix_cons ?_ (forall_prefix_cons ?_ forall_prefix_nil))
  all_goals
    intro _
    decide

/-- With the read the original evicts `b` and logs it; the replay evicts `a` by itself,
applies the deletion of `b`, and ends with `c` alone. -/
theorem replay_under_limit_lruReads :
    (serve (started lruConfig default) lruReads).2.store.entries.keys = [ascii "a", ascii "c"] ∧
    (replayer lruConfig default .loading (fun _ => 0) (started lruConfig default)
      lruReads).store.entries.keys = [ascii "c"] ∧
    (replayer lruConfig default .replicated (fun _ => 0) (started lruConfig default)
      lruReads).store.entries.keys = [ascii "c"] := by
  decide

end ByoRedis.Analysis
