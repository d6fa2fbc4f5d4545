import ByoRedis.Lib.Trace
import ByoRedis.Analysis.ReplicationSteps

/-!
# Full resyncs lose nothing

A link that is registered and alive has been sent, or will be sent from what waits for it,
the header and the snapshot followed by every record propagated since the snapshot was
taken, each once and in order. `Stream` is this for one link, `LinkStep.stream` carries it
through every action, and `full_resync_stream` puts it together over whole runs, with the
snapshot being the effects of everything executed before it.
-/

set_option autoImplicit false

namespace ByoRedis.Analysis

open ByoRedis.Model ByoRedis.Lib ByoRedis.Interface

/-! ## One link -/

/-- A registered link that has not been given up. -/
structure Attached (sys : System) (c : ℕ) (l : ReplicaLink) : Prop where
  registered : c ∈ sys.server.master.replicas
  link : sys.server.master.links.get? c = some l
  alive : l.alive = true

/-- What a resync has taken and not yet written: the snapshot with its header, or a batch.
SOURCE: replication/master.py:152-181 -/
def unsent (replid : Bytes) : Option Resync → Bytes
  | none => []
  | some (.encoding d offset) =>
    (dumpRdbEntries d).elim [] (MasterReplication.fullresyncPayload replid offset)
  | some (.flushing batch) => batch.flatten

/-- The records propagated in a history, as they go over the wire. -/
def payloads (evs : List Event) : Bytes := (propagatedOf evs).flatMap encodeCommand

/-- The payloads of two parts of a run. -/
theorem payloads_append (evs es : List Event) :
    payloads (evs ++ es) = payloads evs ++ payloads es := by
  rw [payloads, propagatedOf_append, List.flatMap_append]
  rfl

/-- Events that propagate nothing have no payload. -/
theorem payloads_of_propagatedOf_nil {es : List Event} (h : propagatedOf es = []) :
    payloads es = [] := by
  rw [payloads, h]
  rfl

/-- How the state of a link goes with its resync.
SOURCE: replication/master.py:143-189 -/
def InPhase (d : Entries) (off : ℕ) (l : ReplicaLink) : Option Resync → Prop
  | none => l.state = .live ∧ l.backlog = []
  | some (.encoding d' off') => l.state = .syncing ∧ l.written = [] ∧ d' = d ∧ off' = off
  | some (.flushing _) => l.state = .syncing

/-- A link with its resync holds the stream of the snapshot `d` taken at offset `off` and of
the payloads `sent` after it, with which the master is at offset `cur`. -/
structure Stream (replid : Bytes) (d : Entries) (off : ℕ) (sent : Bytes) (cur : ℕ)
    (resync : Option Resync) (l : ReplicaLink) : Prop where
  bytes : ∀ rdb, dumpRdbEntries d = some rdb →
    l.written ++ unsent replid resync ++ l.backlog.flatten =
      MasterReplication.fullresyncPayload replid off rdb ++ sent
  offset : l.offset = off + sent.length
  current : cur = l.offset
  phase : InPhase d off l resync

variable {replid : Bytes} {d : Entries} {off cur : ℕ} {sent : Bytes}
  {resync : Option Resync} {l l' : ReplicaLink}

/-- Only the bytes, the offset and the state of a link matter. -/
theorem Stream.kept (h : Stream replid d off sent cur resync l)
    (hw : l'.written = l.written) (hb : l'.backlog = l.backlog) (ho : l'.offset = l.offset)
    (hs : l'.state = l.state) : Stream replid d off sent cur resync l' := by
  refine ⟨by rw [hw, hb]; exact h.bytes, by rw [ho]; exact h.offset, by rw [ho]; exact h.current,
    ?_⟩
  have hphase := h.phase
  unfold InPhase at hphase ⊢
  rw [hw, hb, hs]
  exact hphase

/-- A link that has just been registered.
SOURCE: replication/master.py:66-80, 146-151 -/
theorem stream_registered (replid : Bytes) (d : Entries) (off : ℕ) :
    Stream replid d off [] off (some (.encoding d off)) { offset := off, state := .syncing } := by
  refine ⟨?_, rfl, rfl, rfl, rfl, rfl, rfl⟩
  intro rdb hdump
  simp [unsent, hdump]

/-- SOURCE: replication/master.py:152-161 -/
theorem Stream.send {d' : Entries} {off' : ℕ} {rdb : Bytes}
    (h : Stream replid d off sent cur (some (.encoding d' off')) l)
    (hdump : dumpRdbEntries d' = some rdb) :
    Stream replid d off sent cur (some (.flushing []))
      { l with
        written := l.written ++ MasterReplication.fullresyncPayload replid off' rdb } := by
  obtain ⟨hstate, -, -, -⟩ := h.phase
  refine ⟨?_, h.offset, h.current, hstate⟩
  intro rdb' hdump'
  rw [← h.bytes rdb' hdump']
  simp [unsent, hdump]

/-- The switch to live.
SOURCE: replication/master.py:170-175 -/
theorem Stream.goLive (h : Stream replid d off sent cur (some (.flushing [])) l)
    (hempty : l.backlog = []) :
    Stream replid d off sent cur none
      { l with backlog := [], backlogBytes := 0, state := .live, offset := cur } := by
  refine ⟨?_, by rw [h.current]; exact h.offset, rfl, rfl, rfl⟩
  intro rdb hdump
  rw [← h.bytes rdb hdump, hempty]
  rfl

/-- SOURCE: replication/master.py:168-178 -/
theorem Stream.take (h : Stream replid d off sent cur (some (.flushing [])) l) :
    Stream replid d off sent cur (some (.flushing l.backlog))
      { l with backlog := [], backlogBytes := 0 } := by
  refine ⟨?_, h.offset, h.current, h.phase⟩
  intro rdb hdump
  rw [← h.bytes rdb hdump]
  simp [unsent]

/-- SOURCE: replication/master.py:180-181 -/
theorem Stream.flush {batch : List Bytes}
    (h : Stream replid d off sent cur (some (.flushing batch)) l) :
    Stream replid d off sent cur (some (.flushing []))
      { l with written := l.written ++ batch.flatten } := by
  refine ⟨?_, h.offset, h.current, h.phase⟩
  intro rdb hdump
  rw [← h.bytes rdb hdump]
  simp [unsent]

/-- A link in any phase takes a payload behind everything else.
SOURCE: replication/master.py:225-247 -/
theorem Stream.propagate {m : MasterReplication} {payload : Bytes} {fails : Bool}
    (h : Stream replid d off sent cur resync l) (ha : Accepts m payload fails l) :
    Stream replid d off (sent ++ payload) (cur + payload.length) resync
      (m.propagateLink payload (cur + payload.length) fails l).1 := by
  have hoffset : cur + payload.length = off + (sent ++ payload).length := by
    rw [h.current, h.offset, List.length_append, Nat.add_assoc]
  rw [propagateLink_of_accepts ha]
  have hphase := h.phase
  cases hs : l.state with
  | syncing =>
    refine ⟨?_, hoffset, rfl, ?_⟩
    · intro rdb hdump
      simp only [List.flatten_append, List.flatten_singleton, ← List.append_assoc]
      rw [← h.bytes rdb hdump]
    · cases resync with
      | none =>
        rw [InPhase, hs] at hphase
        cases hphase.1
      | some r =>
        cases r with
        | encoding d' off' => exact ⟨rfl, hphase.2⟩
        | flushing batch => exact rfl
  | live =>
    cases resync with
    | none =>
      refine ⟨?_, hoffset, rfl, ?_⟩
      · intro rdb hdump
        have hbytes := h.bytes rdb hdump
        simp only [unsent, hphase.2, List.append_nil, List.flatten_nil] at hbytes ⊢
        rw [hbytes, List.append_assoc]
      · exact ⟨rfl, hphase.2⟩
    | some r =>
      cases r <;> simp [InPhase, hs] at hphase

/-! ## The operations on one link -/

/-- From `m` to `m'` only the link of `conn` and its registration changed. -/
structure Elsewhere (conn : ℕ) (m m' : MasterReplication) : Prop where
  replid : m'.replid = m.replid
  offset : m'.offset = m.offset
  nodup : m.replicas.Nodup → m'.replicas.Nodup
  registered : ∀ c, c ≠ conn → c ∈ m'.replicas → c ∈ m.replicas
  links : ∀ c, c ≠ conn → m'.links.get? c = m.links.get? c

/-- Another link does not see the update of a link. -/
theorem elsewhere_setLink (m : MasterReplication) (conn : ℕ) (l : ReplicaLink) :
    Elsewhere conn m (m.setLink conn l) :=
  ⟨rfl, rfl, id, fun _ _ h => h, fun _ hc => Dict.get?_insert_of_ne _ _ hc⟩

/-- Another link does not see that nothing was done. -/
theorem elsewhere_refl (m : MasterReplication) (conn : ℕ) : Elsewhere conn m m :=
  ⟨rfl, rfl, id, fun _ _ h => h, fun _ _ => rfl⟩

/-- Another link does not see the registration of a link. -/
theorem elsewhere_registerSyncing (m : MasterReplication) (conn : ℕ) :
    Elsewhere conn m (m.registerSyncing conn) := by
  refine ⟨rfl, rfl, ?_, ?_, fun _ hc => Dict.get?_insert_of_ne _ _ hc⟩
  · intro hnodup
    show (if conn ∈ m.replicas then m.replicas else m.replicas ++ [conn]).Nodup
    split_ifs with hin
    · exact hnodup
    · exact List.nodup_append.mpr ⟨hnodup, List.nodup_singleton conn, by
        intro x hx y hy
        rw [List.mem_singleton.mp hy]
        rintro rfl
        exact hin hx⟩
  · intro c hc hin
    have hin' : c ∈ if conn ∈ m.replicas then m.replicas else m.replicas ++ [conn] := hin
    split_ifs at hin' with hconn
    · exact hin'
    · exact (List.mem_append.mp hin').resolve_right fun h => hc (List.mem_singleton.mp h)

/-- SOURCE: replication/master.py:104-110 -/
theorem elsewhere_unregister (m : MasterReplication) (conn : ℕ) :
    Elsewhere conn m (m.unregister conn) ∧ conn ∉ (m.unregister conn).replicas := by
  unfold MasterReplication.unregister
  split_ifs with hin
  · split
    · exact ⟨⟨rfl, rfl, fun h => h.filter _, fun _ _ h => (List.mem_filter.mp h).1,
        fun _ _ => rfl⟩, by simp⟩
    · exact ⟨⟨rfl, rfl, fun h => h.filter _, fun _ _ h => (List.mem_filter.mp h).1,
        fun _ hc => Dict.get?_insert_of_ne _ _ hc⟩, by simp⟩
  · exact ⟨elsewhere_refl m conn, hin⟩

/-- From `m` to `m'` the link of `conn` was changed by `f`, and nothing else. -/
structure Edits (conn : ℕ) (f : ReplicaLink → ReplicaLink) (m m' : MasterReplication) : Prop where
  replid : m'.replid = m.replid
  offset : m'.offset = m.offset
  replicas : m'.replicas = m.replicas
  link : m'.links.get? conn = (m.links.get? conn).map f
  links : ∀ c, c ≠ conn → m'.links.get? c = m.links.get? c

/-- An edit of a link is not seen by the others. -/
theorem Edits.elsewhere {conn : ℕ} {f : ReplicaLink → ReplicaLink} {m m' : MasterReplication}
    (h : Edits conn f m m') : Elsewhere conn m m' :=
  ⟨h.replid, h.offset, fun hn => h.replicas ▸ hn, fun _ _ hc => h.replicas ▸ hc, h.links⟩

/-- An update of a link is an edit of it. -/
theorem edits_setLink {m : MasterReplication} {conn : ℕ} {l : ReplicaLink}
    {f : ReplicaLink → ReplicaLink} (hl : m.links.get? conn = some l) :
    Edits conn f m (m.setLink conn (f l)) :=
  ⟨rfl, rfl, rfl, by rw [hl]; exact Dict.get?_insert_self _ _ _,
    fun _ hc => Dict.get?_insert_of_ne _ _ hc⟩

/-- A link that is not there is edited by doing nothing. -/
theorem edits_of_absent {m : MasterReplication} {conn : ℕ} {f : ReplicaLink → ReplicaLink}
    (h : m.links.get? conn = none) : Edits conn f m m :=
  ⟨rfl, rfl, rfl, by rw [h]; rfl, fun _ _ => rfl⟩

/-- A write adds to what was written to the link. -/
theorem edits_writeLink (m : MasterReplication) (conn : ℕ) (data : Bytes) :
    Edits conn (fun l => { l with written := l.written ++ data }) m (m.writeLink conn data) := by
  unfold MasterReplication.writeLink
  cases hl : m.links.get? conn with
  | none => exact edits_of_absent hl
  | some l => exact edits_setLink hl

/-- A drain takes a marker off the queue. -/
theorem edits_drainOne (m : MasterReplication) (conn : ℕ) :
    Edits conn (fun l => { l with pending := l.pending - 1 }) m (m.drainOne conn) := by
  unfold MasterReplication.drainOne
  cases hl : m.links.get? conn with
  | none => exact edits_of_absent hl
  | some l => exact edits_setLink hl

/-- The link after a turn of the flush loop, at offset `cur` of the master. -/
def takenFrom (cur : ℕ) (l : ReplicaLink) : ReplicaLink :=
  if l.backlog.isEmpty then
    { l with backlog := [], backlogBytes := 0, state := .live, offset := cur }
  else { l with backlog := [], backlogBytes := 0 }

/-- Taking the backlog gives no link up. -/
theorem takenFrom_alive (cur : ℕ) (l : ReplicaLink) : (takenFrom cur l).alive = l.alive := by
  unfold takenFrom
  split_ifs <;> rfl

/-- The batch is the backlog of the link, which is then empty. -/
theorem edits_takeBatch (m : MasterReplication) (conn : ℕ) :
    Edits conn (takenFrom m.offset) m (m.takeBatch conn).2 ∧
    ∀ l, m.links.get? conn = some l → (m.takeBatch conn).1 = l.backlog := by
  unfold MasterReplication.takeBatch
  cases hl : m.links.get? conn with
  | none => exact ⟨edits_of_absent hl, by simp⟩
  | some l =>
    dsimp only
    have hedit := edits_setLink (f := takenFrom m.offset) hl
    unfold takenFrom at hedit ⊢
    split_ifs at hedit ⊢ with hempty
    · refine ⟨hedit, fun l' hl' => ?_⟩
      cases hl'
      exact (List.isEmpty_iff.mp hempty).symm
    · refine ⟨hedit, fun l' hl' => ?_⟩
      cases hl'
      rfl

/-! ## One action -/

variable {sys sys' : System} {a : Action} {es : List Event} {c : ℕ}

/-- The stream of link `c` in a state of the system. -/
def Streams (sys : System) (c : ℕ) (d : Entries) (off : ℕ) (sent : Bytes) (l : ReplicaLink) :
    Prop :=
  Stream sys.server.master.replid.text d off sent sys.server.master.offset (sys.resyncs.get? c) l

/-- What one action makes of an attached link: it is new, with its snapshot just taken, or
it was attached before and holds its stream with what was propagated meanwhile. -/
inductive Followed (sys : System) (es : List Event) (sys' : System) (c : ℕ) (l' : ReplicaLink) :
    Prop where
  | fresh (hfree : sys.holder = .free)
      (hes : es = [.snapshot c sys.now (sys.server.store.live sys.now) sys.server.master.offset])
      (h : Streams sys' c (sys.server.store.live sys.now) sys.server.master.offset [] l')
  | carried (l : ReplicaLink) (hl : Attached sys c l)
      (h : ∀ d off sent, Streams sys c d off sent l →
        Streams sys' c d off (sent ++ payloads es) l')

/-- A link that keeps its bytes, its offset and its state, under an action that propagates
nothing. -/
theorem Followed.kept {l l' : ReplicaLink} (hl : Attached sys c l)
    (hreplid : sys'.server.master.replid = sys.server.master.replid)
    (hoff : sys'.server.master.offset = sys.server.master.offset)
    (hresync : sys'.resyncs.get? c = sys.resyncs.get? c) (hes : propagatedOf es = [])
    (hw : l'.written = l.written) (hb : l'.backlog = l.backlog) (ho : l'.offset = l.offset)
    (hs : l'.state = l.state) : Followed sys es sys' c l' := by
  refine .carried l hl fun d off sent h => ?_
  unfold Streams at h ⊢
  rw [hreplid, hoff, hresync, payloads_of_propagatedOf_nil hes, List.append_nil]
  exact h.kept hw hb ho hs

/-- The links other than `conn` do not see what happens to `conn`. -/
theorem Followed.other {conn : ℕ} {l' : ReplicaLink} (ha : Attached sys' c l') (hne : c ≠ conn)
    (helse : Elsewhere conn sys.server.master sys'.server.master)
    (hresync : sys'.resyncs.get? c = sys.resyncs.get? c) (hes : propagatedOf es = []) :
    Followed sys es sys' c l' := by
  have hl : Attached sys c l' :=
    ⟨helse.registered c hne ha.registered, helse.links c hne ▸ ha.link, ha.alive⟩
  exact .kept hl helse.replid helse.offset hresync hes rfl rfl rfl rfl

/-- A link that is attached after an edit was attached before it. -/
theorem Attached.edited {f : ReplicaLink → ReplicaLink} {l' : ReplicaLink}
    (ha : Attached sys' c l') (hedit : Edits c f sys.server.master sys'.server.master)
    (hkeeps : ∀ l, (f l).alive = l.alive) : ∃ l, Attached sys c l ∧ f l = l' := by
  obtain ⟨hin, hlink, halive⟩ := ha
  rw [hedit.link] at hlink
  obtain ⟨l, hl, rfl⟩ := Option.map_eq_some_iff.mp hlink
  exact ⟨l, ⟨hedit.replicas ▸ hin, hl, hkeeps l ▸ halive⟩, rfl⟩

/-- A write of `full_resync` that empties what is unsent. -/
theorem followed_write {data : Bytes} {l' : ReplicaLink}
    (hmaster : sys'.server.master = sys.server.master.writeLink c data)
    (hresyncs : sys'.resyncs = sys.resyncs.insert c (.flushing []))
    (hstream : ∀ d off sent l, Streams sys c d off sent l →
      Stream sys.server.master.replid.text d off sent sys.server.master.offset
        (some (.flushing [])) { l with written := l.written ++ data })
    (ha : Attached sys' c l') : Followed sys [] sys' c l' := by
  have hedit := edits_writeLink sys.server.master c data
  rw [← hmaster] at hedit
  obtain ⟨l, hl, rfl⟩ := ha.edited hedit fun _ => rfl
  refine .carried l hl fun d off sent h => ?_
  have hs := hstream d off sent l h
  unfold Streams
  rw [hedit.replid, hedit.offset, hresyncs, Dict.get?_insert_self,
    show payloads [] = [] from rfl, List.append_nil]
  exact hs

/-- SOURCE: replication/master.py:206-256 -/
theorem followed_propagate {argv : Command} {fails : ℕ → Bool} {l' : ReplicaLink}
    (hnodup : sys.server.master.replicas.Nodup)
    (hmaster : sys'.server.master = (sys.server.master.propagate argv fails).1)
    (hresyncs : sys'.resyncs = sys.resyncs) (hes : propagatedOf es = [argv])
    (ha : Attached sys' c l') : Followed sys es sys' c l' := by
  obtain ⟨hin, hlink, halive⟩ := ha
  obtain ⟨hreplicas, -, -, hreplid⟩ := propagate_frame sys.server.master argv fails
  rw [hmaster, hreplicas] at hin
  rw [hmaster, get?_propagate, List.count_eq_one_of_mem hnodup hin, Function.iterate_one] at hlink
  obtain ⟨l, hl, hl'⟩ := Option.map_eq_some_iff.mp hlink
  have haccepts : Accepts sys.server.master (encodeCommand argv) (fails c) l := by
    by_contra hno
    rw [propagateLink_of_not_accepts hno] at hl'
    rw [← hl'] at halive
    cases halive
  have hoff : (sys.server.master.propagate argv fails).1.offset =
      sys.server.master.offset + (encodeCommand argv).length := by
    unfold MasterReplication.propagate
    have hne : ¬ sys.server.master.replicas.isEmpty = true := by
      rw [List.isEmpty_iff]
      exact List.ne_nil_of_mem hin
    rw [if_neg hne]
  refine .carried l ⟨hin, hl, haccepts.1⟩ fun d off sent h => ?_
  have hpay : payloads es = encodeCommand argv := by simp [payloads, hes]
  unfold Streams at h ⊢
  rw [hmaster, hreplid, hoff, hresyncs, hpay, ← hl']
  exact h.propagate haccepts

/-- The locked part of a turn of the flush loop.
SOURCE: replication/master.py:166-178 -/
theorem followed_take {l' : ReplicaLink} (hresync : sys.resyncs.get? c = some (.flushing []))
    (hmaster : sys'.server.master = (sys.server.master.takeBatch c).2)
    (hresyncs : sys'.resyncs = if (sys.server.master.takeBatch c).1.isEmpty
      then sys.resyncs.erase c
      else sys.resyncs.insert c (.flushing (sys.server.master.takeBatch c).1))
    (ha : Attached sys' c l') : Followed sys [] sys' c l' := by
  obtain ⟨hedit, hbatch⟩ := edits_takeBatch sys.server.master c
  rw [← hmaster] at hedit
  obtain ⟨l, hl, rfl⟩ := ha.edited hedit (takenFrom_alive _)
  refine .carried l hl fun d off sent h => ?_
  unfold Streams at h ⊢
  rw [hresync] at h
  rw [hbatch l hl.link] at hresyncs
  rw [hedit.replid, hedit.offset, hresyncs]
  unfold takenFrom
  rw [show payloads [] = [] from rfl, List.append_nil]
  split_ifs with hempty
  · rw [Dict.get?_erase_self]
    exact h.goLive (List.isEmpty_iff.mp hempty)
  · rw [Dict.get?_insert_self]
    exact h.take

/-- **What one action makes of an attached link.** -/
theorem LinkStep.followed (h : LinkStep sys a es sys') (hnodup : sys.server.master.replicas.Nodup)
    {l' : ReplicaLink} (ha : Attached sys' c l') : Followed sys es sys' c l' := by
  cases h with
  | idle hmaster hresyncs hes =>
    obtain ⟨hin, hlink, halive⟩ := ha
    rw [hmaster] at hin hlink
    exact .kept ⟨hin, hlink, halive⟩ (by rw [hmaster]) (by rw [hmaster]) (by rw [hresyncs]) hes rfl
      rfl rfl rfl
  | propagated argv fails haction hhead hmaster hresyncs hes =>
    exact followed_propagate hnodup hmaster hresyncs hes ha
  | registered conn hfree hnew hmaster hresyncs hes =>
    by_cases hc : c = conn
    · subst hc
      refine .fresh hfree hes ?_
      have hlink := ha.link
      rw [hmaster] at hlink
      have hl' := (Dict.get?_insert_self _ _ _).symm.trans hlink
      cases hl'
      unfold Streams
      rw [hresyncs, Dict.get?_insert_self, hmaster]
      exact stream_registered _ _ _
    · exact .other ha hc (hmaster ▸ elsewhere_registerSyncing _ conn)
        (by rw [hresyncs]; exact Dict.get?_insert_of_ne _ _ hc) (by rw [hes]; rfl)
  | sent conn d offset rdb hresync hdump hmaster hresyncs hes =>
    subst hes
    by_cases hc : c = conn
    · subst hc
      refine followed_write hmaster hresyncs (fun d' off sent l h => ?_) ha
      unfold Streams at h
      rw [hresync] at h
      exact h.send hdump
    · exact .other ha hc (hmaster ▸ (edits_writeLink _ conn _).elsewhere)
        (by rw [hresyncs]; exact Dict.get?_insert_of_ne _ _ hc) rfl
  | taken conn hresync hmaster hresyncs hes =>
    subst hes
    by_cases hc : c = conn
    · subst hc
      exact followed_take hresync hmaster hresyncs ha
    · refine .other ha hc (hmaster ▸ (edits_takeBatch _ conn).1.elsewhere) ?_ rfl
      rw [hresyncs]
      split_ifs
      · exact Dict.get?_erase_of_ne _ hc
      · exact Dict.get?_insert_of_ne _ _ hc
  | flushed conn batch hresync hmaster hresyncs hes =>
    subst hes
    by_cases hc : c = conn
    · subst hc
      refine followed_write hmaster hresyncs (fun d off sent l h => ?_) ha
      unfold Streams at h
      rw [hresync] at h
      exact h.flush
    · exact .other ha hc (hmaster ▸ (edits_writeLink _ conn _).elsewhere)
        (by rw [hresyncs]; exact Dict.get?_insert_of_ne _ _ hc) rfl
  | unregistered conn hmaster hresyncs hes =>
    subst hes
    obtain ⟨helse, hgone⟩ := elsewhere_unregister sys.server.master conn
    rw [← hmaster] at helse hgone
    by_cases hc : c = conn
    · subst hc
      exact absurd ha.registered hgone
    · exact .other ha hc helse (hresyncs c hc) rfl
  | drained conn hmaster hresyncs hes =>
    subst hes
    have hedit := edits_drainOne sys.server.master conn
    rw [← hmaster] at hedit
    by_cases hc : c = conn
    · subst hc
      obtain ⟨l, hl, rfl⟩ := ha.edited hedit fun _ => rfl
      exact .kept hl hedit.replid hedit.offset (by rw [hresyncs]) rfl rfl rfl rfl rfl
    · exact .other ha hc hedit.elsewhere (by rw [hresyncs]) rfl
  | failed conn link haction hmaster hresyncs hes =>
    subst hes
    by_cases hc : c = conn
    · subst hc
      have hlink := ha.link
      rw [hmaster] at hlink
      have hl' := (Dict.get?_insert_self _ _ _).symm.trans hlink
      cases hl'
      cases ha.alive
    · exact .other ha hc (hmaster ▸ elsewhere_setLink _ conn _) (by rw [hresyncs]) rfl

/-- The replication id is kept, and no connection is registered twice. -/
theorem LinkStep.frame (h : LinkStep sys a es sys') :
    sys'.server.master.replid = sys.server.master.replid ∧
    (sys.server.master.replicas.Nodup → sys'.server.master.replicas.Nodup) := by
  cases h with
  | idle hmaster hresyncs hes => rw [hmaster]; exact ⟨rfl, id⟩
  | propagated argv fails haction hhead hmaster hresyncs hes =>
    obtain ⟨hreplicas, -, -, hreplid⟩ := propagate_frame sys.server.master argv fails
    rw [hmaster, hreplicas, hreplid]
    exact ⟨rfl, id⟩
  | registered conn hfree hnew hmaster hresyncs hes =>
    have helse := elsewhere_registerSyncing sys.server.master conn
    rw [hmaster]
    exact ⟨helse.replid, helse.nodup⟩
  | sent conn d offset rdb hresync hdump hmaster hresyncs hes =>
    have hedit := (edits_writeLink sys.server.master conn
      (MasterReplication.fullresyncPayload sys.server.master.replid.text offset rdb)).elsewhere
    rw [hmaster]
    exact ⟨hedit.replid, hedit.nodup⟩
  | taken conn hresync hmaster hresyncs hes =>
    have hedit := (edits_takeBatch sys.server.master conn).1.elsewhere
    rw [hmaster]
    exact ⟨hedit.replid, hedit.nodup⟩
  | flushed conn batch hresync hmaster hresyncs hes =>
    have hedit := (edits_writeLink sys.server.master conn batch.flatten).elsewhere
    rw [hmaster]
    exact ⟨hedit.replid, hedit.nodup⟩
  | unregistered conn hmaster hresyncs hes =>
    have helse := (elsewhere_unregister sys.server.master conn).1
    rw [hmaster]
    exact ⟨helse.replid, helse.nodup⟩
  | drained conn hmaster hresyncs hes =>
    have hedit := (edits_drainOne sys.server.master conn).elsewhere
    rw [hmaster]
    exact ⟨hedit.replid, hedit.nodup⟩
  | failed conn link haction hmaster hresyncs hes => rw [hmaster]; exact ⟨rfl, id⟩

/-! ## Links that do not fail -/

/-- No limit is exceeded and no transport fails: every attached link takes the record that
is propagated. -/
def Undisturbed (sys : System) : Action → Prop
  | .propagate fails => ∀ argv, (unpropagated sys.holder).head? = some argv →
    ∀ c l, Attached sys c l → Accepts sys.server.master (encodeCommand argv) (fails c) l
  | .drainFail _ => False
  | _ => True

/-- Every registered link is alive. -/
def AllAlive (sys : System) : Prop :=
  ∀ c ∈ sys.server.master.replicas, ∀ l, sys.server.master.links.get? c = some l →
    l.alive = true

/-- An edit that gives no link up leaves the links alive. -/
theorem allAlive_of_edits {conn : ℕ} {f : ReplicaLink → ReplicaLink} (h : AllAlive sys)
    (hedit : Edits conn f sys.server.master sys'.server.master)
    (hkeeps : ∀ l, (f l).alive = l.alive) : AllAlive sys' := by
  intro c hc l' hl'
  rw [hedit.replicas] at hc
  by_cases hconn : c = conn
  · subst hconn
    rw [hedit.link] at hl'
    obtain ⟨l, hl, rfl⟩ := Option.map_eq_some_iff.mp hl'
    rw [hkeeps]
    exact h c hc l hl
  · rw [hedit.links c hconn] at hl'
    exact h c hc l' hl'

/-- A step without a failure leaves the links alive. -/
theorem LinkStep.allAlive (h : LinkStep sys a es sys')
    (hnodup : sys.server.master.replicas.Nodup) (hok : Undisturbed sys a)
    (halive : AllAlive sys) : AllAlive sys' := by
  cases h with
  | idle hmaster hresyncs hes =>
    unfold AllAlive
    rw [hmaster]
    exact halive
  | propagated argv fails haction hhead hmaster hresyncs hes =>
    subst haction
    intro c hc l' hl'
    rw [hmaster, (propagate_frame _ argv fails).1] at hc
    rw [hmaster, get?_propagate, List.count_eq_one_of_mem hnodup hc, Function.iterate_one] at hl'
    obtain ⟨l, hl, rfl⟩ := Option.map_eq_some_iff.mp hl'
    have hl_alive := halive c hc l hl
    have haccepts := hok argv hhead c l ⟨hc, hl, hl_alive⟩
    rw [propagateLink_of_accepts haccepts]
    cases l.state <;> exact hl_alive
  | registered conn hfree hnew hmaster hresyncs hes =>
    have helse := elsewhere_registerSyncing sys.server.master conn
    intro c hc l hl
    by_cases hconn : c = conn
    · subst hconn
      rw [hmaster] at hl
      cases (Dict.get?_insert_self _ _ _).symm.trans hl
      rfl
    · rw [hmaster] at hc hl
      rw [helse.links c hconn] at hl
      exact halive c (helse.registered c hconn hc) l hl
  | sent conn d offset rdb hresync hdump hmaster hresyncs hes =>
    have hedit := edits_writeLink sys.server.master conn
      (MasterReplication.fullresyncPayload sys.server.master.replid.text offset rdb)
    rw [← hmaster] at hedit
    exact allAlive_of_edits halive hedit fun _ => rfl
  | taken conn hresync hmaster hresyncs hes =>
    exact allAlive_of_edits halive (hmaster ▸ (edits_takeBatch _ conn).1) (takenFrom_alive _)
  | flushed conn batch hresync hmaster hresyncs hes =>
    have hedit := edits_writeLink sys.server.master conn batch.flatten
    rw [← hmaster] at hedit
    exact allAlive_of_edits halive hedit fun _ => rfl
  | unregistered conn hmaster hresyncs hes =>
    obtain ⟨helse, hgone⟩ := elsewhere_unregister sys.server.master conn
    rw [← hmaster] at helse hgone
    intro c hc l hl
    have hconn : c ≠ conn := by
      rintro rfl
      exact hgone hc
    rw [helse.links c hconn] at hl
    exact halive c (helse.registered c hconn hc) l hl
  | drained conn hmaster hresyncs hes =>
    have hedit := edits_drainOne sys.server.master conn
    rw [← hmaster] at hedit
    exact allAlive_of_edits halive hedit fun _ => rfl
  | failed conn link haction hmaster hresyncs hes =>
    subst haction
    exact absurd hok id

/-! ## Whole runs -/

/-- A master that no replica has asked for a resync. -/
structure Unlinked (sys : System) : Prop where
  role : sys.server.config.isReplica = false
  free : sys.holder = .free
  replicas : sys.server.master.replicas = []

/-- The link has been served since its snapshot: `pre` is the history up to it and `post`
the history since. -/
structure Served (e₀ : Entries) (sys : System) (c : ℕ) (l : ReplicaLink) (pre : List Event)
    (t : ℤ) (d : Entries) (off : ℕ) (post : List Event) : Prop where
  snapshot : d = liveAt t (effects e₀ pre)
  before : (propagatedOf pre).Sublist (executedOf pre)
  after : (propagatedOf post ++ unpropagated sys.holder).Sublist (executedOf post)
  stream : Streams sys c d off (payloads post) l

/-- The invariant of a run from `s₀`. -/
structure Replicating (s₀ : System) (evs : List Event) (sys : System) : Prop where
  role : sys.server.config.isReplica = false
  replid : sys.server.master.replid = s₀.server.master.replid
  nodup : sys.server.master.replicas.Nodup
  keyspace : sys.server.store.live sys.now =
    liveAt sys.now (effects s₀.server.store.entries evs)
  order : (propagatedOf evs ++ unpropagated sys.holder).Sublist (executedOf evs)
  links : ∀ c l, Attached sys c l → ∃ pre t d off post,
    evs = pre ++ .snapshot c t d off :: post ∧
      Served s₀.server.store.entries sys c l pre t d off post

variable {s₀ : System} {evs : List Event}

/-- What is propagated stays behind what was executed. -/
theorem Turn.sublist (h : Turn sys a es sys') {executed propagated : List Command}
    (hs : (propagated ++ unpropagated sys.holder).Sublist executed) :
    (propagated ++ propagatedOf es ++ unpropagated sys'.holder).Sublist
      (executed ++ executedOf es) := by
  have h1 := h.order.append_left propagated
  have h2 := hs.append_right (executedOf es)
  rw [← List.append_assoc, ← List.append_assoc] at h1
  exact h1.trans h2

/-- **Every action keeps the invariant.** -/
theorem Replicating.step (h : Replicating s₀ evs sys) (hs : sys.step a = some (sys', es)) :
    Replicating s₀ (evs ++ es) sys' := by
  have hturn := turn_of_step h.role hs
  obtain ⟨hreplid, hnodup⟩ := hturn.links.frame
  refine ⟨by rw [hturn.config]; exact h.role, hreplid.trans h.replid, hnodup h.nodup, ?_, ?_, ?_⟩
  · rw [effects_append]
    exact hturn.keyspace _ h.keyspace
  · rw [propagatedOf_append, executedOf_append]
    exact hturn.sublist h.order
  · intro c l' ha
    cases hturn.links.followed h.nodup ha with
    | fresh hfree hes hstream =>
      have horder := h.order
      rw [hfree] at horder
      refine ⟨evs, sys.now, _, _, [], by rw [hes], h.keyspace, ?_, ?_, hstream⟩
      · simpa [unpropagated] using horder
      · have hafter := hturn.order
        rw [hfree, hes] at hafter
        exact hafter
    | carried l hl hstream =>
      obtain ⟨pre, t, d, off, post, rfl, hserved⟩ := h.links c l hl
      refine ⟨pre, t, d, off, post ++ es, by simp, hserved.snapshot, hserved.before, ?_, ?_⟩
      · rw [propagatedOf_append, executedOf_append]
        exact hturn.sublist hserved.after
      · rw [payloads_append]
        exact hstream d off _ hserved.stream

/-- A master without links has nothing to show. -/
theorem replicating_start (h : Unlinked s₀) : Replicating s₀ [] s₀ := by
  refine ⟨h.role, rfl, by rw [h.replicas]; exact List.nodup_nil, rfl, ?_, ?_⟩
  · rw [h.free]
    exact List.Sublist.refl _
  · intro c l ha
    have hin := ha.registered
    rw [h.replicas] at hin
    cases hin

/-- **Full resyncs are exactly once and in order.** In every state that a master reaches by
any schedule in which no link fails, every registered link is alive, and what was written
to it, followed by what its resync has taken and not written, followed by its backlog, is
the header with the snapshot and then every record propagated since the snapshot, in order.
The snapshot is the keyspace that the writes executed before it leave, what is propagated
was executed on the same side of the snapshot, and the offset of the link is the announced
one plus the length of the payloads.
SOURCE: replication/master.py:126-256, server.py:409-535 -/
theorem full_resync_stream (h₀ : Unlinked s₀) (hrun : Runs System.step Undisturbed s₀ evs sys)
    {c : ℕ} (hc : c ∈ sys.server.master.replicas) {l : ReplicaLink}
    (hl : sys.server.master.links.get? c = some l) :
    l.alive = true ∧ ∃ pre t d off post,
      evs = pre ++ .snapshot c t d off :: post ∧
      (∀ rdb, dumpRdbEntries d = some rdb →
        l.written ++ unsent s₀.server.master.replid.text (sys.resyncs.get? c) ++
            l.backlog.flatten =
          MasterReplication.fullresyncPayload s₀.server.master.replid.text off rdb ++
            (propagatedOf post).flatMap encodeCommand) ∧
      d = liveAt t (effects s₀.server.store.entries pre) ∧
      (propagatedOf pre).Sublist (executedOf pre) ∧
      (propagatedOf post).Sublist (executedOf post) ∧
      l.offset = off + ((propagatedOf post).flatMap encodeCommand).length := by
  have hinv : Replicating s₀ evs sys ∧ AllAlive sys := by
    refine hrun.invariant (I := fun evs sys => Replicating s₀ evs sys ∧ AllAlive sys) ?_ ?_
    · refine ⟨replicating_start h₀, fun c hc => ?_⟩
      rw [h₀.replicas] at hc
      cases hc
    · intro evs es sys sys' a h hok hs
      exact ⟨h.1.step hs, (turn_of_step h.1.role hs).links.allAlive h.1.nodup hok h.2⟩
  obtain ⟨hrep, halive⟩ := hinv
  have hattached : Attached sys c l := ⟨hc, hl, halive c hc l hl⟩
  obtain ⟨pre, t, d, off, post, hevs, hserved⟩ := hrep.links c l hattached
  have hstream := hserved.stream
  unfold Streams at hstream
  rw [hrep.replid] at hstream
  exact ⟨hattached.alive, pre, t, d, off, post, hevs, hstream.bytes, hserved.snapshot,
    hserved.before, (List.sublist_append_left _ _).trans hserved.after, hstream.offset⟩

/-- `Undisturbed` for a propagation, as a check over the registered links. -/
theorem undisturbed_of_all {fails : ℕ → Bool} (argv : Command)
    (hhead : (unpropagated sys.holder).head? = some argv)
    (hall : (sys.server.master.replicas.all fun c => (sys.server.master.links.get? c).all fun l =>
      decide (Accepts sys.server.master (encodeCommand argv) (fails c) l)) = true) :
    Undisturbed sys (.propagate fails) := by
  intro argv' hargv' c l hl
  cases hhead.symm.trans hargv'
  have hc := List.all_eq_true.mp hall c hl.registered
  rw [hl.link] at hc
  exact of_decide_eq_true hc

/-- A key is set, a replica asks for a resync, and another key is set before the snapshot
has been sent. -/
theorem full_resync_stream_backlog :
    ∃ evs sys l, Runs System.step Undisturbed { server := started {} default } evs sys ∧
      sys.server.master.links.get? 7 = some l ∧
      propagatedOf evs =
        [[ascii "SET", ascii "a", ascii "1"], [ascii "SET", ascii "b", ascii "2"]] ∧
      l.backlog = [encodeCommand [ascii "SET", ascii "b", ascii "2"]] ∧
      l.alive = true ∧ ∃ pre t d off post,
        evs = pre ++ .snapshot 7 t d off :: post ∧
        (∀ rdb, dumpRdbEntries d = some rdb →
          l.written ++ unsent (default : Replid).text (sys.resyncs.get? 7) ++ l.backlog.flatten =
            MasterReplication.fullresyncPayload (default : Replid).text off rdb ++
              (propagatedOf post).flatMap encodeCommand) ∧
        d = liveAt t (effects Dict.empty pre) ∧
        (propagatedOf pre).Sublist (executedOf pre) ∧
        (propagatedOf post).Sublist (executedOf post) ∧
        l.offset = off + ((propagatedOf post).flatMap encodeCommand).length := by
  have h₁ := (@Runs.start _ _ _ System.step Undisturbed { server := started {} default }).step
    (a := Action.command 1 [ascii "SET", ascii "a", ascii "1"] {}) trivial rfl
  have h₂ := h₁.step (a := Action.append .none) trivial rfl
  have h₃ := h₂.step (a := Action.propagate fun _ => false)
    (undisturbed_of_all [ascii "SET", ascii "a", ascii "1"] rfl (by decide +kernel)) rfl
  have h₄ := h₃.step (a := Action.psync 7) trivial rfl
  have h₅ := h₄.step (a := Action.command 1 [ascii "SET", ascii "b", ascii "2"] {}) trivial rfl
  have h₆ := h₅.step (a := Action.append .none) trivial rfl
  have h₇ := h₆.step (a := Action.propagate fun _ => false)
    (undisturbed_of_all [ascii "SET", ascii "b", ascii "2"] rfl (by decide +kernel)) rfl
  exact ⟨_, _, _, h₇, rfl, rfl, by decide +kernel, full_resync_stream ⟨rfl, rfl, rfl⟩ h₇
    (by decide +kernel) rfl⟩

end ByoRedis.Analysis
