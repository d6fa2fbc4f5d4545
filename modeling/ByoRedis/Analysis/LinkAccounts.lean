import ByoRedis.Lib.Trace
import ByoRedis.Analysis.DroppedLinks

/-!
# The books kept on each link

A master counts the bytes of each backlog and the markers of each drain queue, and gives a
link up when a count reaches its limit. `Accounted` says that the books are right: they count what
is there, no limit is exceeded, a live link has no backlog left behind, a link that is up has
the offset of the master, and a link that was given up is on its way out. Every action keeps
them, whichever writes and drains fail.
-/

set_option autoImplicit false

namespace ByoRedis.Analysis

open ByoRedis.Model ByoRedis.Lib

/-! ## The books -/

/-- The books on the link of `c`, where `unregisters` are the scheduled `unregister` tasks.
SOURCE: replication/master.py:29-60 -/
structure Accounted (m : MasterReplication) (unregisters : List ℕ) (c : ℕ) (l : ReplicaLink) :
    Prop where
  counted : l.backlogBytes = l.backlog.flatten.length
  bounded : l.backlogBytes ≤ m.backlogMaxBytes
  emptied : l.state = .live → l.backlog = []
  queued : l.pending ≤ m.pendingMaxCommands + if c ∈ m.replicas then 0 else 1
  current : c ∈ m.replicas → l.alive = true → l.offset = m.offset
  leaving : c ∈ m.replicas → l.alive = false → c ∈ unregisters

/-- The books of a master: every registered connection is there once and has its link. -/
structure LinkBooks (m : MasterReplication) (unregisters : List ℕ) : Prop where
  nodup : m.replicas.Nodup
  linked : ∀ c ∈ m.replicas, ∃ l, m.links.get? c = some l
  kept : ∀ c l, m.links.get? c = some l → Accounted m unregisters c l

/-- Two masters with the same limits. -/
def SameBounds (m m' : MasterReplication) : Prop :=
  m'.backlogMaxBytes = m.backlogMaxBytes ∧ m'.pendingMaxCommands = m.pendingMaxCommands

/-- A write to a link leaves the bounds as they are. -/
theorem sameBounds_writeLink (m : MasterReplication) (conn : ℕ) (data : Bytes) :
    SameBounds m (m.writeLink conn data) := by
  unfold MasterReplication.writeLink
  split
  · exact ⟨rfl, rfl⟩
  · exact ⟨rfl, rfl⟩

/-- A drain leaves the bounds as they are. -/
theorem sameBounds_drainOne (m : MasterReplication) (conn : ℕ) :
    SameBounds m (m.drainOne conn) := by
  unfold MasterReplication.drainOne
  split
  · exact ⟨rfl, rfl⟩
  · exact ⟨rfl, rfl⟩

/-- Taking a backlog leaves the bounds as they are. -/
theorem sameBounds_takeBatch (m : MasterReplication) (conn : ℕ) :
    SameBounds m (m.takeBatch conn).2 := by
  unfold MasterReplication.takeBatch
  split
  · exact ⟨rfl, rfl⟩
  · split_ifs
    · exact ⟨rfl, rfl⟩
    · exact ⟨rfl, rfl⟩

/-- An unregistration leaves the bounds as they are. -/
theorem sameBounds_unregister (m : MasterReplication) (conn : ℕ) :
    SameBounds m (m.unregister conn) := by
  unfold MasterReplication.unregister
  split_ifs
  · split
    · exact ⟨rfl, rfl⟩
    · exact ⟨rfl, rfl⟩
  · exact ⟨rfl, rfl⟩

/-- A record leaves the bounds as they are. -/
theorem sameBounds_propagate (m : MasterReplication) (argv : Command) (fails : ℕ → Bool) :
    SameBounds m (m.propagate argv fails).1 := by
  obtain ⟨-, hbacklog, hpending, -⟩ := propagate_frame m argv fails
  exact ⟨hbacklog, hpending⟩

/-- Two steps that leave the bounds as they are. -/
theorem SameBounds.trans {m m' m'' : MasterReplication} (h : SameBounds m m')
    (h' : SameBounds m' m'') : SameBounds m m'' := ⟨h'.1.trans h.1, h'.2.trans h.2⟩

variable {m m' : MasterReplication} {unregisters unregisters' : List ℕ} {c conn : ℕ}
  {l : ReplicaLink}

/-- A link that stays as it is, under a master at the same offset. -/
theorem Accounted.untouched (h : Accounted m unregisters c l) (hb : SameBounds m m')
    (hin : c ∈ m'.replicas ↔ c ∈ m.replicas) (hoff : m'.offset = m.offset)
    (hu : c ∈ unregisters → c ∈ unregisters') : Accounted m' unregisters' c l := by
  refine ⟨h.counted, hb.1 ▸ h.bounded, h.emptied, ?_, ?_, ?_⟩
  · rw [hb.2]
    have hq := h.queued
    by_cases hreg : c ∈ m.replicas
    · rw [if_pos hreg] at hq
      rw [if_pos (hin.mpr hreg)]
      exact hq
    · rw [if_neg hreg] at hq
      rw [if_neg (mt hin.mp hreg)]
      exact hq
  · intro hreg
    rw [hoff]
    exact h.current (hin.mp hreg)
  · intro hreg hdead
    exact hu (h.leaving (hin.mp hreg) hdead)

/-! ## Operations on one link -/

/-- An operation on the link of `conn` that leaves its books right. -/
theorem LinkBooks.edited {f : ReplicaLink → ReplicaLink} (h : LinkBooks m unregisters)
    (hedit : Edits conn f m m') (hb : SameBounds m m')
    (hu : ∀ c ∈ unregisters, c ∈ unregisters')
    (hf : ∀ l, Accounted m unregisters conn l → Accounted m unregisters' conn (f l)) :
    LinkBooks m' unregisters' := by
  have hin : ∀ c, c ∈ m'.replicas ↔ c ∈ m.replicas := fun c => by rw [hedit.replicas]
  refine ⟨hedit.replicas ▸ h.nodup, ?_, ?_⟩
  · intro c hc
    obtain ⟨l, hl⟩ := h.linked c ((hin c).mp hc)
    by_cases hne : c = conn
    · subst hne
      exact ⟨f l, by rw [hedit.link, hl]; rfl⟩
    · exact ⟨l, by rw [hedit.links c hne, hl]⟩
  · intro c l' hl'
    by_cases hne : c = conn
    · subst hne
      rw [hedit.link] at hl'
      obtain ⟨l, hl, rfl⟩ := Option.map_eq_some_iff.mp hl'
      exact (hf l (h.kept c l hl)).untouched hb (hin c) hedit.offset id
    · rw [hedit.links c hne] at hl'
      exact (h.kept c l' hl').untouched hb (hin c) hedit.offset (hu c)

/-- A write to a link leaves the books right. -/
theorem linkBooks_writeLink (h : LinkBooks m unregisters) (conn : ℕ) (data : Bytes) :
    LinkBooks (m.writeLink conn data) unregisters := by
  exact h.edited (edits_writeLink m conn data) (sameBounds_writeLink m conn data) (fun _ hc => hc)
    fun _ hk => ⟨hk.counted, hk.bounded, hk.emptied, hk.queued, hk.current, hk.leaving⟩

/-- SOURCE: replication/master.py:258-263 -/
theorem linkBooks_drainOne (h : LinkBooks m unregisters) (conn : ℕ) :
    LinkBooks (m.drainOne conn) unregisters := by
  exact h.edited (edits_drainOne m conn) (sameBounds_drainOne m conn) (fun _ hc => hc)
    fun l hk => ⟨hk.counted, hk.bounded, hk.emptied, (Nat.sub_le l.pending 1).trans hk.queued,
      hk.current, hk.leaving⟩

/-- The flush loop takes the backlog, or finds it empty and makes the link live.
SOURCE: replication/master.py:166-178 -/
theorem linkBooks_takeBatch (h : LinkBooks m unregisters) (conn : ℕ) :
    LinkBooks (m.takeBatch conn).2 unregisters := by
  refine h.edited (edits_takeBatch m conn).1 (sameBounds_takeBatch m conn) (fun _ hc => hc)
    fun l hk => ?_
  unfold takenFrom
  split_ifs
  · exact ⟨rfl, Nat.zero_le _, fun _ => rfl, hk.queued, fun _ _ => rfl, hk.leaving⟩
  · exact ⟨rfl, Nat.zero_le _, fun _ => rfl, hk.queued, hk.current, hk.leaving⟩

/-- A link that is given up is scheduled for `unregister`.
SOURCE: replication/master.py:263-276 -/
theorem linkBooks_giveUp (h : LinkBooks m unregisters) (hl : m.links.get? conn = some l) :
    LinkBooks (m.setLink conn { l with alive := false }) (unregisters ++ [conn]) := by
  refine h.edited (edits_setLink (f := fun l => { l with alive := false }) hl) ⟨rfl, rfl⟩
    (fun _ hc => List.mem_append_left _ hc) fun l hk => ?_
  refine ⟨hk.counted, hk.bounded, hk.emptied, hk.queued, ?_, ?_⟩
  · intro _ halive
    cases halive
  · intro _ _
    exact List.mem_append_right _ (List.mem_singleton_self conn)

/-- SOURCE: replication/master.py:66-80 -/
theorem linkBooks_registerSyncing (h : LinkBooks m unregisters) (conn : ℕ) :
    LinkBooks (m.registerSyncing conn) unregisters := by
  have helse := elsewhere_registerSyncing m conn
  have hreg : conn ∈ (m.registerSyncing conn).replicas := (linked_registerSyncing m conn).1
  have hin : ∀ c, c ≠ conn → (c ∈ (m.registerSyncing conn).replicas ↔ c ∈ m.replicas) := by
    intro c hne
    refine ⟨helse.registered c hne, fun hc => ?_⟩
    obtain ⟨l, hl⟩ := h.linked c hc
    exact (Linked.registerSyncing ⟨hc, l, hl⟩ conn).1
  refine ⟨helse.nodup h.nodup, ?_, ?_⟩
  · intro c hc
    by_cases hne : c = conn
    · subst hne
      exact (linked_registerSyncing m c).2
    · obtain ⟨l, hl⟩ := h.linked c ((hin c hne).mp hc)
      exact ⟨l, (helse.links c hne).trans hl⟩
  · intro c l hl
    by_cases hne : c = conn
    · subst hne
      cases (Dict.get?_insert_self _ _ _).symm.trans hl
      refine ⟨rfl, Nat.zero_le _, fun _ => rfl, Nat.zero_le _, fun _ _ => rfl, ?_⟩
      intro _ hdead
      cases hdead
    · rw [helse.links c hne] at hl
      exact (h.kept c l hl).untouched ⟨rfl, rfl⟩ (hin c hne) rfl id

/-- The marker that stops the drain task goes into a queue that may be full.
SOURCE: replication/master.py:104-124 -/
theorem linkBooks_unregister (h : LinkBooks m unregisters) (conn : ℕ)
    (hu : ∀ c ∈ unregisters, c ≠ conn → c ∈ unregisters') :
    LinkBooks (m.unregister conn) unregisters' := by
  obtain ⟨helse, hout⟩ := elsewhere_unregister m conn
  have hin : ∀ c, c ≠ conn → (c ∈ (m.unregister conn).replicas ↔ c ∈ m.replicas) := by
    intro c hne
    refine ⟨helse.registered c hne, fun hc => ?_⟩
    obtain ⟨l, hl⟩ := h.linked c hc
    exact (Linked.unregister ⟨hc, l, hl⟩ hne).1
  have hb := sameBounds_unregister m conn
  refine ⟨helse.nodup h.nodup, ?_, ?_⟩
  · intro c hc
    have hne : c ≠ conn := by
      rintro rfl
      exact hout hc
    obtain ⟨l, hl⟩ := h.linked c ((hin c hne).mp hc)
    exact ⟨l, (helse.links c hne).trans hl⟩
  · intro c l' hl'
    by_cases hne : c = conn
    · subst hne
      have hkept : ∃ l, m.links.get? c = some l ∧ l'.backlogBytes = l.backlogBytes ∧
          l'.backlog = l.backlog ∧ l'.state = l.state ∧
          l'.pending ≤ m.pendingMaxCommands + 1 := by
        unfold MasterReplication.unregister at hl'
        split_ifs at hl' with hreg
        · obtain ⟨l, hl⟩ := h.linked c hreg
          have hq := (h.kept c l hl).queued
          rw [if_pos hreg] at hq
          simp only [hl] at hl'
          cases (Dict.get?_insert_self _ _ _).symm.trans hl'
          exact ⟨l, hl, rfl, rfl, rfl, Nat.succ_le_succ hq⟩
        · have hq := (h.kept c l' hl').queued
          rw [if_neg hreg] at hq
          exact ⟨l', hl', rfl, rfl, rfl, hq⟩
      obtain ⟨l, hl, hbytes, hbacklog, hstate, hq⟩ := hkept
      have hk := h.kept c l hl
      refine ⟨by rw [hbytes, hbacklog]; exact hk.counted, ?_, ?_, ?_, ?_, ?_⟩
      · rw [hbytes, hb.1]
        exact hk.bounded
      · rw [hstate, hbacklog]
        exact hk.emptied
      · rw [if_neg hout, hb.2]
        exact hq
      · intro hreg
        exact absurd hreg hout
      · intro hreg
        exact absurd hreg hout
    · rw [helse.links c hne] at hl'
      exact (h.kept c l' hl').untouched hb (hin c hne) helse.offset fun hc => hu c hc hne

/-! ## Propagation -/

/-- The loop of `propagate` puts every link that refuses the payload on its list, and leaves
those that are on it.
SOURCE: replication/master.py:218-256 -/
theorem mem_foldl_propagateStep_dead {payload : Bytes} {offset : ℕ} {fails : ℕ → Bool}
    (ids : List ℕ) (links : Dict ℕ ReplicaLink) (dead : List ℕ) (hnodup : ids.Nodup)
    (hc : c ∈ dead ∨ c ∈ ids ∧ links.get? c = some l ∧ ¬ Accepts m payload (fails c) l) :
    c ∈ (ids.foldl (m.propagateStep payload offset fails) (links, dead)).2 := by
  induction ids generalizing links dead with
  | nil =>
    obtain hdead | ⟨hnil, -⟩ := hc
    · exact hdead
    · cases hnil
  | cons i ids ih =>
    rw [List.nodup_cons] at hnodup
    rw [List.foldl_cons]
    obtain hdead | ⟨hmem, hl, hrefuses⟩ := hc
    · refine ih _ _ hnodup.2 (Or.inl ?_)
      split
      · exact hdead
      · dsimp only
        split_ifs
        · exact List.mem_append_left _ hdead
        · exact hdead
    · by_cases hi : c = i
      · subst hi
        refine ih _ _ hnodup.2 (Or.inl ?_)
        simp only [hl, propagateLink_of_not_accepts hrefuses, if_true]
        exact List.mem_append_right _ (List.mem_singleton_self c)
      · have hrest := (List.mem_cons.mp hmem).resolve_left hi
        refine ih _ _ hnodup.2 (Or.inr ⟨hrest, ?_, hrefuses⟩)
        split
        · exact hl
        · exact (Dict.get?_insert_of_ne _ _ hi).trans hl

/-- A registered link that refuses a record is scheduled for `unregister`. -/
theorem mem_propagate_dead (hnodup : m.replicas.Nodup) {argv : Command} {fails : ℕ → Bool}
    (hc : c ∈ m.replicas) (hl : m.links.get? c = some l)
    (hrefuses : ¬ Accepts m (encodeCommand argv) (fails c) l) :
    c ∈ (m.propagate argv fails).2 := by
  unfold MasterReplication.propagate
  split_ifs with hempty
  · rw [List.isEmpty_iff.mp hempty] at hc
    cases hc
  · exact mem_foldl_propagateStep_dead _ _ [] hnodup (Or.inr ⟨hc, hl, hrefuses⟩)

/-- The offset counts a record as soon as a link is registered.
SOURCE: replication/master.py:213-219 -/
theorem propagate_offset {argv : Command} {fails : ℕ → Bool} (hc : c ∈ m.replicas) :
    (m.propagate argv fails).1.offset = m.offset + (encodeCommand argv).length := by
  unfold MasterReplication.propagate
  split_ifs with hempty
  · rw [List.isEmpty_iff.mp hempty] at hc
    cases hc
  · rfl

/-- The books on a link that takes a payload.
SOURCE: replication/master.py:225-247 -/
theorem Accounted.accepts {payload : Bytes} {fails : Bool} (h : Accounted m unregisters c l)
    (hc : c ∈ m.replicas) (hb : SameBounds m m') (hin : c ∈ m'.replicas)
    (hoff : m'.offset = m.offset + payload.length) (ha : Accepts m payload fails l) :
    Accounted m' unregisters' c
      (m.propagateLink payload (m.offset + payload.length) fails l).1 := by
  have hq := h.queued
  rw [if_pos hc] at hq
  obtain ⟨halive, hroom⟩ := ha
  have hnot : ¬ l.alive = false := by rw [halive]; exact Bool.true_eq_false_eq_False
  rw [propagateLink_of_accepts ⟨halive, hroom⟩]
  cases hs : l.state with
  | syncing =>
    rw [hs] at hroom
    refine ⟨?_, by rw [hb.1]; exact hroom, ?_, ?_, fun _ _ => hoff.symm,
      fun _ hdead => absurd hdead hnot⟩
    · show l.backlogBytes + payload.length = (l.backlog ++ [payload]).flatten.length
      rw [h.counted, List.flatten_append, List.flatten_singleton, List.length_append]
    · intro hlive
      cases hlive
    · rw [if_pos hin, hb.2]
      exact hq
  | live =>
    rw [hs] at hroom
    refine ⟨h.counted, hb.1 ▸ h.bounded, fun _ => h.emptied hs, ?_, fun _ _ => hoff.symm,
      fun _ hdead => absurd hdead hnot⟩
    rw [if_pos hin, hb.2]
    exact hroom.1

/-- **One record and the books**, whichever writers raise.
SOURCE: replication/master.py:206-256 -/
theorem linkBooks_propagate (h : LinkBooks m unregisters) (argv : Command) (fails : ℕ → Bool) :
    LinkBooks (m.propagate argv fails).1 (unregisters ++ (m.propagate argv fails).2) := by
  have hreplicas := (propagate_frame m argv fails).1
  have hb := sameBounds_propagate m argv fails
  refine ⟨hreplicas ▸ h.nodup, ?_, ?_⟩
  · intro c hc
    obtain ⟨l, hl⟩ := h.linked c (hreplicas ▸ hc)
    exact (Linked.propagate ⟨hreplicas ▸ hc, l, hl⟩ argv fails).2
  · intro c l' hl'
    rw [get?_propagate] at hl'
    obtain ⟨l, hl, rfl⟩ := Option.map_eq_some_iff.mp hl'
    have hk := h.kept c l hl
    by_cases hc : c ∈ m.replicas
    · have hin : c ∈ (m.propagate argv fails).1.replicas := hreplicas.symm ▸ hc
      rw [List.count_eq_one_of_mem h.nodup hc, Function.iterate_one]
      by_cases ha : Accepts m (encodeCommand argv) (fails c) l
      · exact hk.accepts hc hb hin (propagate_offset hc) ha
      · rw [propagateLink_of_not_accepts ha]
        refine ⟨hk.counted, hb.1 ▸ hk.bounded, hk.emptied, ?_, ?_, fun _ _ => ?_⟩
        · have hq := hk.queued
          rw [if_pos hc] at hq
          rw [if_pos hin, hb.2]
          exact hq
        · intro _ halive
          cases halive
        · exact List.mem_append_right _ (mem_propagate_dead h.nodup hc hl ha)
    · have hout : c ∉ (m.propagate argv fails).1.replicas := by
        rw [hreplicas]
        exact hc
      rw [List.count_eq_zero_of_not_mem hc]
      refine ⟨hk.counted, hb.1 ▸ hk.bounded, hk.emptied, ?_, fun hreg => absurd hreg hout,
        fun hreg => absurd hreg hout⟩
      have hq := hk.queued
      rw [if_neg hc] at hq
      rw [if_neg hout, hb.2]
      exact hq

/-! ## Runs -/

variable {sys sys' : System} {a : Action} {es evs : List Event}

/-- **Every action keeps the books.** -/
theorem linkBooks_of_step (hrole : sys.server.config.isReplica = false)
    (h : LinkBooks sys.server.master sys.server.unregisters) (hs : sys.step a = some (sys', es)) :
    LinkBooks sys'.server.master sys'.server.unregisters ∧
      SameBounds sys.server.master sys'.server.master := by
  have hunlinking : Unlinking a → LinkBooks sys'.server.master sys'.server.unregisters ∧
      SameBounds sys.server.master sys'.server.master := by
    intro ha
    obtain ⟨hm, hu, -⟩ := master_of_unlinking hrole ha hs
    rw [hm, hu]
    exact ⟨h, rfl, rfl⟩
  cases stepped_of_step hs with
  | propagatedLast conn argv reply fails hhold =>
    exact ⟨linkBooks_propagate h argv fails, sameBounds_propagate _ argv fails⟩
  | propagated conn argv next rest reply fails hhold =>
    exact ⟨linkBooks_propagate h argv fails, sameBounds_propagate _ argv fails⟩
  | disconnect conn =>
    exact ⟨linkBooks_unregister h conn fun _ hc _ => hc, sameBounds_unregister _ conn⟩
  | psync conn hrole hfree hnew => exact ⟨linkBooks_registerSyncing h conn, rfl, rfl⟩
  | resyncSent conn d offset rdb hresync hdump =>
    exact ⟨linkBooks_writeLink h conn _, sameBounds_writeLink _ conn _⟩
  | resyncUnencodable conn d offset hresync hdump =>
    exact ⟨linkBooks_unregister h conn fun _ hc _ => hc, sameBounds_unregister _ conn⟩
  | resyncTaken conn hresync => exact ⟨linkBooks_takeBatch h conn, sameBounds_takeBatch _ conn⟩
  | resyncWritten conn batch hbatch hresync =>
    exact ⟨linkBooks_writeLink h conn _, sameBounds_writeLink _ conn _⟩
  | resyncFailed conn hresync =>
    exact ⟨linkBooks_unregister h conn fun _ hc _ => hc, sameBounds_unregister _ conn⟩
  | drained conn => exact ⟨linkBooks_drainOne h conn, sameBounds_drainOne _ conn⟩
  | drainFailed conn link hlink => exact ⟨linkBooks_giveUp h hlink, rfl, rfl⟩
  | unregistered conn hmem =>
    exact ⟨linkBooks_unregister h conn fun _ hc hne => (List.mem_erase_of_ne hne).mpr hc,
      sameBounds_unregister _ conn⟩
  | _ => exact hunlinking trivial

/-- **The books of a master are right in every run**: from a start without replicas, under
every schedule and whichever appends, writes, drains and resyncs fail, the counted bytes of a
backlog are its bytes and no more than the limit, a live link has an empty backlog, a drain
queue holds no more markers than the limit (and the one that stops it), a registered link that
is up has the offset of the master, and one that was given up is scheduled for `unregister`.
SOURCE: replication/master.py:66-276, server.py:328-345, 503-535 -/
theorem linkBooks_right {srv : Server} (hrole : srv.config.isReplica = false)
    (hlinks : srv.master.links = Dict.empty) (hreplicas : srv.master.replicas = []) {t : ℤ}
    (hrun : Runs System.step (fun _ _ => True) { server := srv, now := t } evs sys) :
    LinkBooks sys.server.master sys.server.unregisters ∧
      SameBounds srv.master sys.server.master := by
  have hinv : sys.server.config.isReplica = false ∧
      LinkBooks sys.server.master sys.server.unregisters ∧
      SameBounds srv.master sys.server.master := by
    refine hrun.invariant (I := fun _ s => s.server.config.isReplica = false ∧
      LinkBooks s.server.master s.server.unregisters ∧ SameBounds srv.master s.server.master)
      ⟨hrole, ?_, rfl, rfl⟩ ?_
    · refine ⟨hreplicas ▸ List.nodup_nil, ?_, ?_⟩
      · intro c hc
        rw [hreplicas] at hc
        cases hc
      · intro c l hl
        rw [hlinks] at hl
        cases hl
    · rintro evs es s s' a ⟨hr, hbooks, hb⟩ - hs
      obtain ⟨hbooks', hb'⟩ := linkBooks_of_step hr hbooks hs
      exact ⟨(turn_of_step hr hs).config ▸ hr, hbooks', hb.trans hb'⟩
  exact hinv.2

/-- A replica goes live, the write of the next record raises, and its `unregister` is due. -/
theorem linkBooks_right_raised :
    ∃ evs sys l, Runs System.step (fun _ _ => True) { server := started {} default } evs sys ∧
      sys.server.master.links.get? 7 = some l ∧ l.alive = false ∧ 7 ∈ sys.server.unregisters ∧
      LinkBooks sys.server.master sys.server.unregisters ∧
      SameBounds (started {} default).master sys.server.master := by
  have h₁ := (@Runs.start _ _ _ System.step (fun _ _ => True)
    { server := started {} default }).step (a := Action.psync 7) trivial rfl
  have h₂ := h₁.step (a := Action.resyncSend 7) trivial rfl
  have h₃ := h₂.step (a := Action.resyncTake 7) trivial rfl
  have h₄ := h₃.step (a := Action.command 1 [ascii "SET", ascii "k", ascii "v"] {}) trivial rfl
  have h₅ := h₄.step (a := Action.append .none) trivial rfl
  have h₆ := h₅.step (a := Action.propagate fun _ => true) trivial rfl
  exact ⟨_, _, _, h₆, rfl, rfl, by decide +kernel, linkBooks_right rfl rfl rfl h₆⟩

end ByoRedis.Analysis
