import ByoRedis.Analysis.ReplicaAof
import ByoRedis.Analysis.ReplicaLife
import ByoRedis.Analysis.WireFronts
import ByoRedis.Model.Deployment
import Mathlib.Data.List.TakeWhile

/-!
# A replica that loses its link and comes back

A master and one replica over the whole life of the replica: links break, the replica waits and
connects again, and each time it gets a new snapshot. `Deployment` is the two together with the
connection between them, under any schedule. Its history says how many of the master's records
the replica has (`position`), and `Deployed` is the invariant: the keyspace of the replica is
the replay of so many records. It is a keyspace that the master has had, and never an older one
than before.
-/

set_option autoImplicit false

namespace ByoRedis.Analysis

open ByoRedis.Model ByoRedis.Lib ByoRedis.Lib.Framing ByoRedis.Lib.Chunks ByoRedis.Interface

/-! ## One session -/

/-- A snapshot and records that the limits of a replica have room for. A read may bring the
start of a command together with the end of the one before it. -/
structure Fit (rcfg : ReplicaConfig) (off : ℕ) (rdb : Bytes) (cmds : List Command) : Prop where
  offset : Convertible off
  bulk : rdb.length ≤ rcfg.maxBulkLen
  size : rdb.length ≤ rcfg.snapshotMaxBytes
  length : Convertible rdb.length
  commands : ∀ c ∈ cmds, c ≠ [] ∧ WithinParser (replicaLimits rcfg) c
  room : ∀ c ∈ cmds, (encodeCommand c).length + 65536 ≤ (replicaLimits rcfg).maxBufferBytes

/-- The reads fall apart where one reader of the session hands over to the next. -/
structure Apart (replid : Replid) (off : ℕ) (rdb : Bytes) (chunks : List Bytes) : Prop where
  line : NotAcross (lineEnd replid off) chunks
  snapshot : NotAcross (snapshotEnd replid off rdb) chunks

section Front

variable {rcfg : ReplicaConfig} {now : ℤ} {replid : Replid} {d : Entries} {off : ℕ} {rdb : Bytes}
  {cmds : List Command} {greeting chunks rest : List Bytes}

/-- The whole of a stream whose reads fall apart is handed over. -/
theorem handedOver_of_apart (hfit : Fit rcfg off rdb cmds)
    (hread : ∀ c ∈ chunks, c ≠ [] ∧ c.length ≤ 65536) (happart : Apart replid off rdb chunks)
    (hstream : chunks.flatten =
      MasterReplication.fullresyncPayload replid.text off rdb ++ cmds.flatMap encodeCommand) :
    HandedOver rcfg replid off rdb cmds chunks := by
  have htotal : snapshotEnd replid off rdb ≤ chunks.flatten.length := by
    rw [hstream, List.length_append]
    exact Nat.le_add_right _ _
  have hline : lineEnd replid off ≤ snapshotEnd replid off rdb := by
    unfold lineEnd snapshotEnd
    rw [fullresyncPayload_eq, List.length_append]
    exact Nat.le_add_right _ _
  refine ⟨?_, ?_, ?_⟩
  · obtain ⟨pre, post, hcs, hge, hlt⟩ := happart.line.cutIn (w := 2) (hline.trans htotal) (by omega)
    exact ⟨pre, post, hcs, hge, by omega⟩
  · intro c _
    exact happart.snapshot.cutIn htotal (List.length_pos_iff.mpr (encodeCommand_ne_nil c))
  · intro pre c post hcs _
    have hc := (hread c (by rw [hcs]; simp)).2
    obtain hnil | ⟨a, ha, q, -, hsplit⟩ :=
      torn_cases encodeCommand cmds (pre.flatten.length - snapshotEnd replid off rdb)
    · have hmax : (replicaLimits rcfg).maxBufferBytes = 32000000 := rfl
      rw [hnil, List.length_nil, hmax]
      omega
    · have hroom := hfit.room a ha
      rw [hsplit, List.length_append] at hroom
      omega

/-- **A session on a front of a stream** loads the snapshot of the stream or none, and applies
the first of its records.
SOURCE: replication/replica.py:83-227 -/
theorem session_of_front (ht : Timeless d) (hdump : dumpRdbEntries d = some rdb)
    (hgreeting : Replies (greetings rcfg) greeting) (hfit : Fit rcfg off rdb cmds)
    (hread : ∀ c ∈ rest, c ≠ [] ∧ c.length ≤ 65536) (happart : Apart replid off rdb rest)
    (hfront : rest.flatten <+:
      MasterReplication.fullresyncPayload replid.text off rdb ++ cmds.flatMap encodeCommand)
    (hchunks : chunks <+: greeting ++ rest) :
    (∀ d', (endOf (Session.run rcfg now chunks)).loaded = some d' → d' = d) ∧
      (endOf (Session.run rcfg now chunks)).applied <+: cmds := by
  obtain ⟨late, hlate⟩ := hfront
  -- the rest of the stream arrives byte by byte
  have hwhole : (rest ++ late.map fun x => [x]).flatten =
      MasterReplication.fullresyncPayload replid.text off rdb ++ cmds.flatMap encodeCommand := by
    rw [List.flatten_append, ← List.flatMap_def, List.flatMap_singleton', hlate]
  have hread' : ∀ c ∈ rest ++ late.map fun x => [x], c ≠ [] ∧ c.length ≤ 65536 := by
    intro c hc
    obtain hc | hc := List.mem_append.mp hc
    · exact hread c hc
    · obtain ⟨x, -, rfl⟩ := List.mem_map.mp hc
      exact ⟨List.cons_ne_nil _ _, by rw [List.length_singleton]; omega⟩
  have happart' : Apart replid off rdb (rest ++ late.map fun x => [x]) :=
    ⟨happart.line.append_singles late, happart.snapshot.append_singles late⟩
  have hover := handedOver_of_apart hfit hread' happart' hwhole
  obtain ⟨s, hs, hloaded, happlied⟩ := @session_of_link rcfg now replid d off rdb cmds greeting _
    ht hdump hwhole hgreeting
    ⟨hread', hfit.offset, hfit.bulk, hfit.size, hfit.length, hfit.commands⟩ hover
  obtain ⟨back, hback⟩ := hchunks
  have hgrown := run_grown rcfg now chunks (back ++ late.map fun x => [x])
  rw [← List.append_assoc, hback, List.append_assoc, hs] at hgrown
  constructor
  · intro d' hd'
    exact Option.some.inj ((hgrown.loaded d' hd').symm.trans hloaded)
  · have hprefix := hgrown.applied
    rw [endOf, happlied] at hprefix
    exact hprefix

/-- The replies in front of PSYNC bring no snapshot.
SOURCE: replication/replica.py:98-141 -/
theorem loaded_of_greeting (hgreeting : Replies (greetings rcfg) greeting)
    (hchunks : chunks <+: greeting) : (endOf (Session.run rcfg now chunks)).loaded = none := by
  obtain ⟨sent, hshake⟩ := @handshake_answered rcfg now [] greeting hgreeting (by simp)
  have hrun : Session.run rcfg now greeting =
      follow rcfg now (answered rcfg sent []) := by
    rw [follow, ← hshake, List.append_nil]
    rfl
  have hnone : (endOf (Session.run rcfg now greeting)).loaded = none := by
    rw [hrun]
    rfl
  obtain ⟨back, rfl⟩ := hchunks
  have hgrown := run_grown rcfg now chunks back
  cases hd : (endOf (Session.run rcfg now chunks)).loaded with
  | none => rfl
  | some d' =>
    rw [hgrown.loaded d' hd] at hnone
    cases hnone

end Front

/-! ## The records behind a snapshot -/

/-- The snapshot was taken for connection `c`. -/
def snapshotFor (c : ℕ) : Event → Bool
  | .executed _ _ => false
  | .appended _ => false
  | .propagated _ => false
  | .snapshot conn _ _ _ => conn = c
  | .rewritten _ => false
  | .replied _ _ => false

/-- The number of records that had taken effect when the snapshot for `c` was taken. -/
def takenAt (c : ℕ) (evs : List Event) : ℕ :=
  (executedOf (evs.takeWhile fun ev => !snapshotFor c ev)).length

variable {sys sys' : System} {a : Action} {es evs : List Event} {c : ℕ} {l l' : ReplicaLink}
  {d : Entries} {off : ℕ} {cmds : List Command} {replid : Replid}

/-- The first snapshot of a link counts. -/
theorem takenAt_of_mem (h : ∃ ev ∈ evs, snapshotFor c ev = true) (es : List Event) :
    takenAt c (evs ++ es) = takenAt c evs := by
  unfold takenAt
  obtain ⟨ev, hev, hc⟩ := h
  rw [List.takeWhile_append, if_neg]
  intro hall
  have hev' : ev ∈ evs.takeWhile fun ev => !snapshotFor c ev := by
    rw [List.IsPrefix.eq_of_length (List.takeWhile_prefix _) hall]
    exact hev
  have hno := List.mem_takeWhile_imp hev'
  rw [hc] at hno
  cases hno

/-- A snapshot that is the last event. -/
theorem takenAt_snoc (h : ∀ ev ∈ evs, snapshotFor c ev = false) {ev : Event}
    (hev : snapshotFor c ev = true) : takenAt c (evs ++ [ev]) = (executedOf evs).length := by
  unfold takenAt
  rw [List.takeWhile_append_of_pos fun e he => by rw [h e he]; rfl]
  simp [hev]

/-- A snapshot is taken of the commands executed by then. -/
theorem takenAt_le (c : ℕ) (evs : List Event) : takenAt c evs ≤ (executedOf evs).length := by
  obtain ⟨rest, hrest⟩ := List.takeWhile_prefix (p := fun ev => !snapshotFor c ev) (l := evs)
  have hlength : (executedOf ((evs.takeWhile fun ev => !snapshotFor c ev) ++ rest)).length =
      (executedOf evs).length := by rw [hrest]
  rw [executedOf_append, List.length_append] at hlength
  unfold takenAt
  omega

/-- A connection carries something exactly if a snapshot was taken for it. -/
theorem carried_isSome_iff :
    (carried c evs).isSome = true ↔ ∃ t d off, .snapshot c t d off ∈ evs := by
  induction evs using List.reverseRecOn with
  | nil => simp [carried]
  | append_singleton evs ev ih =>
    have hstep : carried c (evs ++ [ev]) = carriedStep c (carried c evs) ev := by
      rw [carried, List.foldl_append]
      rfl
    rw [hstep]
    cases ev with
    | snapshot conn t d off =>
      simp only [carriedStep]
      split_ifs with hc
      · subst hc
        exact ⟨fun _ => ⟨t, d, off, by simp⟩, fun _ => rfl⟩
      · rw [ih]
        simp [Ne.symm hc]
    | propagated argv =>
      simp only [carriedStep]
      rw [Option.isSome_map, ih]
      simp
    | executed t records => simpa [carriedStep] using ih
    | appended argv => simpa [carriedStep] using ih
    | rewritten cs => simpa [carriedStep] using ih
    | replied conn reply => simpa [carriedStep] using ih

/-- The snapshot that a connection carries was taken. -/
theorem exists_snapshot_of_carried (h : carried c evs = some (d, off, cmds)) :
    ∃ t, .snapshot c t d off ∈ evs := by
  induction evs using List.reverseRecOn generalizing cmds with
  | nil => cases h
  | append_singleton evs ev ih =>
    have hstep : carried c (evs ++ [ev]) = carriedStep c (carried c evs) ev := by
      rw [carried, List.foldl_append]
      rfl
    have hold : (∃ cmds, carried c evs = some (d, off, cmds)) →
        ∃ t, .snapshot c t d off ∈ evs ++ [ev] := by
      rintro ⟨cmds, hcarried⟩
      obtain ⟨t, hmem⟩ := ih hcarried
      exact ⟨t, List.mem_append_left _ hmem⟩
    rw [hstep] at h
    cases ev with
    | snapshot conn t d' off' =>
      simp only [carriedStep] at h
      split_ifs at h with hc
      · subst hc
        cases h
        exact ⟨t, by simp⟩
      · exact hold ⟨cmds, h⟩
    | propagated argv =>
      simp only [carriedStep] at h
      obtain ⟨x, hx, heq⟩ := Option.map_eq_some_iff.mp h
      cases heq
      exact hold ⟨x.2.2, hx⟩
    | executed t records => exact hold ⟨cmds, h⟩
    | appended argv => exact hold ⟨cmds, h⟩
    | rewritten cs => exact hold ⟨cmds, h⟩
    | replied conn reply => exact hold ⟨cmds, h⟩

/-- Without a snapshot for the link there is no event of one. -/
theorem not_snapshotFor (h : carried c evs = none) : ∀ ev ∈ evs, snapshotFor c ev = false := by
  intro ev hev
  cases ev with
  | snapshot conn t d off =>
    refine decide_eq_false ?_
    rintro rfl
    have hsome := carried_isSome_iff.mpr ⟨t, d, off, hev⟩
    rw [h] at hsome
    cases hsome
  | executed t records => rfl
  | appended argv => rfl
  | propagated argv => rfl
  | rewritten cs => rfl
  | replied conn reply => rfl

/-- What a connection carries in terms of all the records: its snapshot is the replay of the
first of them, and the records that were propagated since come next. -/
structure Traced (evs : List Event) (sys : System) (c : ℕ) (d : Entries) (cmds : List Command) :
    Prop where
  linked : ∃ l, sys.server.master.links.get? c = some l
  snapshot : d = replay ((executedOf evs).take (takenAt c evs)) Dict.empty
  records : (executedOf evs).drop (takenAt c evs) = cmds ++ unpropagated sys.holder

/-- The records behind a snapshot that was there before. -/
theorem Traced.step (h : Traced evs sys c d cmds) (hcarried : carried c evs = some (d, off, cmds))
    (hbalanced : Balanced sys es sys') (hlinked : ∃ l, sys'.server.master.links.get? c = some l) :
    Traced (evs ++ es) sys' c d (cmds ++ propagatedOf es) := by
  have htaken : takenAt c (evs ++ es) = takenAt c evs :=
    takenAt_of_mem ⟨_, (exists_snapshot_of_carried hcarried).choose_spec, decide_eq_true rfl⟩ es
  have hle := takenAt_le c evs
  refine ⟨hlinked, ?_, ?_⟩
  · rw [htaken, executedOf_append, List.take_append_of_le_length hle]
    exact h.snapshot
  · rw [htaken, executedOf_append, List.drop_append_of_le_length hle, h.records, List.append_assoc,
      hbalanced.records, List.append_assoc]

/-- A snapshot that has just been taken has all the records. -/
theorem takenAt_taken (hnone : carried c evs = none) (htaken : Taken sys c es sys') :
    takenAt c (evs ++ es) = (executedOf evs).length := by
  rw [htaken.events]
  exact takenAt_snoc (not_snapshotFor hnone) (decide_eq_true rfl)

/-- The records behind a snapshot that has just been taken. -/
theorem traced_taken (h : Mirrored replid evs sys) (hnone : carried c evs = none)
    (htaken : Taken sys c es sys') :
    Traced (evs ++ es) sys' c (sys.server.store.live sys.now) [] := by
  have hexecuted : executedOf es = [] := by
    rw [htaken.events]
    rfl
  have hposition := takenAt_taken hnone htaken
  refine ⟨htaken.linked, ?_, ?_⟩
  · rw [hposition, executedOf_append, hexecuted, List.append_nil, List.take_length]
    exact h.live.1
  · rw [hposition, executedOf_append, hexecuted, List.append_nil, List.drop_length, htaken.free']
    rfl

/-- A link that takes a payload or gives up keeps what was written.
SOURCE: replication/master.py:221-254 -/
theorem written_iterate (m : MasterReplication) (payload : Bytes) (offset : ℕ) (fails : Bool)
    (n : ℕ) (l : ReplicaLink) :
    l.written <+: ((fun l => (m.propagateLink payload offset fails l).1)^[n] l).written := by
  induction n generalizing l with
  | zero => exact List.prefix_refl _
  | succ n ih =>
    rw [Function.iterate_succ, Function.comp_apply]
    refine List.IsPrefix.trans ?_ (ih _)
    by_cases haccepts : Accepts m payload fails l
    · rw [propagateLink_of_accepts haccepts]
      cases l.state with
      | syncing => exact List.prefix_refl _
      | live => exact List.prefix_append _ _
    · exact ⟨[], by rw [propagateLink_of_not_accepts haccepts, List.append_nil]⟩

/-- A link stays, and what was written to it.
SOURCE: replication/master.py:66-276 -/
theorem written_of_step (hrole : sys.server.config.isReplica = false)
    (hs : sys.step a = some (sys', es)) (hl : sys.server.master.links.get? c = some l) :
    ∃ l', sys'.server.master.links.get? c = some l' ∧ l.written <+: l'.written := by
  have hedited : ∀ {conn : ℕ} {f : ReplicaLink → ReplicaLink},
      Edits conn f sys.server.master sys'.server.master →
      (∀ l : ReplicaLink, l.written <+: (f l).written) →
      ∃ l', sys'.server.master.links.get? c = some l' ∧ l.written <+: l'.written := by
    intro conn f hedit hf
    by_cases hc : c = conn
    · subst hc
      exact ⟨f l, by rw [hedit.link, hl]; rfl, hf l⟩
    · exact ⟨l, by rw [hedit.links c hc, hl], List.prefix_refl _⟩
  cases (turn_of_step hrole hs).links with
  | idle hmaster hresyncs hes => exact ⟨l, by rw [hmaster, hl], List.prefix_refl _⟩
  | propagated argv fails haction hhead hmaster hresyncs hes =>
    refine ⟨_, by rw [hmaster, get?_propagate, hl]; rfl, ?_⟩
    exact written_iterate _ _ _ _ _ l
  | registered conn hfree hnew hmaster hresyncs hes =>
    have hc : c ≠ conn := by
      rintro rfl
      rw [hl] at hnew
      cases hnew
    refine ⟨l, ?_, List.prefix_refl _⟩
    rw [hmaster, (elsewhere_registerSyncing _ conn).links c hc, hl]
  | sent conn d offset rdb hresync hdump hmaster hresyncs hes =>
    exact hedited (hmaster ▸ edits_writeLink _ conn _) fun _ => List.prefix_append _ _
  | taken conn hresync hmaster hresyncs hes =>
    refine hedited (hmaster ▸ (edits_takeBatch _ conn).1) fun l => ?_
    unfold takenFrom
    split_ifs <;> exact List.prefix_refl _
  | flushed conn batch hresync hmaster hresyncs hes =>
    exact hedited (hmaster ▸ edits_writeLink _ conn _) fun _ => List.prefix_append _ _
  | unregistered conn hmaster hresyncs hes =>
    by_cases hc : c = conn
    · subst hc
      rw [hmaster]
      unfold MasterReplication.unregister
      split_ifs
      · rw [hl]
        exact ⟨_, Dict.get?_insert_self _ _ _, List.prefix_refl _⟩
      · exact ⟨l, hl, List.prefix_refl _⟩
    · refine ⟨l, ?_, List.prefix_refl _⟩
      rw [hmaster, (elsewhere_unregister _ conn).1.links c hc, hl]
  | drained conn hmaster hresyncs hes =>
    have hedit := edits_drainOne sys.server.master conn
    rw [← hmaster] at hedit
    exact hedited hedit fun _ => List.prefix_refl _
  | failed conn link haction hmaster hresyncs hes =>
    subst haction
    cases stepped_of_step hs with
    | drainFailed conn link' hlink' =>
      exact hedited (edits_setLink (f := fun l => { l with alive := false }) hlink')
        fun _ => List.prefix_refl _

/-! ## Histories of the two -/

/-- The event of the master that an occurrence is. -/
def masterEvent : DeploymentEvent → Option Event
  | .master ev => some ev
  | .delivered _ _ => none
  | .client _ _ => none

/-- The history of the master. -/
def masterOf (evs : List DeploymentEvent) : List Event := evs.filterMap masterEvent

/-- The chunk of the link of `c` that an occurrence is. -/
def chunkOn (c : ℕ) : DeploymentEvent → Option Bytes
  | .master _ => none
  | .delivered conn data => if conn = c then some data else none
  | .client _ _ => none

/-- The chunks that have arrived from the link of `c`. -/
def deliveredOn (c : ℕ) (evs : List DeploymentEvent) : List Bytes := evs.filterMap (chunkOn c)

/-- The master's history and the number of its records that the replica has, after one more
occurrence: a snapshot brings all that had taken effect when it was taken, a command one more. -/
def positionStep (acc : List Event × ℕ) : DeploymentEvent → List Event × ℕ
  | .master ev => (acc.1 ++ [ev], acc.2)
  | .delivered _ _ => acc
  | .client conn (.loaded _) => (acc.1, takenAt conn acc.1)
  | .client _ (.applied _) => (acc.1, acc.2 + 1)
  | .client _ (.retrying _) => acc

/-- How many of the master's records the replica has. -/
def position (evs : List DeploymentEvent) : ℕ := (evs.foldl positionStep ([], 0)).2

section Histories

variable {evs es : List DeploymentEvent}

/-- The events of the master in two stretches. -/
theorem masterOf_append (evs es : List DeploymentEvent) :
    masterOf (evs ++ es) = masterOf evs ++ masterOf es := List.filterMap_append

/-- The chunks delivered on a link in two stretches. -/
theorem deliveredOn_append (c : ℕ) (evs es : List DeploymentEvent) :
    deliveredOn c (evs ++ es) = deliveredOn c evs ++ deliveredOn c es := List.filterMap_append

/-- All events of the master are its own. -/
theorem masterOf_master (es : List Event) : masterOf (es.map DeploymentEvent.master) = es := by
  unfold masterOf
  rw [List.filterMap_map]
  exact List.filterMap_some

/-- The master delivers nothing. -/
theorem deliveredOn_master (c : ℕ) (es : List Event) :
    deliveredOn c (es.map DeploymentEvent.master) = [] := by
  unfold deliveredOn
  rw [List.filterMap_map]
  exact List.filterMap_eq_nil_iff.mpr fun _ _ => rfl

/-- The events of the replica are none of the master. -/
theorem masterOf_client (c : ℕ) (es : List ClientEvent) :
    masterOf (es.map (DeploymentEvent.client c)) = [] := by
  unfold masterOf
  rw [List.filterMap_map]
  exact List.filterMap_eq_nil_iff.mpr fun _ _ => rfl

/-- What the replica observes delivers nothing. -/
theorem deliveredOn_client (c conn : ℕ) (es : List ClientEvent) :
    deliveredOn c (es.map (DeploymentEvent.client conn)) = [] := by
  unfold deliveredOn
  rw [List.filterMap_map]
  exact List.filterMap_eq_nil_iff.mpr fun _ _ => rfl

/-- The position is found while the events of the master are collected. -/
theorem positionStep_fst (evs : List DeploymentEvent) :
    (evs.foldl positionStep ([], 0)).1 = masterOf evs := by
  induction evs using List.reverseRecOn with
  | nil => rfl
  | append_singleton evs o ih =>
    rw [List.foldl_append, masterOf_append, ← ih]
    cases o with
    | master ev => rfl
    | delivered conn data => exact (List.append_nil _).symm
    | client conn ev => cases ev <;> exact (List.append_nil _).symm

/-- One more occurrence. -/
theorem position_snoc (evs : List DeploymentEvent) (o : DeploymentEvent) :
    position (evs ++ [o]) = (positionStep (masterOf evs, position evs) o).2 := by
  unfold position
  rw [List.foldl_append, ← positionStep_fst]
  rfl

/-- Each command that is applied goes one further. -/
theorem position_applied (evs : List DeploymentEvent) (c : ℕ) (cmds : List Command) :
    position (evs ++ (cmds.map ClientEvent.applied).map (DeploymentEvent.client c)) =
      position evs + cmds.length := by
  induction cmds generalizing evs with
  | nil => rw [List.map_nil, List.map_nil, List.append_nil]; rfl
  | cons argv cmds ih =>
    rw [List.map_cons, List.map_cons, List.append_cons, ih, position_snoc, List.length_cons]
    show position evs + 1 + cmds.length = _
    omega

/-- The master does not move the replica. -/
theorem position_master (evs : List DeploymentEvent) (es : List Event) :
    position (evs ++ es.map DeploymentEvent.master) = position evs := by
  induction es generalizing evs with
  | nil => rw [List.map_nil, List.append_nil]
  | cons ev es ih =>
    rw [List.map_cons, List.append_cons, ih, position_snoc]
    rfl

/-- The replica has never had more than now. -/
def Climbs (evs : List DeploymentEvent) : Prop :=
  ∀ front back, evs = front ++ back → position front ≤ position evs

/-- An event that does not go back keeps the climb. -/
theorem Climbs.snoc {o : DeploymentEvent} (h : Climbs evs)
    (ho : position evs ≤ position (evs ++ [o])) : Climbs (evs ++ [o]) := by
  intro front back heq
  cases back using List.reverseRecOn with
  | nil =>
    rw [List.append_nil] at heq
    rw [heq]
  | append_singleton back o' =>
    rw [← List.append_assoc] at heq
    have hfront := h front back (List.append_inj_left' heq rfl)
    exact hfront.trans ho

/-- Occurrences that bring no snapshot. -/
theorem Climbs.append {os : List DeploymentEvent} (h : Climbs evs)
    (hos : ∀ c d, .client c (.loaded d) ∉ os) : Climbs (evs ++ os) := by
  induction os generalizing evs with
  | nil =>
    rw [List.append_nil]
    exact h
  | cons o os ih =>
    rw [List.append_cons]
    refine ih (h.snoc ?_) fun c d hmem => hos c d (List.mem_cons_of_mem _ hmem)
    rw [position_snoc]
    cases o with
    | master ev => exact Nat.le_refl _
    | delivered conn data => exact Nat.le_refl _
    | client conn ev =>
      cases ev with
      | loaded d => exact absurd List.mem_cons_self (hos conn d)
      | applied argv => exact Nat.le_succ _
      | retrying ms => exact Nat.le_refl _

/-- The limits of the replica have room for all that the master does, and the reads of the
replica fall apart at the hand-overs. -/
def Suited (rcfg : ReplicaConfig) (replid : Replid) (evs : List DeploymentEvent) : Prop :=
  ∀ c t d off, .snapshot c t d off ∈ masterOf evs → ∃ rdb, dumpRdbEntries d = some rdb ∧
    Fit rcfg off rdb (executedOf (masterOf evs)) ∧ Apart replid off rdb (deliveredOn c evs)

/-- Reads that suit the hand-overs did so before. -/
theorem Suited.of_append {rcfg : ReplicaConfig} {replid : Replid}
    (h : Suited rcfg replid (evs ++ es)) : Suited rcfg replid evs := by
  intro c t d off hmem
  have hmem' : .snapshot c t d off ∈ masterOf (evs ++ es) := by
    rw [masterOf_append]
    exact List.mem_append_left _ hmem
  obtain ⟨rdb, hdump, hfit, happart⟩ := h c t d off hmem'
  rw [masterOf_append, executedOf_append] at hfit
  rw [deliveredOn_append] at happart
  refine ⟨rdb, hdump, ⟨hfit.offset, hfit.bulk, hfit.size, hfit.length, ?_, ?_⟩,
    happart.line.of_append, happart.snapshot.of_append⟩
  · exact fun c hc => hfit.commands c (List.mem_append_left _ hc)
  · exact fun c hc => hfit.room c (List.mem_append_left _ hc)

end Histories

/-! ## The keyspace of the replica -/

/-- Records that are applied, whatever becomes of them in the replica's own AOF.
SOURCE: server.py:409-535, 577-578 -/
theorem entries_applyReplicated (env : ℕ → Env) (fate : ℕ → List RecordIO) {cmds : List Command}
    (hlog : ∀ r ∈ cmds, Loggable r) {srv : Server} (h0 : srv.store.maxmemoryBytes = 0)
    (ht : Timeless srv.store.entries) :
    (srv.applyReplicated env fate cmds).store.entries = replay cmds srv.store.entries ∧
      (srv.applyReplicated env fate cmds).store.maxmemoryBytes = 0 := by
  induction cmds generalizing env fate srv with
  | nil => exact ⟨rfl, h0⟩
  | cons argv cmds ih =>
    obtain ⟨hw, hfree⟩ := hlog argv List.mem_cons_self
    have hrest := fun r hr => hlog r (List.mem_cons_of_mem _ hr)
    have hentries := entries_execute_applied srv (env 0) 0
      (rfl : Flags.replicated.isReplicaClient = true) hw h0 (fate 0)
    obtain ⟨-, -, -, hlimits⟩ := execute_applied srv (env 0) 0
      (rfl : Flags.replicated.isReplicaClient = true) hw (fate 0)
    rw [live_of_fresh (ht.fresh _), effect_of_ttlFree hfree (env 0).now 0] at hentries
    have hreplay : replay [argv] srv.store.entries =
        (effect 0 argv srv.store.entries).getD srv.store.entries := rfl
    rw [← hreplay] at hentries
    have htimeless : Timeless (replay [argv] srv.store.entries) :=
      timeless_replay (by simpa using ⟨hw, hfree⟩) ht
    rw [← hentries] at htimeless
    obtain ⟨hfinal, hfinal0⟩ := ih (fun i => env (i + 1)) (fun i => fate (i + 1)) hrest
      (hlimits.1.trans h0) htimeless
    refine ⟨?_, hfinal0⟩
    calc _ = replay cmds (replay [argv] srv.store.entries) := by rw [← hentries]; exact hfinal
      _ = replay (argv :: cmds) srv.store.entries := (replay_append [argv] cmds _).symm

/-- The history of the two, the master and the replica's server: what the master's links carry,
and that the replica has the replay of the first of the records. -/
structure Core (replid : Replid) (evs : List DeploymentEvent) (sys : System) (srv : Server) :
    Prop where
  mirrored : Mirrored replid (masterOf evs) sys
  wired : Wired replid (masterOf evs) sys
  recorded : ∀ c d off cmds, carried c (masterOf evs) = some (d, off, cmds) →
    Traced (masterOf evs) sys c d cmds
  unheard : ∀ c, sys.server.master.links.get? c = none → deliveredOn c evs = []
  unlimited : srv.store.maxmemoryBytes = 0
  bound : position evs ≤ (executedOf (masterOf evs)).length
  keyspace : srv.store.entries =
    replay ((executedOf (masterOf evs)).take (position evs)) Dict.empty
  climbs : Climbs evs

/-- What a session on connection `c` has done was sent to it. -/
def Fed (evs : List Event) (c : ℕ) (s : Session) : Prop :=
  s.loaded = none ∨
    ∃ d off cmds, carried c evs = some (d, off, cmds) ∧ s.loaded = some d ∧ s.applied <+: cmds

/-- Where the replica is during a session on `c`: not beyond a snapshot that it has not loaded,
and as far behind the one that it has loaded as it has applied commands. -/
structure Placed (evs : List DeploymentEvent) (c : ℕ) (s : Session) : Prop where
  waiting : s.loaded = none → ∀ x, carried c (masterOf evs) = some x →
    position evs ≤ takenAt c (masterOf evs)
  following : s.loaded.isSome = true → (carried c (masterOf evs)).isSome = true ∧
    position evs = takenAt c (masterOf evs) + s.applied.length

section Replica

variable {evs : List DeploymentEvent} {srv : Server} {conn : ℕ} {before after : Session}

/-- The records that a session has. -/
theorem Traced.take {evs : List Event} {applied : List Command}
    (h : Traced evs sys c d cmds) (hfront : applied <+: cmds) :
    (executedOf evs).take (takenAt c evs + applied.length) =
        (executedOf evs).take (takenAt c evs) ++ applied ∧
      takenAt c evs + applied.length ≤ (executedOf evs).length := by
  obtain ⟨more, rfl⟩ := hfront
  have hdrop := h.records
  rw [List.append_assoc] at hdrop
  have hlength := congrArg List.length hdrop
  rw [List.length_drop, List.length_append] at hlength
  have hle := takenAt_le c evs
  refine ⟨?_, by omega⟩
  rw [List.take_add, hdrop, List.take_left']
  rfl

/-- No front of what was executed has deadlines. -/
theorem Core.timeless (h : Core replid evs sys srv) (n : ℕ) :
    Timeless (replay ((executedOf (masterOf evs)).take n) Dict.empty) :=
  timeless_replay (fun r hr => h.mirrored.loggable r (List.mem_of_mem_take hr)) timeless_empty

/-- The records that a connection carries can stand in a log. -/
theorem Core.loggable (h : Core replid evs sys srv)
    (hcarried : carried conn (masterOf evs) = some (d, off, cmds)) :
    ∀ r ∈ cmds, Loggable r := by
  intro r hr
  apply h.mirrored.loggable r
  apply List.mem_of_mem_drop (i := takenAt conn (masterOf evs))
  rw [(h.recorded conn d off cmds hcarried).records]
  exact List.mem_append_left _ hr

/-- Only the store of the replica matters. -/
theorem Core.sameStore (h : Core replid evs sys srv) {srv' : Server}
    (hsrv : srv'.store = srv.store) : Core replid evs sys srv' :=
  ⟨h.mirrored, h.wired, h.recorded, h.unheard, by rw [hsrv]; exact h.unlimited, h.bound,
    by rw [hsrv]; exact h.keyspace, h.climbs⟩

/-- A session fails. -/
theorem Core.retrying (h : Core replid evs sys srv) (c ms : ℕ) :
    Core replid (evs ++ [.client c (.retrying ms)]) sys srv := by
  have hmaster : masterOf (evs ++ [.client c (.retrying ms)]) = masterOf evs := by
    rw [masterOf_append]
    exact List.append_nil _
  have hposition : position (evs ++ [.client c (.retrying ms)]) = position evs :=
    position_snoc _ _
  refine ⟨hmaster ▸ h.mirrored, hmaster ▸ h.wired, hmaster ▸ h.recorded, ?_, h.unlimited, ?_, ?_,
    h.climbs.append (by simp)⟩
  · intro c' hc'
    rw [deliveredOn_append, h.unheard c' hc']
    rfl
  · rw [hmaster, hposition]
    exact h.bound
  · rw [hmaster, hposition]
    exact h.keyspace

/-- A chunk arrives from a link. -/
theorem Core.delivered (h : Core replid evs sys srv) (hl : sys.server.master.links.get? c = some l)
    (data : Bytes) : Core replid (evs ++ [.delivered c data]) sys srv := by
  have hmaster : masterOf (evs ++ [.delivered c data]) = masterOf evs := by
    rw [masterOf_append]
    exact List.append_nil _
  have hposition : position (evs ++ [.delivered c data]) = position evs := position_snoc _ _
  refine ⟨hmaster ▸ h.mirrored, hmaster ▸ h.wired, hmaster ▸ h.recorded, ?_, h.unlimited, ?_, ?_,
    h.climbs.append (by simp)⟩
  · intro c' hc'
    have hne : c ≠ c' := by
      rintro rfl
      rw [hl] at hc'
      cases hc'
    rw [deliveredOn_append, h.unheard c' hc']
    simp [deliveredOn, chunkOn, hne]
  · rw [hmaster, hposition]
    exact h.bound
  · rw [hmaster, hposition]
    exact h.keyspace

/-- **The replica after a chunk.** What it has is the replay of more of the records, and not of
fewer.
SOURCE: replication/replica.py:150-154, 197-227 -/
theorem Core.catchUp (h : Core replid evs sys srv) (hadded : Added before after)
    (hplaced : Placed evs conn before) (hfed : Fed (masterOf evs) conn after) (env : ℕ → Env)
    (fate : ℕ → List RecordIO) :
    Core replid (evs ++ (ReplicaClient.observed before after).map (DeploymentEvent.client conn)) sys
        (ReplicaClient.catchUp env fate before after srv) ∧
      Placed (evs ++ (ReplicaClient.observed before after).map (DeploymentEvent.client conn)) conn
        after := by
  -- the history of the master is the same, and so is what was delivered
  have hmaster : masterOf (evs ++ (ReplicaClient.observed before after).map
      (DeploymentEvent.client conn)) = masterOf evs := by
    rw [masterOf_append, masterOf_client, List.append_nil]
  have hunheard : ∀ c, sys.server.master.links.get? c = none → deliveredOn c
      (evs ++ (ReplicaClient.observed before after).map (DeploymentEvent.client conn)) = [] := by
    intro c hc
    rw [deliveredOn_append, deliveredOn_client, h.unheard c hc]
    rfl
  cases hadded with
  | unloaded hbefore hafter hnone hcmds =>
    have hsame : ReplicaClient.catchUp env fate before after srv = srv :=
      (Added.unloaded hbefore hafter hnone hcmds).untouched env fate hafter
    have hseen : ReplicaClient.observed before after = [] := by
      unfold ReplicaClient.observed ReplicaClient.newSnapshot ReplicaClient.newCommands
      rw [hbefore, hafter, hnone, hcmds]
      rfl
    rw [hsame, hseen, List.map_nil, List.append_nil]
    refine ⟨h, fun _ => hplaced.waiting hbefore, ?_⟩
    rw [hafter]
    exact fun hsome => by cases hsome
  | loaded d hbefore hafter hnone =>
    obtain hempty | ⟨d', off, cmds, hcarried, hloaded, hfront⟩ := hfed
    · rw [hafter] at hempty
      cases hempty
    cases hafter.symm.trans hloaded
    have hrecorded := h.recorded conn d off cmds hcarried
    obtain ⟨htake, hle⟩ := hrecorded.take hfront
    have hlog : ∀ r ∈ after.applied, Loggable r :=
      fun r hr => h.loggable hcarried r (hfront.subset hr)
    have hnew : ReplicaClient.newCommands before after = after.applied := by
      unfold ReplicaClient.newCommands
      rw [hnone]
      rfl
    have hsnapshot : ReplicaClient.newSnapshot before after = some d := by
      unfold ReplicaClient.newSnapshot
      rw [hbefore]
      exact hafter
    have hseen : ReplicaClient.observed before after =
        .loaded d :: after.applied.map ClientEvent.applied := by
      unfold ReplicaClient.observed
      rw [hsnapshot, hnew]
      rfl
    have hposition : position (evs ++ (ReplicaClient.observed before after).map
        (DeploymentEvent.client conn)) =
        takenAt conn (masterOf evs) + after.applied.length := by
      rw [hseen, List.map_cons, List.append_cons, position_applied, position_snoc]
      rfl
    have htimeless : Timeless d := hrecorded.snapshot ▸ h.timeless _
    have hunlimited₀ : (srv.loadEntries d).store.maxmemoryBytes = 0 := h.unlimited
    obtain ⟨hentries, hunlimited⟩ := entries_applyReplicated env fate hlog hunlimited₀ htimeless
    have hcatch : ReplicaClient.catchUp env fate before after srv =
        (srv.loadEntries d).applyReplicated env fate after.applied := by
      unfold ReplicaClient.catchUp
      rw [hsnapshot, hnew]
    refine ⟨⟨hmaster ▸ h.mirrored, hmaster ▸ h.wired, hmaster ▸ h.recorded, hunheard, ?_, ?_, ?_,
      ?_⟩, ?_, ?_⟩
    · rw [hcatch]
      exact hunlimited
    · rw [hmaster, hposition]
      exact hle
    · have hd : (srv.loadEntries d).store.entries = d := rfl
      rw [hmaster, hposition, htake, replay_append, ← hrecorded.snapshot, hcatch, hentries, hd]
    · rw [hseen, List.map_cons, List.append_cons]
      refine (h.climbs.snoc ?_).append (by simp)
      rw [position_snoc]
      exact hplaced.waiting hbefore _ hcarried
    · rw [hafter]
      exact fun hnone => by cases hnone
    · intro _
      rw [hmaster, hcarried]
      exact ⟨rfl, hposition⟩
  | further d hbefore hafter hgrown =>
    obtain hempty | ⟨d', off, cmds, hcarried, hloaded, hfront⟩ := hfed
    · rw [hafter] at hempty
      cases hempty
    have hrecorded := h.recorded conn d' off cmds hcarried
    obtain ⟨htake, hle⟩ := hrecorded.take hfront
    obtain ⟨htake₀, -⟩ := hrecorded.take (hgrown.trans hfront)
    have hplace := (hplaced.following (by rw [hbefore]; rfl)).2
    obtain ⟨new, hnew⟩ := hgrown
    have hcommands : ReplicaClient.newCommands before after = new := by
      unfold ReplicaClient.newCommands
      rw [← hnew, List.drop_left]
    have hlog : ∀ r ∈ new, Loggable r := by
      intro r hr
      refine h.loggable hcarried r (hfront.subset ?_)
      rw [← hnew]
      exact List.mem_append_right _ hr
    have hsnapshot : ReplicaClient.newSnapshot before after = none := by
      unfold ReplicaClient.newSnapshot
      rw [hbefore]
    have hseen : ReplicaClient.observed before after = new.map ClientEvent.applied := by
      unfold ReplicaClient.observed
      rw [hsnapshot, hcommands]
      rfl
    have hposition : position (evs ++ (ReplicaClient.observed before after).map
        (DeploymentEvent.client conn)) =
        takenAt conn (masterOf evs) + after.applied.length := by
      rw [hseen, position_applied, hplace, ← hnew, List.length_append, Nat.add_assoc]
    have htimeless : Timeless srv.store.entries := h.keyspace ▸ h.timeless _
    obtain ⟨hentries, hunlimited⟩ := entries_applyReplicated env fate hlog h.unlimited htimeless
    have hcatch : ReplicaClient.catchUp env fate before after srv =
        srv.applyReplicated env fate new := by
      unfold ReplicaClient.catchUp
      rw [hsnapshot, hcommands]
    refine ⟨⟨hmaster ▸ h.mirrored, hmaster ▸ h.wired, hmaster ▸ h.recorded, hunheard, ?_, ?_, ?_,
      ?_⟩, ?_, ?_⟩
    · rw [hcatch]
      exact hunlimited
    · rw [hmaster, hposition]
      exact hle
    · rw [hmaster, hposition, htake, ← hnew, ← List.append_assoc, ← htake₀, replay_append, hcatch,
        hentries, h.keyspace, hplace]
    · rw [hseen]
      exact h.climbs.append (by simp)
    · rw [hafter]
      exact fun hnone => by cases hnone
    · intro _
      rw [hmaster, hcarried]
      exact ⟨rfl, hposition⟩

end Replica

section Master

variable {evs : List DeploymentEvent} {srv : Server}

/-- What a connection carries after an action of the master. -/
theorem carried_step {evs : List Event} (hs : sys.step a = some (sys', es))
    (hcarried : carried c (evs ++ es) = some (d, off, cmds)) :
    (∃ cmds', carried c evs = some (d, off, cmds') ∧
      (∀ t d off, .snapshot c t d off ∉ es) ∧ cmds = cmds' ++ propagatedOf es) ∨
    Taken sys c es sys' ∧ d = sys.server.store.live sys.now ∧ cmds = [] := by
  by_cases hnew : ∃ t d off, .snapshot c t d off ∈ es
  · obtain ⟨t, d', off', hmem⟩ := hnew
    have htaken := snapshot_of_step hs hmem
    rw [htaken.events, carried, List.foldl_append] at hcarried
    have hlast := (if_pos rfl).symm.trans hcarried
    cases hlast
    exact Or.inr ⟨htaken, rfl, rfl⟩
  · push Not at hnew
    cases hold : carried c evs with
    | none =>
      obtain ⟨t, d', off', hmem⟩ := carried_isSome_iff.mp (by rw [hcarried]; rfl)
      obtain hmem | hmem := List.mem_append.mp hmem
      · have hsome := carried_isSome_iff.mpr ⟨t, d', off', hmem⟩
        rw [hold] at hsome
        cases hsome
      · exact absurd hmem (hnew t d' off')
    | some x =>
      obtain ⟨d', off', cmds'⟩ := x
      rw [carried_append hold hnew] at hcarried
      cases hcarried
      exact Or.inl ⟨cmds', rfl, hnew, rfl⟩

/-- **An action of the master** leaves the replica where it is. -/
theorem Core.master (h : Core replid evs sys srv) (hok : Streamed sys a)
    (hs : sys.step a = some (sys', es)) :
    Core replid (evs ++ es.map DeploymentEvent.master) sys' srv := by
  have hrole := h.mirrored.role
  have hbalanced := balanced_of_step hrole h.mirrored.healthy hok.lossless hs
  have hmaster : masterOf (evs ++ es.map DeploymentEvent.master) = masterOf evs ++ es := by
    rw [masterOf_append, masterOf_master]
  have hposition := position_master evs es
  have hkept : ∀ c, (∃ l, sys.server.master.links.get? c = some l) →
      ∃ l, sys'.server.master.links.get? c = some l := by
    rintro c ⟨l, hl⟩
    obtain ⟨l', hl', -⟩ := written_of_step hrole hs hl
    exact ⟨l', hl'⟩
  refine ⟨hmaster ▸ h.mirrored.step hok hs, hmaster ▸ h.wired.step hs, ?_, ?_, h.unlimited, ?_, ?_,
    h.climbs.append (by simp)⟩
  · intro c d off cmds hcarried
    rw [hmaster] at hcarried ⊢
    obtain ⟨cmds', hold, -, rfl⟩ | ⟨htaken, rfl, rfl⟩ := carried_step hs hcarried
    · have hrecorded := h.recorded c d off cmds' hold
      exact hrecorded.step hold hbalanced (hkept c hrecorded.linked)
    · have hnone : carried c (masterOf evs) = none := by
        cases hold : carried c (masterOf evs) with
        | none => rfl
        | some x =>
          obtain ⟨l, hl⟩ := (h.recorded c x.1 x.2.1 x.2.2 hold).linked
          rw [htaken.new] at hl
          cases hl
      exact traced_taken h.mirrored hnone htaken
  · intro c hc
    have hnone : sys.server.master.links.get? c = none := by
      cases hl : sys.server.master.links.get? c with
      | none => rfl
      | some l =>
        obtain ⟨l', hl'⟩ := hkept c ⟨l, hl⟩
        rw [hc] at hl'
        cases hl'
    rw [deliveredOn_append, deliveredOn_master, h.unheard c hnone]
    rfl
  · rw [hmaster, hposition, executedOf_append, List.length_append]
    exact h.bound.trans (Nat.le_add_right _ _)
  · rw [hmaster, hposition, executedOf_append, List.take_append_of_le_length h.bound]
    exact h.keyspace

/-- A session during an action of the master. -/
theorem Placed.master {conn : ℕ} {s : Session} (h : Core replid evs sys srv)
    (hplaced : Placed evs conn s) (hs : sys.step a = some (sys', es)) :
    Placed (evs ++ es.map DeploymentEvent.master) conn s := by
  have hmaster : masterOf (evs ++ es.map DeploymentEvent.master) = masterOf evs ++ es := by
    rw [masterOf_append, masterOf_master]
  have hsame : ∀ {x}, carried conn (masterOf evs) = some x →
      takenAt conn (masterOf evs ++ es) = takenAt conn (masterOf evs) := by
    rintro ⟨d, off, cmds⟩ hx
    exact takenAt_of_mem ⟨_, (exists_snapshot_of_carried hx).choose_spec, decide_eq_true rfl⟩ es
  refine ⟨?_, ?_⟩
  · rintro hnone ⟨d, off, cmds⟩ hx
    rw [position_master, hmaster] at *
    cases hold : carried conn (masterOf evs) with
    | some x =>
      rw [hsame hold]
      exact hplaced.waiting hnone x hold
    | none =>
      obtain ⟨cmds', hcarried, -, -⟩ | ⟨htaken, -, -⟩ := carried_step hs hx
      · rw [hold] at hcarried
        cases hcarried
      · rw [takenAt_taken hold htaken]
        exact h.bound
  · intro hsome
    obtain ⟨hcarried, hposition⟩ := hplaced.following hsome
    obtain ⟨x, hx⟩ := Option.isSome_iff_exists.mp hcarried
    rw [position_master, hmaster, hsame hx]
    refine ⟨?_, hposition⟩
    obtain ⟨t, d, off, hmem⟩ := carried_isSome_iff.mp hcarried
    exact carried_isSome_iff.mpr ⟨t, d, off, List.mem_append_left _ hmem⟩

end Master

/-! ## Moves -/

/-- The chunks that a session has read: replies in front of PSYNC, and behind them what arrived
from the link. -/
structure Receiving (rcfg : ReplicaConfig) (dep : Deployment) (chunks : List Bytes) : Prop where
  greeting : ∃ greeting, Replies (greetings rcfg) greeting ∧
    greeting ++ dep.received = chunks ++ dep.greeting ∧ (dep.received = [] ∨ dep.greeting = [])
  read : ∀ c ∈ dep.received, c ≠ [] ∧ c.length ≤ 65536
  wire : dep.received.flatten <+: dep.wire

/-- The invariant of a deployment. -/
structure Deployed (rcfg : ReplicaConfig) (replid : Replid) (evs : List DeploymentEvent)
    (dep : Deployment) : Prop where
  core : Core replid evs dep.master dep.client.server
  config : dep.client.config = rcfg
  session : ∀ time chunks, dep.client.state = .session time chunks → Receiving rcfg dep chunks ∧
    deliveredOn dep.conn evs = dep.received ∧
    Placed evs dep.conn (Session.run rcfg time chunks).session

section Moves

variable {rcfg : ReplicaConfig} {evs os : List DeploymentEvent} {dep dep' : Deployment}
  {chunks : List Bytes} {time : ℤ}

/-- **A session has done what was sent to it.** -/
theorem fed_of_reads {srv : Server} (h : Core replid evs dep.master srv)
    (hsuited : Suited rcfg replid evs) (hdelivered : deliveredOn dep.conn evs = dep.received)
    (hreads : Receiving rcfg dep chunks) (time : ℤ) :
    Fed (masterOf evs) dep.conn (Session.run rcfg time chunks).session := by
  obtain ⟨greeting, hgreeting, hsplit, -⟩ := hreads.greeting
  have hfront : chunks <+: greeting ++ dep.received := ⟨dep.greeting, hsplit.symm⟩
  have hwire := hreads.wire
  unfold Deployment.wire at hwire
  rw [session_eq_endOf]
  cases hl : dep.master.server.master.links.get? dep.conn with
  | none =>
    rw [hdelivered.symm, h.unheard dep.conn hl, List.append_nil] at hfront
    exact Or.inl (loaded_of_greeting hgreeting hfront)
  | some l =>
    rw [hl] at hwire
    obtain ⟨d, off, cmds, hlink⟩ := h.wired.links dep.conn l hl
    have hrecorded := h.recorded dep.conn d off cmds hlink.events
    obtain ⟨t, hmem⟩ := exists_snapshot_of_carried hlink.events
    obtain ⟨rdb, hdump, hfit, happart⟩ := hsuited _ _ _ _ hmem
    have hsub : ∀ r ∈ cmds, r ∈ executedOf (masterOf evs) := by
      intro r hr
      apply List.mem_of_mem_drop (i := takenAt dep.conn (masterOf evs))
      rw [hrecorded.records]
      exact List.mem_append_left _ hr
    have hfit' : Fit rcfg off rdb cmds :=
      ⟨hfit.offset, hfit.bulk, hfit.size, hfit.length, fun r hr => hfit.commands r (hsub r hr),
        fun r hr => hfit.room r (hsub r hr)⟩
    have htimeless : Timeless d := hrecorded.snapshot ▸ h.timeless _
    have hstream : dep.received.flatten <+:
        MasterReplication.fullresyncPayload replid.text off rdb ++ cmds.flatMap encodeCommand := by
      rw [← h.wired.replid]
      exact (hwire.trans (written_linkBytes dep.master dep.conn l)).trans (hlink.front rdb hdump)
    rw [hdelivered] at happart
    obtain ⟨hloaded, happlied⟩ := @session_of_front rcfg time replid d off rdb cmds greeting
      chunks dep.received htimeless hdump hgreeting hfit' hreads.read happart hstream hfront
    cases hd : (endOf (Session.run rcfg time chunks)).loaded with
    | none => exact Or.inl hd
    | some d₁ =>
      cases hloaded d₁ hd
      exact Or.inr ⟨d, off, cmds, hlink.events, hd, happlied⟩

/-- What was written to a link stays written. -/
theorem Receiving.master (h : Receiving rcfg dep chunks)
    (hrole : dep.master.server.config.isReplica = false)
    (hs : dep.master.step a = some (sys', es)) :
    Receiving rcfg { dep with master := sys' } chunks := by
  refine ⟨h.greeting, h.read, h.wire.trans ?_⟩
  unfold Deployment.wire
  dsimp only
  cases hl : dep.master.server.master.links.get? dep.conn with
  | none => exact List.nil_prefix
  | some l =>
    obtain ⟨l', hl', hwritten⟩ := written_of_step hrole hs hl
    rw [hl']
    exact hwritten

/-- **A chunk arrives in a session.**
SOURCE: replication/replica.py:58-227 -/
theorem deployed_receive (dep : Deployment)
    (hcore : Core replid evs dep.master dep.client.server) (hconfig : dep.client.config = rcfg)
    (hdelivered : deliveredOn dep.conn evs = dep.received)
    (hplaced : Placed evs dep.conn (Session.run rcfg time chunks).session) {data : Bytes}
    (hreads : Receiving rcfg dep (chunks ++ [data])) (hsuited : Suited rcfg replid evs) (now : ℤ)
    (env : ℕ → Env) (fate : ℕ → List RecordIO) :
    Deployed rcfg replid
      (evs ++ (dep.client.receive time chunks data now env fate).2.map
        (DeploymentEvent.client dep.conn))
      { dep with client := (dep.client.receive time chunks data now env fate).1 } := by
  subst hconfig
  unfold ReplicaClient.receive
  dsimp only
  generalize hbefore : (Session.run dep.client.config time chunks).session = before at hplaced ⊢
  generalize htime : (if before.loaded.isSome = true then time else now) = time'
  have hadded := added_of_receive dep.client.config time now chunks data hbefore.symm htime.symm
  have hfed := fed_of_reads hcore hsuited hdelivered hreads time'
  generalize hrun : Session.run dep.client.config time' (chunks ++ [data]) = outcome
    at hadded hfed ⊢
  obtain ⟨hcore', hplaced'⟩ := hcore.catchUp hadded hplaced hfed env fate
  cases outcome with
  | waiting s =>
    refine ⟨hcore', rfl, ?_⟩
    rintro time₁ chunks₁ hstate
    cases hstate
    refine ⟨⟨hreads.greeting, hreads.read, hreads.wire⟩, ?_, ?_⟩
    · rw [deliveredOn_append, deliveredOn_client, List.append_nil]
      exact hdelivered
    · dsimp only
      rw [hrun]
      exact hplaced'
  | failed e s =>
    dsimp only
    rw [List.map_append, ← List.append_assoc]
    refine ⟨(hcore'.retrying _ _).sameStore rfl, rfl, ?_⟩
    intro time₁ chunks₁ hstate
    cases hstate
  | ok u s => exact absurd hrun (run_ne_ok _ _ _ u s)

/-- What a run is allowed: a master without deadlines and without failing appends, and replies
that a master gives. -/
def Permitted (dep : Deployment) : DeploymentMove → Prop
  | .master a => Streamed dep.master a
  | .dial _ greeting => Replies (greetings dep.client.config) greeting
  | .greet _ _ _ => True
  | .deliver _ _ _ _ => True
  | .refuse => True
  | .hangUp => True
  | .resume => True
  | .stop => True

/-- **Every move keeps the invariant.** -/
theorem Deployed.step {m : DeploymentMove} (h : Deployed rcfg replid evs dep)
    (hok : Permitted dep m) (hs : dep.step m = some (dep', os))
    (hsuited : Suited rcfg replid (evs ++ os)) :
    Deployed rcfg replid (evs ++ os) dep' := by
  cases m with
  | master a =>
    obtain ⟨⟨sys', es⟩, hstep, heq⟩ := Option.map_eq_some_iff.mp hs
    cases heq
    refine ⟨h.core.master hok hstep, h.config, ?_⟩
    intro time chunks hstate
    obtain ⟨hreads, hdelivered, hplaced⟩ := h.session time chunks hstate
    refine ⟨hreads.master h.core.mirrored.role hstep, ?_, hplaced.master h.core hstep⟩
    rw [deliveredOn_append, deliveredOn_master, List.append_nil]
    exact hdelivered
  | dial conn greeting =>
    simp only [Deployment.step] at hs
    split at hs
    · rename_i hnew
      obtain ⟨⟨c', es⟩, hstep, heq⟩ := Option.map_eq_some_iff.mp hs
      cases heq
      simp only [ReplicaClient.step] at hstep
      split at hstep <;> cases hstep
      rw [List.map_nil, List.append_nil]
      refine ⟨h.core, h.config, ?_⟩
      intro time chunks hstate
      cases hstate
      refine ⟨⟨⟨greeting, h.config ▸ hok, List.append_nil _, Or.inl rfl⟩, by simp,
        List.nil_prefix⟩,
        h.core.unheard conn hnew, ?_, ?_⟩
      · rintro - ⟨d, off, cmds⟩ hcarried
        obtain ⟨l, hl⟩ := (h.core.recorded conn d off cmds hcarried).linked
        rw [hnew] at hl
        cases hl
      · intro hsome
        rw [loaded_of_run_nil] at hsome
        cases hsome
    · cases hs
  | greet now env fate =>
    simp only [Deployment.step] at hs
    split at hs
    · cases hs
    · rename_i data rest hgreeting
      obtain ⟨⟨c', es⟩, hstep, heq⟩ := Option.map_eq_some_iff.mp hs
      cases heq
      simp only [ReplicaClient.step] at hstep
      split at hstep
      · cases hstep
      · rename_i time chunks hstate
        obtain ⟨hreads, hdelivered, hplaced⟩ := h.session time chunks hstate
        have hreceive := Option.some.inj hstep
        obtain ⟨greeting, hreplies, hsplit, hempty⟩ := hreads.greeting
        have hnone : dep.received = [] := by
          obtain hnone | hnone := hempty
          · exact hnone
          · rw [hgreeting] at hnone
            cases hnone
        have hreads' : Receiving rcfg { dep with greeting := rest } (chunks ++ [data]) := by
          refine ⟨⟨greeting, hreplies, ?_, Or.inl hnone⟩, hreads.read, hreads.wire⟩
          rw [hsplit, hgreeting, List.append_assoc]
          rfl
        have hdeployed := deployed_receive { dep with greeting := rest } h.core h.config
          hdelivered hplaced hreads' hsuited.of_append now env fate
        rw [hreceive] at hdeployed
        exact hdeployed
      · cases hstep
      · cases hstep
  | deliver data now env fate =>
    simp only [Deployment.step] at hs
    split_ifs at hs with harrives
    obtain ⟨hgreeting, hdata, hsize, hwire⟩ := harrives
    obtain ⟨⟨dep₁, os₁⟩, hact, heq⟩ := Option.map_eq_some_iff.mp hs
    cases heq
    obtain ⟨⟨c', es⟩, hstep, heq⟩ := Option.map_eq_some_iff.mp hact
    cases heq
    simp only [ReplicaClient.step] at hstep
    split at hstep
    · cases hstep
    · rename_i time chunks hstate
      obtain ⟨hreads, hdelivered, hplaced⟩ := h.session time chunks hstate
      have hreceive := Option.some.inj hstep
      obtain ⟨greeting, hreplies, hsplit, -⟩ := hreads.greeting
      have hlink : ∃ l, dep.master.server.master.links.get? dep.conn = some l := by
        cases hl : dep.master.server.master.links.get? dep.conn with
        | some l => exact ⟨l, rfl⟩
        | none =>
          unfold Deployment.wire at hwire
          rw [hl] at hwire
          exact absurd (List.append_eq_nil_iff.mp (List.prefix_nil.mp hwire)).2 hdata
      obtain ⟨l, hl⟩ := hlink
      have hreads' : Receiving rcfg { dep with received := dep.received ++ [data] }
          (chunks ++ [data]) := by
        refine ⟨⟨greeting, hreplies, ?_, Or.inr hgreeting⟩, ?_, ?_⟩
        · dsimp only
          rw [← List.append_assoc, hsplit, hgreeting, List.append_nil, List.append_nil]
        · intro c hc
          obtain hc | hc := List.mem_append.mp hc
          · exact hreads.read c hc
          · rw [List.mem_singleton.mp hc]
            exact ⟨hdata, hsize⟩
        · rw [List.flatten_append, List.flatten_singleton]
          exact hwire
      have hmaster : masterOf (evs ++ [.delivered dep.conn data]) = masterOf evs := by
        rw [masterOf_append]
        exact List.append_nil _
      have hplaced' : Placed (evs ++ [.delivered dep.conn data]) dep.conn
          (Session.run rcfg time chunks).session := by
        refine ⟨?_, ?_⟩
        · rw [hmaster, position_snoc]
          exact hplaced.waiting
        · rw [hmaster, position_snoc]
          exact hplaced.following
      have hdelivered' : deliveredOn dep.conn (evs ++ [.delivered dep.conn data]) =
          dep.received ++ [data] := by
        rw [deliveredOn_append, hdelivered]
        simp [deliveredOn, chunkOn]
      rw [List.append_cons] at hsuited ⊢
      have hdeployed := deployed_receive { dep with received := dep.received ++ [data] }
        (h.core.delivered hl data) h.config hdelivered' hplaced' hreads' hsuited.of_append now env
        fate
      rw [hreceive] at hdeployed
      exact hdeployed
    · cases hstep
    · cases hstep
  | refuse =>
    obtain ⟨⟨c', es⟩, hstep, heq⟩ := Option.map_eq_some_iff.mp hs
    cases heq
    simp only [ReplicaClient.step] at hstep
    split at hstep <;> cases hstep
    exact ⟨(h.core.retrying _ _).sameStore rfl, h.config, fun _ _ hstate => by cases hstate⟩
  | hangUp =>
    obtain ⟨⟨c', es⟩, hstep, heq⟩ := Option.map_eq_some_iff.mp hs
    cases heq
    simp only [ReplicaClient.step] at hstep
    split at hstep <;> cases hstep
    exact ⟨(h.core.retrying _ _).sameStore rfl, h.config, fun _ _ hstate => by cases hstate⟩
  | resume =>
    obtain ⟨⟨c', es⟩, hstep, heq⟩ := Option.map_eq_some_iff.mp hs
    cases heq
    simp only [ReplicaClient.step] at hstep
    split at hstep <;> cases hstep
    rw [List.map_nil, List.append_nil]
    exact ⟨h.core, h.config, fun _ _ hstate => by cases hstate⟩
  | stop =>
    cases hs
    rw [List.map_nil, List.append_nil]
    exact ⟨h.core.sameStore rfl, h.config, fun _ _ hstate => by cases hstate⟩

end Moves

/-- **A replica never goes back.** A master starts empty under any memory limit and serves any
schedule of commands without deadlines, with saves, rewrites and other replicas, in which no
append fails. A replica that starts empty and has no memory limit connects to it, loses the
connection, waits and connects again, any number of times and at any moments, in the middle of a
handshake, of a snapshot or of a command. The limits of the replica have room for what the master
sends, and its reads fall apart at the hand-overs of its readers. Then at every moment its
keyspace is the replay of the first of the master's records, and of no fewer of them than at any
moment before.
SOURCE: replication/replica.py:48-227, replication/master.py:66-276, server.py:409-535 -/
theorem replica_never_back {cfg : Config} {replid : Replid} (hrole : cfg.isReplica = false)
    {rcfg : ReplicaConfig} {srv : Server} (hempty : srv.store.entries = Dict.empty)
    (h0 : srv.store.maxmemoryBytes = 0) {t : ℤ} {evs : List DeploymentEvent} {dep : Deployment}
    (hrun : Runs Deployment.step Permitted
      { master := { server := started cfg replid, now := t }
        client := { config := rcfg, server := srv } } evs dep)
    (hsuited : Suited rcfg replid evs) :
    position evs ≤ (executedOf (masterOf evs)).length ∧
    dep.client.server.store.entries =
      replay ((executedOf (masterOf evs)).take (position evs)) Dict.empty ∧
    ∀ front back, evs = front ++ back → position front ≤ position evs := by
  have hstart : Core replid [] { server := started cfg replid, now := t } srv := by
    refine ⟨mirrored_started replid hrole t, @wired_start (started cfg replid) hrole rfl rfl t, ?_,
      fun _ _ => rfl, h0, Nat.zero_le _, hempty, ?_⟩
    · intro c d off cmds hcarried
      cases hcarried
    · intro front back heq
      rw [(List.append_eq_nil_iff.mp heq.symm).1]
  have hinv : Suited rcfg replid evs → Deployed rcfg replid evs dep := by
    refine hrun.invariant
      (I := fun evs dep => Suited rcfg replid evs → Deployed rcfg replid evs dep)
      (fun _ => ⟨hstart, rfl, fun _ _ hstate => by cases hstate⟩) ?_
    exact fun h hok hs hsuited => (h hsuited.of_append).step hok hs hsuited
  have hcore := (hinv hsuited).core
  exact ⟨hcore.bound, hcore.keyspace, hcore.climbs⟩

/-! ## A connection that breaks -/

deriving instance DecidableEq for Event
deriving instance DecidableEq for ClientEvent
deriving instance DecidableEq for DeploymentEvent

/-- `Streamed`, computed. -/
def streams : Action → Bool
  | .elapse _ => true
  | .connect _ => true
  | .disconnect _ => true
  | .command _ argv _ => decide (TtlFree argv)
  | .append fault => decide (fault = .none)
  | .propagate _ => true
  | .expireCycle _ => true
  | .scheduleBgsave => true
  | .bgsaveSnapshot => true
  | .bgsaveWrite _ => true
  | .bgsaveFail => true
  | .rewriteSnapshot => true
  | .rewriteBuild => true
  | .rewriteReplace => true
  | .rewriteFail => true
  | .rewriteLose _ => true
  | .psync _ => true
  | .resyncSend _ => true
  | .resyncTake _ => true
  | .resyncWrite _ => true
  | .resyncFail _ => true
  | .drain _ => true
  | .drainFail _ => true
  | .unregister _ => true

/-- The test on actions says what `Streamed` does. -/
theorem streamed_of_streams (sys : System) {a : Action} (h : streams a = true) :
    Streamed sys a := by
  cases a with
  | command conn argv env =>
    have hfree : TtlFree argv := of_decide_eq_true h
    exact hfree
  | append fault =>
    have hnone : fault = .none := of_decide_eq_true h
    exact hnone
  | _ => trivial

/-- What the run below is allowed: a greeting is the one of a master without a password. -/
def rehearsed (dep : Deployment) : DeploymentMove → Bool
  | .master a => streams a
  | .dial _ greeting => greeting = greetingChunks ∧ greetings dep.client.config = greetings {}
  | .greet _ _ _ => true
  | .deliver _ _ _ _ => true
  | .refuse => true
  | .hangUp => true
  | .resume => true
  | .stop => true

/-- The test on moves says what `Permitted` does. -/
theorem permitted_of_rehearsed (dep : Deployment) (m : DeploymentMove)
    (h : rehearsed dep m = true) : Permitted dep m := by
  cases m with
  | master a => exact streamed_of_streams dep.master h
  | dial conn greeting =>
    obtain ⟨rfl, hconfig⟩ := of_decide_eq_true h
    show Replies (greetings dep.client.config) greetingChunks
    rw [hconfig]
    exact replies_greetingChunks
  | _ => trivial

/-- A master and a replica, with nothing between them yet. -/
def twoServers : Deployment where
  master := { server := started {} default }
  client := { config := {}, server := started {} default }

/-- The encoding of the empty keyspace. -/
def emptySnapshot : Bytes :=
  bulkHeader ((dumpRdbEntries Dict.empty).getD []).length ++ (dumpRdbEntries Dict.empty).getD []

/-- The line `+FULLRESYNC` behind one record. -/
def secondLine : Bytes :=
  simpleLine (MasterReplication.fullresyncLine (default : Replid).text
    (encodeCommand firstSet).length)

/-- The replica connects. -/
def greeted : DeploymentMove := .greet 0 (fun _ => {}) fun _ => []

/-- A chunk arrives. -/
def arriving (data : Bytes) : DeploymentMove := .deliver data 0 (fun _ => {}) fun _ => []

/-- The replica loads an empty snapshot and loses the connection; a key is set; the replica
connects again and loads the snapshot with the key. -/
def reconnecting : List DeploymentMove :=
  [.dial 7 greetingChunks, greeted, greeted, greeted, .master (.psync 7), .master (.resyncSend 7),
    arriving lineChunk, arriving emptySnapshot, .hangUp,
    .master (.command 1 firstSet {}), .master (.append .none), .master (.propagate fun _ => false),
    .resume, .dial 8 greetingChunks, greeted, greeted, greeted, .master (.psync 8),
    .master (.resyncSend 8), arriving secondLine, arriving snapshotChunk]

/-- A replica that loses its connection and makes another. -/
def reconnected : List DeploymentEvent :=
  [.master (.snapshot 7 0 Dict.empty 0), .delivered 7 lineChunk, .delivered 7 emptySnapshot,
    .client 7 (.loaded Dict.empty), .client 7 (.retrying 500), .master (.executed 0 [firstSet]),
    .master (.appended firstSet), .master (.propagated firstSet),
    .master (.replied 1 (simpleLine (ascii "OK"))),
    .master (.snapshot 8 0 singleEntry (encodeCommand firstSet).length), .delivered 8 secondLine,
    .delivered 8 snapshotChunk, .client 8 (.loaded singleEntry)]

/-- One short command fits the limits of the replica. -/
theorem fit_firstSet {off : ℕ} {rdb : Bytes} (hoff : off < 100) (hrdb : rdb.length < 100) :
    Fit {} off rdb [firstSet] := by
  refine ⟨convertible_of_lt_ten (by omega), hrdb.le.trans (by decide), hrdb.le.trans (by decide),
    convertible_of_lt_ten (by omega), ?_, ?_⟩
  · intro c hc
    rw [List.mem_singleton] at hc
    subst hc
    exact ⟨by decide, by decide, by decide, by decide⟩
  · intro c hc
    rw [List.mem_singleton] at hc
    subst hc
    decide +kernel

/-- The reads of the run suit the hand-overs. -/
theorem suited_reconnected : Suited {} default reconnected := by
  intro c t d off hmem
  have hexecuted : executedOf (masterOf reconnected) = [firstSet] := rfl
  rw [hexecuted]
  simp only [masterOf, reconnected, masterEvent, List.filterMap_cons, List.filterMap_nil,
    List.mem_cons, List.not_mem_nil, Event.snapshot.injEq, reduceCtorEq, false_or, or_false] at hmem
  obtain ⟨rfl, -, rfl, rfl⟩ | ⟨rfl, -, rfl, rfl⟩ := hmem
  · refine ⟨(dumpRdbEntries Dict.empty).getD [], by decide +kernel,
      fit_firstSet (by decide) (by decide +kernel), ?_, ?_⟩
    · exact @NotAcross.of_cut _ _ [lineChunk] [emptySnapshot] (by decide +kernel)
    · exact @NotAcross.of_cut _ _ [lineChunk, emptySnapshot] [] (by decide +kernel)
  · refine ⟨singleRdb, by decide +kernel,
      fit_firstSet (by decide +kernel) (by decide +kernel), ?_, ?_⟩
    · exact @NotAcross.of_cut _ _ [secondLine] [snapshotChunk] (by decide +kernel)
    · exact @NotAcross.of_cut _ _ [secondLine, snapshotChunk] [] (by decide +kernel)

/-- The replica has nothing and then the one record. -/
theorem replica_never_back_reconnected :
    ∃ dep, Runs Deployment.step Permitted twoServers reconnected dep ∧
      position (reconnected.take 9) = 0 ∧ position reconnected = 1 ∧
      dep.client.server.store.entries.keys = [ascii "k"] ∧
      position reconnected ≤ (executedOf (masterOf reconnected)).length ∧
      dep.client.server.store.entries =
        replay ((executedOf (masterOf reconnected)).take (position reconnected)) Dict.empty ∧
      ∀ front back, reconnected = front ++ back → position front ≤ position reconnected := by
  obtain ⟨dep, hrun, hkeys⟩ := @exists_runs _ _ _ Deployment.step
    (fun dep m => rehearsed dep m = true) twoServers _ _
    (fun dep => dep.client.server.store.entries.keys) reconnecting reconnected [ascii "k"]
    (by decide +kernel)
  have hrun' := hrun.mono permitted_of_rehearsed
  exact ⟨dep, hrun', rfl, rfl, hkeys, replica_never_back rfl rfl rfl hrun' suited_reconnected⟩

end ByoRedis.Analysis
