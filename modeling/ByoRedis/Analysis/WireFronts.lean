import ByoRedis.Analysis.LinkAccounts
import ByoRedis.Analysis.WireReplication

/-!
# What is on the wire of a link that fails

A link can be given up at any time, by a drain or a write that fails, by a limit, by the end of
its resync or of its connection, and its full resync may go on writing to it all the same.
`Wired` says of every link, registered or not, that what was written to it is a front of the
stream it stands for: the snapshot taken for it and the records propagated since. So a replica
that loses its link has missed an end of the stream, and nothing in the middle of it.
-/

set_option autoImplicit false

namespace ByoRedis.Analysis

open ByoRedis.Model ByoRedis.Lib

variable {sys sys' : System} {a : Action} {es evs : List Event} {c : ℕ} {l l' : ReplicaLink}

/-! ## The bytes of a link -/

/-- What was written to a link and what its resync has still to write. -/
def bytesOf (replid : Bytes) (resync : Option Resync) (l : ReplicaLink) : Bytes :=
  match resync with
  | none => l.written
  | some r => l.written ++ unsent replid (some r) ++ l.backlog.flatten

/-- The bytes of link `c` in a state of the system. -/
def linkBytes (sys : System) (c : ℕ) (l : ReplicaLink) : Bytes :=
  bytesOf sys.server.master.replid.text (sys.resyncs.get? c) l

/-- What was written is a front of the bytes of the link. -/
theorem written_linkBytes (sys : System) (c : ℕ) (l : ReplicaLink) :
    l.written <+: linkBytes sys c l := by
  unfold linkBytes bytesOf
  cases sys.resyncs.get? c with
  | none => exact List.prefix_refl _
  | some r =>
    dsimp only
    rw [List.append_assoc]
    exact List.prefix_append _ _

/-- An attached link holds its whole stream. -/
theorem linkBytes_of_streams {d : Entries} {off : ℕ} {sent rdb : Bytes}
    (h : Streams sys c d off sent l) (hdump : dumpRdbEntries d = some rdb) :
    linkBytes sys c l =
      MasterReplication.fullresyncPayload sys.server.master.replid.text off rdb ++ sent := by
  unfold Streams at h
  rw [← h.bytes rdb hdump]
  have hphase := h.phase
  unfold linkBytes bytesOf
  cases hr : sys.resyncs.get? c with
  | none =>
    rw [hr] at hphase
    rw [unsent, hphase.2, List.append_nil, List.flatten_nil, List.append_nil]
  | some r => rfl

/-- Only the bytes and the resync of a link matter. -/
theorem linkBytes_kept (hreplid : sys'.server.master.replid = sys.server.master.replid)
    (hresync : sys'.resyncs.get? c = sys.resyncs.get? c) (hw : l'.written = l.written)
    (hb : l'.backlog = l.backlog) : linkBytes sys' c l' <+: linkBytes sys c l := by
  have hsame : linkBytes sys' c l' = linkBytes sys c l := by
    unfold linkBytes bytesOf
    rw [hreplid, hresync, hw, hb]
  exact ⟨[], by rw [hsame, List.append_nil]⟩

/-- A resync that is over leaves what was written. -/
theorem linkBytes_over (hresync : sys'.resyncs.get? c = none) (hw : l'.written = l.written) :
    linkBytes sys' c l' <+: linkBytes sys c l := by
  have hwritten : linkBytes sys' c l' = l.written := by
    unfold linkBytes bytesOf
    rw [hresync]
    exact hw
  rw [hwritten]
  exact written_linkBytes sys c l

/-! ## One action -/

/-- What an action makes of a link: it is attached; or it was there before, and no byte was
added to those it held. -/
def Trails (sys sys' : System) (c : ℕ) (l' : ReplicaLink) : Prop :=
  Attached sys' c l' ∨
    ∃ l, sys.server.master.links.get? c = some l ∧ linkBytes sys' c l' <+: linkBytes sys c l

/-- A link that is edited. -/
theorem trails_of_edits {conn : ℕ} {f : ReplicaLink → ReplicaLink}
    (hedit : Edits conn f sys.server.master sys'.server.master)
    (hresyncs : ∀ c, c ≠ conn → sys'.resyncs.get? c = sys.resyncs.get? c)
    (hf : ∀ l, sys.server.master.links.get? conn = some l →
      linkBytes sys' conn (f l) <+: linkBytes sys conn l)
    (hl' : sys'.server.master.links.get? c = some l') : Trails sys sys' c l' := by
  by_cases hc : c = conn
  · subst hc
    rw [hedit.link] at hl'
    obtain ⟨l, hl, rfl⟩ := Option.map_eq_some_iff.mp hl'
    exact Or.inr ⟨l, hl, hf l hl⟩
  · rw [hedit.links c hc] at hl'
    exact Or.inr ⟨l', hl', linkBytes_kept hedit.replid (hresyncs c hc) rfl rfl⟩

/-- A link that is unregistered, its resync going on or over.
SOURCE: replication/master.py:104-124 -/
theorem trails_of_unregister {conn : ℕ}
    (hmaster : sys'.server.master = sys.server.master.unregister conn)
    (hresyncs : ∀ c, sys'.resyncs.get? c = sys.resyncs.get? c ∨
      c = conn ∧ sys'.resyncs.get? c = none)
    (hl' : sys'.server.master.links.get? c = some l') : Trails sys sys' c l' := by
  obtain ⟨helse, -⟩ := elsewhere_unregister sys.server.master conn
  rw [← hmaster] at helse
  have hkept : ∃ l, sys.server.master.links.get? c = some l ∧ l'.written = l.written ∧
      l'.backlog = l.backlog := by
    by_cases hc : c = conn
    · subst hc
      rw [hmaster] at hl'
      unfold MasterReplication.unregister at hl'
      split_ifs at hl' with hin
      · cases hl : sys.server.master.links.get? c with
        | none =>
          simp only [hl] at hl'
          cases hl'
        | some l =>
          simp only [hl] at hl'
          cases (Dict.get?_insert_self _ _ _).symm.trans hl'
          exact ⟨l, rfl, rfl, rfl⟩
      · exact ⟨l', hl', rfl, rfl⟩
    · exact ⟨l', (helse.links c hc).symm.trans hl', rfl, rfl⟩
  obtain ⟨l, hl, hw, hb⟩ := hkept
  obtain hsame | ⟨-, hover⟩ := hresyncs c
  · exact Or.inr ⟨l, hl, linkBytes_kept helse.replid hsame hw hb⟩
  · exact Or.inr ⟨l, hl, linkBytes_over hover hw⟩

/-- A record goes to a link that takes it, and another link gives up.
SOURCE: replication/master.py:206-256 -/
theorem trails_of_propagate {argv : Command} {fails : ℕ → Bool}
    (hnodup : sys.server.master.replicas.Nodup)
    (hmaster : sys'.server.master = (sys.server.master.propagate argv fails).1)
    (hresyncs : sys'.resyncs = sys.resyncs)
    (hl' : sys'.server.master.links.get? c = some l') : Trails sys sys' c l' := by
  obtain ⟨hreplicas, -, -, hreplid⟩ := propagate_frame sys.server.master argv fails
  have hreplid' : sys'.server.master.replid = sys.server.master.replid := by
    rw [hmaster, hreplid]
  have hlink := hl'
  rw [hmaster, get?_propagate] at hlink
  obtain ⟨l, hl, hstep⟩ := Option.map_eq_some_iff.mp hlink
  by_cases hin : c ∈ sys.server.master.replicas
  · rw [List.count_eq_one_of_mem hnodup hin, Function.iterate_one] at hstep
    by_cases haccepts : Accepts sys.server.master (encodeCommand argv) (fails c) l
    · refine Or.inl ⟨by rw [hmaster, hreplicas]; exact hin, hl', ?_⟩
      rw [← hstep, propagateLink_of_accepts haccepts]
      cases l.state with
      | syncing => exact haccepts.1
      | live => exact haccepts.1
    · rw [propagateLink_of_not_accepts haccepts] at hstep
      subst hstep
      exact Or.inr ⟨l, hl, linkBytes_kept hreplid' (by rw [hresyncs]) rfl rfl⟩
  · rw [List.count_eq_zero_of_not_mem hin, Function.iterate_zero, id] at hstep
    subst hstep
    exact Or.inr ⟨l, hl, linkBytes_kept hreplid' (by rw [hresyncs]) rfl rfl⟩

/-- The locked part of a turn of the flush loop moves bytes from the backlog to the batch.
SOURCE: replication/master.py:166-178 -/
theorem linkBytes_taken {conn : ℕ} (hresync : sys.resyncs.get? conn = some (.flushing []))
    (hl : sys.server.master.links.get? conn = some l)
    (hreplid : sys'.server.master.replid = sys.server.master.replid)
    (hresyncs : sys'.resyncs = if (sys.server.master.takeBatch conn).1.isEmpty
      then sys.resyncs.erase conn
      else sys.resyncs.insert conn (.flushing (sys.server.master.takeBatch conn).1)) :
    linkBytes sys' conn (takenFrom sys.server.master.offset l) <+: linkBytes sys conn l := by
  rw [(edits_takeBatch sys.server.master conn).2 l hl] at hresyncs
  unfold linkBytes bytesOf takenFrom
  rw [hresync, hresyncs, hreplid]
  split_ifs with hempty
  · rw [Dict.get?_erase_self, List.isEmpty_iff.mp hempty]
    simp [unsent]
  · rw [Dict.get?_insert_self]
    simp [unsent]

/-- **No action adds to a link that is not attached.** -/
theorem trails_of_step (hrole : sys.server.config.isReplica = false)
    (hnodup : sys.server.master.replicas.Nodup) (h : sys.step a = some (sys', es))
    (hl' : sys'.server.master.links.get? c = some l') : Trails sys sys' c l' := by
  have hunlinking : Unlinking a → Trails sys sys' c l' := by
    intro ha
    obtain ⟨hmaster, -, hresyncs⟩ := master_of_unlinking hrole ha h
    rw [hmaster] at hl'
    exact Or.inr ⟨l', hl', linkBytes_kept (by rw [hmaster]) (by rw [hresyncs]) rfl rfl⟩
  have herased : ∀ {conn : ℕ}, sys'.resyncs = sys.resyncs.erase conn → ∀ c,
      sys'.resyncs.get? c = sys.resyncs.get? c ∨ c = conn ∧ sys'.resyncs.get? c = none := by
    intro conn hresyncs c
    rw [hresyncs]
    by_cases hc : c = conn
    · subst hc
      exact Or.inr ⟨rfl, Dict.get?_erase_self _ _⟩
    · exact Or.inl (Dict.get?_erase_of_ne _ hc)
  cases stepped_of_step h with
  | propagatedLast conn argv reply fails hhold => exact trails_of_propagate hnodup rfl rfl hl'
  | propagated conn argv next rest reply fails hhold =>
    exact trails_of_propagate hnodup rfl rfl hl'
  | disconnect conn => exact trails_of_unregister rfl (herased rfl) hl'
  | psync conn hmaster hfree hnew =>
    by_cases hc : c = conn
    · subst hc
      cases (Dict.get?_insert_self _ _ _).symm.trans hl'
      exact Or.inl ⟨(linked_registerSyncing _ c).1, hl', rfl⟩
    · have hsame := (elsewhere_registerSyncing sys.server.master conn).links c hc
      refine Or.inr ⟨l', hsame.symm.trans hl', linkBytes_kept rfl ?_ rfl rfl⟩
      exact Dict.get?_insert_of_ne _ _ hc
  | resyncSent conn d offset rdb hresync hdump =>
    refine trails_of_edits (edits_writeLink _ conn _)
      (fun c hc => Dict.get?_insert_of_ne _ _ hc) (fun l hl => ?_) hl'
    unfold linkBytes bytesOf
    rw [hresync, Dict.get?_insert_self, (edits_writeLink _ conn _).replid]
    simp [unsent, hdump]
  | resyncUnencodable conn d offset hresync hdump =>
    exact trails_of_unregister rfl (herased rfl) hl'
  | resyncTaken conn hresync =>
    have hedit := (edits_takeBatch sys.server.master conn).1
    refine trails_of_edits hedit ?_ (fun l hl => ?_) hl'
    · intro c hc
      dsimp only
      split_ifs
      · exact Dict.get?_erase_of_ne _ hc
      · exact Dict.get?_insert_of_ne _ _ hc
    · exact linkBytes_taken hresync hl hedit.replid rfl
  | resyncWritten conn batch hbatch hresync =>
    refine trails_of_edits (edits_writeLink _ conn _)
      (fun c hc => Dict.get?_insert_of_ne _ _ hc) (fun l hl => ?_) hl'
    unfold linkBytes bytesOf
    rw [hresync, Dict.get?_insert_self]
    simp [unsent]
  | resyncFailed conn hresync => exact trails_of_unregister rfl (herased rfl) hl'
  | drained conn =>
    have hedit := edits_drainOne sys.server.master conn
    refine trails_of_edits hedit (fun _ _ => rfl) (fun l _ => ?_) hl'
    exact linkBytes_kept hedit.replid rfl rfl rfl
  | drainFailed conn l hl =>
    exact trails_of_edits (edits_setLink (f := fun l => { l with alive := false }) hl)
      (fun _ _ => rfl) (fun l _ => linkBytes_kept rfl rfl rfl rfl) hl'
  | unregistered conn hmem => exact trails_of_unregister rfl (fun _ => Or.inl rfl) hl'
  | _ => exact hunlinking trivial

/-! ## Runs -/

/-- A link with the snapshot taken for it and the records propagated since: it holds a front of
their stream, and the whole of it while it is attached. -/
structure Wire (evs : List Event) (sys : System) (c : ℕ) (l : ReplicaLink) (d : Entries)
    (off : ℕ) (cmds : List Command) : Prop where
  events : carried c evs = some (d, off, cmds)
  stream : Attached sys c l → Streams sys c d off (cmds.flatMap encodeCommand) l
  front : ∀ rdb, dumpRdbEntries d = some rdb → linkBytes sys c l <+:
    MasterReplication.fullresyncPayload sys.server.master.replid.text off rdb ++
      cmds.flatMap encodeCommand

/-- The invariant of a master and its links. -/
structure Wired (replid : Replid) (evs : List Event) (sys : System) : Prop where
  role : sys.server.config.isReplica = false
  replid : sys.server.master.replid = replid
  nodup : sys.server.master.replicas.Nodup
  links : ∀ c l, sys.server.master.links.get? c = some l →
    ∃ d off cmds, Wire evs sys c l d off cmds

variable {replid : Replid}

/-- A link that was there before.
SOURCE: replication/master.py:104-276 -/
theorem Wire.step {d : Entries} {off : ℕ} {cmds : List Command} (h : Wire evs sys c l d off cmds)
    (hl : sys.server.master.links.get? c = some l) (hs : sys.step a = some (sys', es))
    (hturn : Turn sys a es sys') (hnodup : sys.server.master.replicas.Nodup)
    (htrails : Trails sys sys' c l') :
    Wire (evs ++ es) sys' c l' d off (cmds ++ propagatedOf es) := by
  have hno : ∀ t d off, .snapshot c t d off ∉ es := by
    intro t d' off' hmem
    have hnew := (snapshot_of_step hs hmem).new
    rw [hl] at hnew
    cases hnew
  have hstream : Attached sys' c l' →
      Streams sys' c d off ((cmds ++ propagatedOf es).flatMap encodeCommand) l' := by
    intro ha
    cases hturn.links.followed hnodup ha with
    | fresh hfree hes hstream => exact absurd (hes ▸ List.mem_singleton_self _) (hno _ _ _)
    | carried l₀ hl₀ hstream =>
      cases hl.symm.trans hl₀.link
      rw [List.flatMap_append]
      exact hstream d off _ (h.stream hl₀)
  refine ⟨carried_append h.events hno, hstream, ?_⟩
  intro rdb hdump
  obtain ha | ⟨l₀, hl₀, hfront⟩ := htrails
  · exact ⟨[], by rw [linkBytes_of_streams (hstream ha) hdump, List.append_nil]⟩
  · cases hl.symm.trans hl₀
    refine hfront.trans ((h.front rdb hdump).trans ?_)
    rw [hturn.links.frame.1, List.flatMap_append, ← List.append_assoc]
    exact List.prefix_append _ _

/-- **Every action keeps the invariant**, whatever fails. -/
theorem Wired.step (h : Wired replid evs sys) (hs : sys.step a = some (sys', es)) :
    Wired replid (evs ++ es) sys' := by
  have hturn := turn_of_step h.role hs
  obtain ⟨hreplid, hnodup⟩ := hturn.links.frame
  refine ⟨by rw [hturn.config]; exact h.role, hreplid.trans h.replid, hnodup h.nodup, ?_⟩
  intro c l' hl'
  have htrails := trails_of_step h.role h.nodup hs hl'
  cases hl : sys.server.master.links.get? c with
  | some l =>
    obtain ⟨d, off, cmds, hwire⟩ := h.links c l hl
    exact ⟨d, off, _, hwire.step hl hs hturn h.nodup htrails⟩
  | none =>
    -- a link that is new is attached, and its snapshot has just been taken
    obtain ha | ⟨l₀, hl₀, -⟩ := htrails
    · cases hturn.links.followed h.nodup ha with
      | fresh hfree hes hstream =>
        refine ⟨_, _, [], ?_, fun _ => hstream, fun rdb hdump => ?_⟩
        · rw [hes, carried, List.foldl_append]
          exact if_pos rfl
        · have hsame := linkBytes_of_streams hstream hdump
          rw [hsame]
          exact List.prefix_refl _
      | carried l₀ hl₀ hstream => cases hl.symm.trans hl₀.link
    · rw [hl] at hl₀
      cases hl₀

/-- A master without links is wired. -/
theorem wired_start {srv : Server} (hrole : srv.config.isReplica = false)
    (hlinks : srv.master.links = Dict.empty) (hreplicas : srv.master.replicas = []) (t : ℤ) :
    Wired srv.master.replid [] { server := srv, now := t } := by
  refine ⟨hrole, rfl, by rw [hreplicas]; exact List.nodup_nil, ?_⟩
  intro c l hl
  rw [hlinks] at hl
  cases hl

/-- **What is on the wire has no gaps.** In every run of a master, under every schedule and
whichever appends, writes, drains and resyncs fail and links are given up, what was ever written
to a link, attached or not, is a front of the snapshot taken for it and the records propagated
since, in order, and an attached link whose resync is over has the whole of it.
SOURCE: replication/master.py:66-276, server.py:328-345, 503-535 -/
theorem wire_fronts {srv : Server} (hrole : srv.config.isReplica = false)
    (hlinks : srv.master.links = Dict.empty) (hreplicas : srv.master.replicas = []) {t : ℤ}
    (hrun : Runs System.step (fun _ _ => True) { server := srv, now := t } evs sys)
    (hl : sys.server.master.links.get? c = some l) :
    ∃ d off cmds, carried c evs = some (d, off, cmds) ∧
      ∀ rdb, dumpRdbEntries d = some rdb →
        (l.written <+: MasterReplication.fullresyncPayload srv.master.replid.text off rdb ++
          cmds.flatMap encodeCommand) ∧
        (Attached sys c l → sys.resyncs.get? c = none → l.written =
          MasterReplication.fullresyncPayload srv.master.replid.text off rdb ++
            cmds.flatMap encodeCommand) := by
  have hinv : Wired srv.master.replid evs sys :=
    hrun.invariant (wired_start hrole hlinks hreplicas t) fun h _ hs => h.step hs
  obtain ⟨d, off, cmds, hwire⟩ := hinv.links c l hl
  refine ⟨d, off, cmds, hwire.events, fun rdb hdump => ⟨?_, ?_⟩⟩
  · rw [← hinv.replid]
    exact (written_linkBytes sys c l).trans (hwire.front rdb hdump)
  · intro ha hdone
    have hbytes := linkBytes_of_streams (hwire.stream ha) hdump
    rw [hinv.replid] at hbytes
    rw [← hbytes]
    unfold linkBytes bytesOf
    rw [hdone]

/-- A master whose syncing replicas may be one kilobyte behind. -/
def shortBacklog : Config := { replicaBacklogMaxBytes := 1024 }

/-- A string of one kilobyte, whose record is longer. -/
def kilobyteSet : Command := [ascii "SET", ascii "k", List.replicate 1024 97]

/-- The backlog of a replica overflows during its resync: the record from before is written to
it, the one that was too much is not, and the link is given up. -/
theorem wire_fronts_given_up :
    shortBacklog.accepted = true ∧
    ∃ evs sys l, Runs System.step (fun _ _ => True) { server := started shortBacklog default }
        evs sys ∧
      sys.server.master.links.get? 7 = some l ∧ l.alive = false ∧
      sys.server.master.replicas = [] ∧ propagatedOf evs = [firstSet, kilobyteSet] ∧
      encodeCommand firstSet <:+ l.written ∧
      ∃ d off cmds, carried 7 evs = some (d, off, cmds) ∧ ∀ rdb, dumpRdbEntries d = some rdb →
        (l.written <+: MasterReplication.fullresyncPayload
            (started shortBacklog default).master.replid.text off rdb ++
              cmds.flatMap encodeCommand) ∧
        (Attached sys 7 l → sys.resyncs.get? 7 = none → l.written =
          MasterReplication.fullresyncPayload
            (started shortBacklog default).master.replid.text off rdb ++
              cmds.flatMap encodeCommand) := by
  have hend : (runAll System.step (fun _ _ => True)
      [.psync 7, .resyncSend 7, .command 1 firstSet {}, .append .none,
        .propagate fun _ => false, .command 1 kilobyteSet {}, .append .none,
        .propagate fun _ => false, .unregister 7, .resyncTake 7, .resyncWrite 7]
      { server := started shortBacklog default }).map (fun q =>
        (propagatedOf q.1, q.2.server.master.replicas,
          (q.2.server.master.links.get? 7).map fun l =>
            (l.alive, decide (encodeCommand firstSet <:+ l.written)))) =
      some ([firstSet, kilobyteSet], [], some (false, true)) := by
    decide +kernel
  obtain ⟨⟨evs, sys⟩, hrun, hview⟩ := Option.map_eq_some_iff.mp hend
  simp only [Prod.mk.injEq, Option.map_eq_some_iff] at hview
  obtain ⟨hevs, hreplicas, l, hl, halive, hwritten⟩ := hview
  have h := runs_of_runAll hrun .start
  exact ⟨by decide, evs, sys, l, h, hl, halive, hreplicas, hevs, of_decide_eq_true hwritten,
    wire_fronts rfl rfl rfl h hl⟩

end ByoRedis.Analysis
