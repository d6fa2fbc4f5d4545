import ByoRedis.Analysis.FullResync

/-!
# Connections held for replicas

A master gives a link up when its backlog or its queue is full or a write to it fails. The
link is unregistered, but nobody tells the handler of its connection, which goes on waiting
in `_hold_replica_connection`: the connection stays open and gets no more commands.
`held_connections` says that this is the only way in which an open connection of a replica
falls behind: as long as no link is given up, every connection that is held is registered and
misses nothing.
-/

set_option autoImplicit false

namespace ByoRedis.Analysis

open ByoRedis.Model ByoRedis.Lib ByoRedis.Interface

/-! ## The handlers of the replicas' connections -/

/-- A system, and the connections whose handler is in `full_resync` or in
`_hold_replica_connection`. -/
structure Hosting where
  system : System
  held : List ℕ := []

/-- The held connections after an action: PSYNC takes the handler into `full_resync`, a
resync that raises and the end of the connection take it to its `finally` block. Nothing else
moves it: `unregister` does not.
SOURCE: server.py:328-345, 366-391, replication/master.py:104-124, 200-204 -/
def heldAfter (h : Hosting) : Action → List ℕ
  | .psync conn => h.held ++ [conn]
  | .disconnect conn => h.held.filter (· ≠ conn)
  | .resyncFail conn => h.held.filter (· ≠ conn)
  | .resyncSend conn =>
    match h.system.resyncs.get? conn with
    | some (.encoding entries _) =>
      if (dumpRdbEntries entries).isSome then h.held else h.held.filter (· ≠ conn)
    | _ => h.held
  | _ => h.held

/-- One action of the system, with the handlers. -/
def Hosting.step (h : Hosting) (a : Action) : Option (Hosting × List Event) :=
  (h.system.step a).map fun r => ({ system := r.1, held := heldAfter h a }, r.2)

/-- A step of the host is a step of the master, and the sockets follow it. -/
theorem Hosting.step_eq_some {h h' : Hosting} {a : Action} {es : List Event}
    (hs : h.step a = some (h', es)) :
    h.system.step a = some (h'.system, es) ∧ h'.held = heldAfter h a := by
  obtain ⟨⟨sys', es'⟩, hstep, heq⟩ := Option.map_eq_some_iff.mp hs
  cases heq
  exact ⟨hstep, rfl⟩

/-! ## Registered links stay registered -/

variable {sys sys' : System} {a : Action} {es : List Event} {c : ℕ}

/-- The connection is registered and has its link. -/
def Linked (m : MasterReplication) (c : ℕ) : Prop :=
  c ∈ m.replicas ∧ ∃ l, m.links.get? c = some l

/-- An edit of a link leaves the links linked. -/
theorem Linked.edited {m m' : MasterReplication} {conn : ℕ} {f : ReplicaLink → ReplicaLink}
    (h : Linked m c) (hedit : Edits conn f m m') : Linked m' c := by
  obtain ⟨hin, l, hl⟩ := h
  refine ⟨hedit.replicas ▸ hin, ?_⟩
  by_cases hc : c = conn
  · subst hc
    exact ⟨f l, by rw [hedit.link, hl]; rfl⟩
  · exact ⟨l, by rw [hedit.links c hc, hl]⟩

/-- A further link leaves the links linked. -/
theorem Linked.registerSyncing {m : MasterReplication} (h : Linked m c) (conn : ℕ) :
    Linked (m.registerSyncing conn) c := by
  obtain ⟨hin, l, hl⟩ := h
  constructor
  · show c ∈ if conn ∈ m.replicas then m.replicas else m.replicas ++ [conn]
    split_ifs
    · exact hin
    · exact List.mem_append_left _ hin
  · by_cases hc : c = conn
    · subst hc
      exact ⟨_, Dict.get?_insert_self _ _ _⟩
    · exact ⟨l, (Dict.get?_insert_of_ne _ _ hc).trans hl⟩

/-- A link that is registered is linked. -/
theorem linked_registerSyncing (m : MasterReplication) (conn : ℕ) :
    Linked (m.registerSyncing conn) conn := by
  refine ⟨?_, _, Dict.get?_insert_self _ _ _⟩
  show conn ∈ if conn ∈ m.replicas then m.replicas else m.replicas ++ [conn]
  split_ifs with hin
  · exact hin
  · exact List.mem_append_right _ (List.mem_singleton_self conn)

/-- SOURCE: replication/master.py:104-110 -/
theorem Linked.unregister {m : MasterReplication} (h : Linked m c) {conn : ℕ} (hc : c ≠ conn) :
    Linked (m.unregister conn) c := by
  obtain ⟨hin, l, hl⟩ := h
  have hin' : c ∈ m.replicas.filter (· ≠ conn) := List.mem_filter.mpr ⟨hin, by simpa using hc⟩
  unfold MasterReplication.unregister
  split_ifs
  · split
    · exact ⟨hin', l, hl⟩
    · exact ⟨hin', l, (Dict.get?_insert_of_ne _ _ hc).trans hl⟩
  · exact ⟨hin, l, hl⟩

/-- A record leaves the links linked, also those it gives up. -/
theorem Linked.propagate {m : MasterReplication} (h : Linked m c) (argv : Command)
    (fails : ℕ → Bool) : Linked (m.propagate argv fails).1 c := by
  obtain ⟨hin, l, hl⟩ := h
  refine ⟨by rw [(propagate_frame m argv fails).1]; exact hin, ?_⟩
  rw [get?_propagate, hl]
  exact ⟨_, rfl⟩

/-- A record that every registered link takes makes no link dead.
SOURCE: replication/master.py:218-256 -/
theorem foldl_propagateStep_dead {m : MasterReplication} {payload : Bytes} {offset : ℕ}
    {fails : ℕ → Bool} (ids : List ℕ) (links : Dict ℕ ReplicaLink) (dead : List ℕ)
    (hnodup : ids.Nodup)
    (hall : ∀ c ∈ ids, ∀ l, links.get? c = some l → Accepts m payload (fails c) l) :
    (ids.foldl (m.propagateStep payload offset fails) (links, dead)).2 = dead := by
  induction ids generalizing links with
  | nil => rfl
  | cons i ids ih =>
    rw [List.nodup_cons] at hnodup
    rw [List.foldl_cons]
    cases hl : links.get? i with
    | none =>
      simp only [MasterReplication.propagateStep, hl]
      exact ih links hnodup.2 fun c hc => hall c (List.mem_cons_of_mem i hc)
    | some l =>
      have haccepts := hall i List.mem_cons_self l hl
      simp only [MasterReplication.propagateStep, hl, propagateLink_of_accepts haccepts,
        Bool.false_eq_true, if_false]
      refine ih _ hnodup.2 fun c hc l' hl' => ?_
      have hne : c ≠ i := by
        rintro rfl
        exact hnodup.1 hc
      rw [Dict.get?_insert_of_ne _ _ hne] at hl'
      exact hall c (List.mem_cons_of_mem i hc) l' hl'

/-! ## One action -/

/-- The actions that touch no link. -/
def Unlinking : Action → Prop
  | .elapse _ | .connect _ | .command _ _ _ | .append _ | .expireCycle _ | .scheduleBgsave
  | .bgsaveSnapshot | .bgsaveWrite _ | .bgsaveFail | .rewriteSnapshot | .rewriteBuild
  | .rewriteReplace | .rewriteFail | .rewriteLose _ => True
  | _ => False

/-- A step that is about no link leaves the links and the resyncs as they are. -/
theorem master_of_unlinking (hrole : sys.server.config.isReplica = false) (ha : Unlinking a)
    (h : sys.step a = some (sys', es)) :
    sys'.server.master = sys.server.master ∧
      sys'.server.unregisters = sys.server.unregisters ∧ sys'.resyncs = sys.resyncs := by
  cases stepped_of_step h with
  | command conn argv env sys' es hc =>
    obtain ⟨hname, hstep⟩ := command_cases hrole hc
    cases hstep with
    | answered srv reply hframe => exact ⟨hframe.master hname, hframe.unregisters, rfl⟩
    | accepted d evicted s reply hfree hw heff hlim => exact ⟨rfl, rfl, rfl⟩
  | propagatedLast conn argv reply fails hhold => exact ha.elim
  | propagated conn argv next rest reply fails hhold => exact ha.elim
  | disconnect conn => exact ha.elim
  | psync conn hrole hfree hnew => exact ha.elim
  | resyncSent conn d offset rdb hresync hdump => exact ha.elim
  | resyncUnencodable conn d offset hresync hdump => exact ha.elim
  | resyncTaken conn hresync => exact ha.elim
  | resyncWritten conn batch hbatch hresync => exact ha.elim
  | resyncFailed conn hresync => exact ha.elim
  | drained conn => exact ha.elim
  | drainFailed conn link hlink => exact ha.elim
  | unregistered conn hmem => exact ha.elim
  | _ => exact ⟨rfl, rfl, rfl⟩

/-- No link is scheduled for `unregister`, and every held connection has its link. -/
structure Hosted (h : Hosting) : Prop where
  unregisters : h.system.server.unregisters = []
  linked : ∀ c ∈ h.held, Linked h.system.server.master c

/-- A record that every link takes.
SOURCE: server.py:510-516, replication/master.py:206-256 -/
theorem propagate_of_undisturbed {fails : ℕ → Bool} (hnodup : sys.server.master.replicas.Nodup)
    (halive : AllAlive sys) (hok : Undisturbed sys (.propagate fails))
    (h : sys.step (.propagate fails) = some (sys', es)) :
    (∃ argv, sys'.server.master = (sys.server.master.propagate argv fails).1) ∧
      sys'.server.unregisters = sys.server.unregisters := by
  simp only [System.step, System.propagate] at h
  split at h
  · rename_i conn argv rest reply hhold
    have hall : ∀ c ∈ sys.server.master.replicas, ∀ l, sys.server.master.links.get? c = some l →
        Accepts sys.server.master (encodeCommand argv) (fails c) l := by
      intro c hc l hl
      exact hok argv (by rw [hhold]; rfl) c l ⟨hc, hl, halive c hc l hl⟩
    have hdead : (sys.server.master.propagate argv fails).2 = [] := by
      unfold MasterReplication.propagate
      split_ifs
      · rfl
      · exact foldl_propagateStep_dead _ _ [] hnodup hall
    have hunreg : (sys.server.propagateRecord fails argv).unregisters =
        sys.server.unregisters := by
      show sys.server.unregisters ++ (sys.server.master.propagate argv fails).2 = _
      rw [hdead, List.append_nil]
    cases rest with
    | nil => cases h; exact ⟨⟨argv, rfl⟩, hunreg⟩
    | cons next rest => cases h; exact ⟨⟨argv, rfl⟩, hunreg⟩
  · cases h

section Hosted

variable {h h' : Hosting} {conn : ℕ}

/-- Handlers and links stay as they are. -/
theorem Hosted.untouched (hh : Hosted h) (hheld : h'.held = h.held)
    (hm : h'.system.server.master = h.system.server.master)
    (hu : h'.system.server.unregisters = h.system.server.unregisters) : Hosted h' := by
  refine ⟨hu.trans hh.unregisters, fun c hc => ?_⟩
  rw [hheld] at hc
  rw [hm]
  exact hh.linked c hc

/-- A connection is unregistered and let go. -/
theorem Hosted.released (hh : Hosted h) (hheld : h'.held = h.held.filter (· ≠ conn))
    (hm : h'.system.server.master = h.system.server.master.unregister conn)
    (hu : h'.system.server.unregisters = h.system.server.unregisters) : Hosted h' := by
  refine ⟨hu.trans hh.unregisters, fun c hc => ?_⟩
  rw [hheld, List.mem_filter] at hc
  rw [hm]
  exact (hh.linked c hc.1).unregister (by simpa using hc.2)

/-- The link of a connection is written to or drained. -/
theorem Hosted.edited {f : ReplicaLink → ReplicaLink} (hh : Hosted h) (hheld : h'.held = h.held)
    (hedit : Edits conn f h.system.server.master h'.system.server.master)
    (hu : h'.system.server.unregisters = h.system.server.unregisters) : Hosted h' := by
  refine ⟨hu.trans hh.unregisters, fun c hc => ?_⟩
  rw [hheld] at hc
  exact (hh.linked c hc).edited hedit

/-- SOURCE: server.py:328-331, replication/master.py:65-79 -/
theorem Hosted.psync (hh : Hosted h) (hheld : h'.held = h.held ++ [conn])
    (hstep : h.system.psync conn = some (h'.system, es)) : Hosted h' := by
  unfold System.psync at hstep
  split at hstep
  · split_ifs at hstep
    simp only [Option.some.injEq, Prod.mk.injEq] at hstep
    have hm : h'.system.server.master = h.system.server.master.registerSyncing conn := by
      rw [← hstep.1]
    have hu : h'.system.server.unregisters = h.system.server.unregisters := by
      rw [← hstep.1]
      rfl
    refine ⟨hu.trans hh.unregisters, fun c hc => ?_⟩
    rw [hheld] at hc
    rw [hm]
    rcases List.mem_append.mp hc with hc | hc
    · exact (hh.linked c hc).registerSyncing conn
    · rw [List.mem_singleton.mp hc]
      exact linked_registerSyncing _ conn
  · cases hstep

/-- SOURCE: replication/master.py:152-161, 200-204 -/
theorem Hosted.resyncSend (hh : Hosted h) (hheld : h'.held = heldAfter h (.resyncSend conn))
    (hstep : h.system.resyncSend conn = some (h'.system, es)) : Hosted h' := by
  unfold System.resyncSend at hstep
  split at hstep
  · rename_i d offset hresync
    split at hstep
    · rename_i hdump
      simp only [Option.some.injEq, Prod.mk.injEq] at hstep
      refine hh.released (hheld.trans ?_) (by rw [← hstep.1]; rfl) (by rw [← hstep.1]; rfl)
      simp [heldAfter, hresync, hdump]
    · rename_i rdb hdump
      simp only [Option.some.injEq, Prod.mk.injEq] at hstep
      have hedit := edits_writeLink h.system.server.master conn
        (MasterReplication.fullresyncPayload h.system.server.master.replid.text offset rdb)
      refine hh.edited (hheld.trans ?_) (by rw [← hstep.1]; exact hedit) (by rw [← hstep.1])
      simp [heldAfter, hresync, hdump]
  · cases hstep

end Hosted

/-- **Held connections stay linked** under every action in which no link is given up. -/
theorem Hosted.step {h h' : Hosting} (hh : Hosted h)
    (hrole : h.system.server.config.isReplica = false)
    (hnodup : h.system.server.master.replicas.Nodup) (halive : AllAlive h.system)
    (hok : Undisturbed h.system a) (hs : h.step a = some (h', es)) : Hosted h' := by
  obtain ⟨hstep, hheld⟩ := Hosting.step_eq_some hs
  have huntouched : Unlinking a → heldAfter h a = h.held → Hosted h' := by
    intro ha hsame
    obtain ⟨hm, hu, -⟩ := master_of_unlinking hrole ha hstep
    exact hh.untouched (hheld.trans hsame) hm hu
  cases a with
  | elapse ms => exact huntouched trivial rfl
  | connect conn => exact huntouched trivial rfl
  | command conn argv env => exact huntouched trivial rfl
  | append fault => exact huntouched trivial rfl
  | expireCycle sample => exact huntouched trivial rfl
  | scheduleBgsave => exact huntouched trivial rfl
  | bgsaveSnapshot => exact huntouched trivial rfl
  | bgsaveWrite time => exact huntouched trivial rfl
  | bgsaveFail => exact huntouched trivial rfl
  | rewriteSnapshot => exact huntouched trivial rfl
  | rewriteBuild => exact huntouched trivial rfl
  | rewriteReplace => exact huntouched trivial rfl
  | rewriteFail => exact huntouched trivial rfl
  | rewriteLose replaced => exact huntouched trivial rfl
  | propagate fails =>
    obtain ⟨⟨argv, hm⟩, hu⟩ := propagate_of_undisturbed hnodup halive hok hstep
    refine ⟨hu.trans hh.unregisters, fun c hc => ?_⟩
    rw [hheld] at hc
    rw [hm]
    exact (hh.linked c hc).propagate argv fails
  | disconnect conn =>
    simp only [System.step, Option.some.injEq, Prod.mk.injEq] at hstep
    exact hh.released hheld (by rw [← hstep.1]; rfl) (by rw [← hstep.1]; rfl)
  | psync conn => exact hh.psync hheld hstep
  | resyncSend conn => exact hh.resyncSend hheld hstep
  | resyncTake conn =>
    simp only [System.step, System.resyncTake] at hstep
    split at hstep
    · simp only [Option.some.injEq, Prod.mk.injEq] at hstep
      have hedit := (edits_takeBatch h.system.server.master conn).1
      exact hh.edited hheld (by rw [← hstep.1]; exact hedit) (by rw [← hstep.1])
    · cases hstep
  | resyncWrite conn =>
    simp only [System.step, System.resyncWrite] at hstep
    split at hstep
    · rename_i batch hresync
      split_ifs at hstep
      simp only [Option.some.injEq, Prod.mk.injEq] at hstep
      have hedit := edits_writeLink h.system.server.master conn batch.flatten
      exact hh.edited hheld (by rw [← hstep.1]; exact hedit) (by rw [← hstep.1])
    · cases hstep
  | resyncFail conn =>
    simp only [System.step] at hstep
    split_ifs at hstep
    simp only [Option.some.injEq, Prod.mk.injEq] at hstep
    exact hh.released hheld (by rw [← hstep.1]; rfl) (by rw [← hstep.1]; rfl)
  | drain conn =>
    simp only [System.step, Option.some.injEq, Prod.mk.injEq] at hstep
    have hedit := edits_drainOne h.system.server.master conn
    exact hh.edited hheld (by rw [← hstep.1]; exact hedit) (by rw [← hstep.1]; rfl)
  | drainFail conn => exact absurd hok id
  | unregister conn =>
    -- nothing is scheduled
    simp only [System.step, hh.unregisters, List.not_mem_nil, if_false] at hstep
    cases hstep

/-! ## Whole runs -/

variable {s₀ : System} {evs : List Event}

/-- **A held connection misses nothing as long as no link is given up.** In every state that
a master reaches by any schedule of commands, resyncs and drains in which every propagated
record finds room at every registered link and no transport fails, every connection that is
held for a replica is registered, and what was written to it, followed by what its resync
holds and by its backlog, is its snapshot and every record propagated since.
SOURCE: server.py:328-391, replication/master.py:104-256 -/
theorem held_connections {h : Hosting} (h₀ : Unlinked s₀)
    (hu₀ : s₀.server.unregisters = [])
    (hrun : Runs Hosting.step (fun h => Undisturbed h.system) { system := s₀ } evs h)
    {c : ℕ} (hc : c ∈ h.held) :
    c ∈ h.system.server.master.replicas ∧ c ∉ h.system.server.unregisters ∧
      ∃ l, h.system.server.master.links.get? c = some l ∧ l.alive = true ∧
        ∃ pre t d off post, evs = pre ++ .snapshot c t d off :: post ∧
          ∀ rdb, dumpRdbEntries d = some rdb →
            l.written ++ unsent s₀.server.master.replid.text (h.system.resyncs.get? c) ++
                l.backlog.flatten =
              MasterReplication.fullresyncPayload s₀.server.master.replid.text off rdb ++
                (propagatedOf post).flatMap encodeCommand := by
  have hinv : Replicating s₀ evs h.system ∧ AllAlive h.system ∧ Hosted h := by
    refine hrun.invariant
      (I := fun evs h => Replicating s₀ evs h.system ∧ AllAlive h.system ∧ Hosted h) ?_ ?_
    · refine ⟨replicating_start h₀, fun c hc => ?_, hu₀, fun c hc => ?_⟩
      · rw [h₀.replicas] at hc
        cases hc
      · cases hc
    · rintro evs es h h' a ⟨hrep, halive, hh⟩ hok hs
      have hstep := (Hosting.step_eq_some hs).1
      exact ⟨hrep.step hstep,
        (turn_of_step hrep.role hstep).links.allAlive hrep.nodup hok halive,
        hh.step hrep.role hrep.nodup halive hok hs⟩
  obtain ⟨hrep, halive, hh⟩ := hinv
  obtain ⟨hin, l, hl⟩ := hh.linked c hc
  have hattached : Attached h.system c l := ⟨hin, hl, halive c hin l hl⟩
  obtain ⟨pre, t, d, off, post, hevs, hserved⟩ := hrep.links c l hattached
  have hstream := hserved.stream
  unfold Streams at hstream
  rw [hrep.replid] at hstream
  refine ⟨hin, by rw [hh.unregisters]; exact List.not_mem_nil, l, hl, hattached.alive, pre, t, d,
    off, post, hevs, hstream.bytes⟩

/-- A master whose replicas may be one command behind. -/
def impatient : System := { server := started { replicaPendingMaxCommands := 1 } default }

/-- A replica asks for a resync, and a key is set before its snapshot has been sent. -/
theorem held_connections_backlog :
    ∃ evs h l, Runs Hosting.step (fun h => Undisturbed h.system)
        { system := { server := started {} default } } evs h ∧
      h.held = [7] ∧ propagatedOf evs = [[ascii "SET", ascii "a", ascii "1"]] ∧
      h.system.server.master.links.get? 7 = some l ∧
      l.backlog = [encodeCommand [ascii "SET", ascii "a", ascii "1"]] ∧
      7 ∈ h.system.server.master.replicas := by
  have h₁ := (@Runs.start _ _ _ Hosting.step (fun h => Undisturbed h.system)
    { system := { server := started {} default } }).step (a := Action.connect 7) trivial rfl
  have h₂ := h₁.step (a := Action.psync 7) trivial rfl
  have h₃ := h₂.step (a := Action.command 1 [ascii "SET", ascii "a", ascii "1"] {}) trivial rfl
  have h₄ := h₃.step (a := Action.append .none) trivial rfl
  have h₅ := h₄.step (a := Action.propagate fun _ => false)
    (undisturbed_of_all [ascii "SET", ascii "a", ascii "1"] rfl (by decide +kernel)) rfl
  have hheld := held_connections ⟨rfl, rfl, rfl⟩ rfl h₅ (c := 7) (by decide +kernel)
  exact ⟨_, _, _, h₅, rfl, rfl, rfl, by decide +kernel, hheld.1⟩

/-- After the resync of a replica two keys are set before its queue is drained: the second
command is not sent to it, its link is unregistered, and its connection stays open. -/
theorem held_connections_dropped :
    ∃ evs h l, Runs Hosting.step (fun _ _ => True) { system := impatient } evs h ∧
      propagatedOf evs =
        [[ascii "SET", ascii "a", ascii "1"], [ascii "SET", ascii "b", ascii "2"]] ∧
      h.held = [7] ∧ h.system.server.connections = [7] ∧ h.system.server.unregisters = [] ∧
      h.system.server.master.replicas = [] ∧ h.system.server.master.links.get? 7 = some l ∧
      (h.system.resyncs.get? 7).isNone ∧ l.backlog = [] ∧
      ∃ rdb, dumpRdbEntries Dict.empty = some rdb ∧ l.written =
        MasterReplication.fullresyncPayload (default : Replid).text 0 rdb ++
          encodeCommand [ascii "SET", ascii "a", ascii "1"] := by
  have h₁ := (@Runs.start _ _ _ Hosting.step (fun _ _ => True) { system := impatient }).step
    (a := Action.connect 7) trivial rfl
  have h₂ := h₁.step (a := Action.psync 7) trivial rfl
  have h₃ := h₂.step (a := Action.resyncSend 7) trivial rfl
  have h₄ := h₃.step (a := Action.resyncTake 7) trivial rfl
  have h₅ := h₄.step (a := Action.command 1 [ascii "SET", ascii "a", ascii "1"] {}) trivial rfl
  have h₆ := h₅.step (a := Action.append .none) trivial rfl
  have h₇ := h₆.step (a := Action.propagate fun _ => false) trivial rfl
  have h₈ := h₇.step (a := Action.command 1 [ascii "SET", ascii "b", ascii "2"] {}) trivial rfl
  have h₉ := h₈.step (a := Action.append .none) trivial rfl
  have h₁₀ := h₉.step (a := Action.propagate fun _ => false) trivial rfl
  have h₁₁ := h₁₀.step (a := Action.unregister 7) trivial rfl
  exact ⟨_, _, _, h₁₁, rfl, rfl, rfl, rfl, rfl, rfl, rfl, rfl, _, rfl, rfl⟩

end ByoRedis.Analysis
