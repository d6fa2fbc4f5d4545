import ByoRedis.Model.Master
import ByoRedis.Analysis.RespParsing

/-!
# What `propagate` does to each link

`propagate` walks over the registered links and treats each by itself. A link that accepts
the payload gets it once, in its backlog while it is syncing and in its writer when it is
live; any other link is given up. `get?_propagate` reads the result off link by link.
-/

set_option autoImplicit false

namespace ByoRedis.Analysis

open ByoRedis.Model ByoRedis.Lib

/-- The link takes the payload: it is alive and has room, and a live writer does not fail.
SOURCE: replication/master.py:221-254 -/
def Accepts (m : MasterReplication) (payload : Bytes) (fails : Bool) (l : ReplicaLink) : Prop :=
  l.alive = true ∧
    match l.state with
    | .syncing => l.backlogBytes + payload.length ≤ m.backlogMaxBytes
    | .live => l.pending < m.pendingMaxCommands ∧ fails = false

instance (m : MasterReplication) (payload : Bytes) (fails : Bool) (l : ReplicaLink) :
    Decidable (Accepts m payload fails l) :=
  match h : l.state with
  | .syncing => decidable_of_iff
      (l.alive = true ∧ l.backlogBytes + payload.length ≤ m.backlogMaxBytes) (by simp [Accepts, h])
  | .live => decidable_of_iff
      (l.alive = true ∧ l.pending < m.pendingMaxCommands ∧ fails = false) (by simp [Accepts, h])

/-- What a link has been given so far: written, or queued to be written. -/
def given (l : ReplicaLink) : Bytes × List Bytes := (l.written, l.backlog)

/-- The amount a link has been given. -/
def givenSize (l : ReplicaLink) : ℕ := l.written.length + l.backlog.length

variable {m : MasterReplication} {payload : Bytes} {offset : ℕ} {fails : Bool} {l : ReplicaLink}

/-- An accepted payload: the two ways a link takes it.
SOURCE: replication/master.py:225-247 -/
theorem propagateLink_of_accepts (h : Accepts m payload fails l) :
    m.propagateLink payload offset fails l =
      (match l.state with
        | .syncing => { l with backlog := l.backlog ++ [payload]
                               backlogBytes := l.backlogBytes + payload.length
                               offset := offset }
        | .live => { l with written := l.written ++ payload, offset := offset
                            pending := l.pending + 1 }, false) := by
  obtain ⟨halive, hroom⟩ := h
  unfold MasterReplication.propagateLink
  rw [halive]
  cases hs : l.state with
  | syncing =>
    rw [hs] at hroom
    simp only at hroom
    have hlt : ¬ m.backlogMaxBytes < l.backlogBytes + payload.length := by omega
    simp [hlt]
  | live =>
    rw [hs] at hroom
    obtain ⟨hroom, hok⟩ := hroom
    have hlt : ¬ m.pendingMaxCommands ≤ l.pending := by omega
    simp [hlt, hok]

/-- A refused payload: the link is given up and keeps what it has.
SOURCE: replication/master.py:221-254 -/
theorem propagateLink_of_not_accepts (h : ¬ Accepts m payload fails l) :
    m.propagateLink payload offset fails l = ({ l with alive := false }, true) := by
  unfold MasterReplication.propagateLink
  cases halive : l.alive with
  | false =>
    have hl : { l with alive := false } = l := by rw [← halive]
    simp [hl]
  | true =>
    cases hs : l.state with
    | syncing =>
      have hlt : m.backlogMaxBytes < l.backlogBytes + payload.length := by
        by_contra hno
        exact h ⟨halive, by rw [hs]; simpa using hno⟩
      simp [hlt]
    | live =>
      by_cases hfull : m.pendingMaxCommands ≤ l.pending
      · simp [hfull]
      · cases fails with
        | false =>
          refine absurd ⟨halive, ?_⟩ h
          rw [hs]
          exact ⟨by omega, rfl⟩
        | true => simp [hfull]

/-! ## The loop -/

/-- The links after the loop, one by one: a link is treated as often as it is registered.
SOURCE: replication/master.py:219-254 -/
theorem get?_foldl_propagateStep (m : MasterReplication) (payload : Bytes) (offset : ℕ)
    (fails : ℕ → Bool) (ids : List ℕ) (links : Dict ℕ ReplicaLink) (dead : List ℕ) (c : ℕ) :
    (ids.foldl (m.propagateStep payload offset fails) (links, dead)).1.get? c =
      (links.get? c).map
        ((fun l => (m.propagateLink payload offset (fails c) l).1)^[ids.count c]) := by
  induction ids generalizing links dead with
  | nil => simp
  | cons i ids ih =>
    rw [List.foldl_cons]
    by_cases hi : i = c
    · subst hi
      cases hl : links.get? i with
      | none =>
        have hstep : m.propagateStep payload offset fails (links, dead) i = (links, dead) := by
          simp only [MasterReplication.propagateStep, hl]
        rw [hstep, ih, hl]
        rfl
      | some l =>
        simp only [MasterReplication.propagateStep, hl]
        rw [ih, Dict.get?_insert_self, List.count_cons_self]
        rfl
    · have hget : (m.propagateStep payload offset fails (links, dead) i).1.get? c =
          links.get? c := by
        simp only [MasterReplication.propagateStep]
        cases links.get? i with
        | none => rfl
        | some l => exact Dict.get?_insert_of_ne _ _ (fun h => hi h.symm)
      rcases hp : m.propagateStep payload offset fails (links, dead) i with ⟨links', dead'⟩
      rw [hp] at hget
      rw [ih, hget, List.count_cons_of_ne hi]

/-- **`propagate`, link by link.**
SOURCE: replication/master.py:206-256 -/
theorem get?_propagate (m : MasterReplication) (argv : Command) (fails : ℕ → Bool) (c : ℕ) :
    (m.propagate argv fails).1.links.get? c =
      (m.links.get? c).map
        ((fun l => (m.propagateLink (encodeCommand argv)
          (m.offset + (encodeCommand argv).length) (fails c) l).1)^[m.replicas.count c]) := by
  unfold MasterReplication.propagate
  cases hr : m.replicas with
  | nil => simp
  | cons i ids =>
    simp only [List.isEmpty_cons, Bool.false_eq_true, if_false]
    exact get?_foldl_propagateStep m _ _ fails (i :: ids) m.links [] c

/-- `propagate` keeps the limits, the id and the registered links. -/
theorem propagate_frame (m : MasterReplication) (argv : Command) (fails : ℕ → Bool) :
    (m.propagate argv fails).1.replicas = m.replicas ∧
    (m.propagate argv fails).1.backlogMaxBytes = m.backlogMaxBytes ∧
    (m.propagate argv fails).1.pendingMaxCommands = m.pendingMaxCommands ∧
    (m.propagate argv fails).1.replid = m.replid := by
  unfold MasterReplication.propagate
  cases hr : m.replicas with
  | nil => simp [hr]
  | cons i ids => simp

/-! ## Links only grow -/

/-- A link that takes a payload is given more. -/
theorem givenSize_lt_of_accepts (hp : payload ≠ []) (h : Accepts m payload fails l) :
    givenSize l < givenSize (m.propagateLink payload offset fails l).1 := by
  have hpos := List.length_pos_iff.mpr hp
  rw [propagateLink_of_accepts h]
  cases l.state with
  | syncing => simp [givenSize]
  | live =>
    simp [givenSize]
    omega

/-- A link is never given less. -/
theorem givenSize_le_propagateLink (hp : payload ≠ []) :
    givenSize l ≤ givenSize (m.propagateLink payload offset fails l).1 := by
  by_cases h : Accepts m payload fails l
  · exact (givenSize_lt_of_accepts hp h).le
  · rw [propagateLink_of_not_accepts h]
    rfl

/-- A link is never given less, whatever the number of records. -/
theorem givenSize_le_iterate (hp : payload ≠ []) (n : ℕ) (l : ReplicaLink) :
    givenSize l ≤ givenSize ((fun l => (m.propagateLink payload offset fails l).1)^[n] l) := by
  induction n generalizing l with
  | zero => exact le_refl _
  | succ n ih => exact (givenSize_le_propagateLink hp).trans (ih _)

/-- A dead link stays as it is. -/
theorem iterate_of_dead (hdead : l.alive = false) (n : ℕ) :
    (fun l => (m.propagateLink payload offset fails l).1)^[n] l = l := by
  have hno : ¬ Accepts m payload fails l := by
    intro h
    have halive := h.1
    rw [hdead] at halive
    cases halive
  have hfix : (m.propagateLink payload offset fails l).1 = l := by
    rw [propagateLink_of_not_accepts hno]
    show { l with alive := false } = l
    rw [← hdead]
  exact Function.iterate_fixed hfix n

/-- From `m` to `m'` no link was lost or shortened, and no link that is dead or not
registered was given anything. -/
structure Grows (m m' : MasterReplication) : Prop where
  replicas : m'.replicas = m.replicas
  absent : ∀ c, m.links.get? c = none → m'.links.get? c = none
  present : ∀ c l, m.links.get? c = some l → ∃ l', m'.links.get? c = some l' ∧
    givenSize l ≤ givenSize l' ∧ (c ∉ m.replicas ∨ l.alive = false → l' = l)

/-- Nothing was given. -/
theorem Grows.refl (m : MasterReplication) : Grows m m :=
  ⟨rfl, fun _ h => h, fun _ l h => ⟨l, h, le_refl _, fun _ => rfl⟩⟩

/-- What was given in two steps. -/
theorem Grows.trans {m m' m'' : MasterReplication} (h : Grows m m') (h' : Grows m' m'') :
    Grows m m'' := by
  refine ⟨h'.replicas.trans h.replicas, fun c hc => h'.absent c (h.absent c hc), ?_⟩
  intro c l hc
  obtain ⟨l', hc', hle, hkeep⟩ := h.present c l hc
  obtain ⟨l'', hc'', hle', hkeep'⟩ := h'.present c l' hc'
  refine ⟨l'', hc'', hle.trans hle', ?_⟩
  intro hcond
  have hl := hkeep hcond
  subst hl
  exact hkeep' (by rw [h.replicas]; exact hcond)

/-- SOURCE: replication/master.py:206-256 -/
theorem grows_propagate (m : MasterReplication) (argv : Command) (fails : ℕ → Bool) :
    Grows m (m.propagate argv fails).1 := by
  refine ⟨(propagate_frame m argv fails).1, ?_, ?_⟩
  · intro c hc
    rw [get?_propagate, hc]
    rfl
  · intro c l hc
    rw [get?_propagate, hc]
    refine ⟨_, rfl, givenSize_le_iterate (encodeCommand_ne_nil argv) _ l, ?_⟩
    rintro (hno | hdead)
    · rw [List.count_eq_zero_of_not_mem hno]
      rfl
    · exact iterate_of_dead hdead _

/-- A registered link that accepts the command is given it.
SOURCE: replication/master.py:225-247 -/
theorem propagate_of_accepts {m : MasterReplication} {argv : Command} {fails : ℕ → Bool} {c : ℕ}
    {l : ReplicaLink} (hc : c ∈ m.replicas) (hl : m.links.get? c = some l)
    (ha : Accepts m (encodeCommand argv) (fails c) l) :
    ∃ l', (m.propagate argv fails).1.links.get? c = some l' ∧ givenSize l < givenSize l' := by
  obtain ⟨n, hn⟩ : ∃ n, m.replicas.count c = n + 1 :=
    ⟨m.replicas.count c - 1, by have := List.count_pos_iff.mpr hc; omega⟩
  rw [get?_propagate, hl, hn]
  refine ⟨_, rfl, ?_⟩
  exact (givenSize_lt_of_accepts (encodeCommand_ne_nil argv) ha).trans_le
    (givenSize_le_iterate (encodeCommand_ne_nil argv) n _)

/-- A registered link that does not accept the command is dead and keeps what it has.
SOURCE: replication/master.py:221-254 -/
theorem propagate_of_not_accepts {m : MasterReplication} {argv : Command} {fails : ℕ → Bool}
    {c : ℕ} {l : ReplicaLink} (hc : c ∈ m.replicas) (hl : m.links.get? c = some l)
    (ha : ¬ Accepts m (encodeCommand argv) (fails c) l) :
    (m.propagate argv fails).1.links.get? c = some { l with alive := false } := by
  obtain ⟨n, hn⟩ : ∃ n, m.replicas.count c = n + 1 :=
    ⟨m.replicas.count c - 1, by have := List.count_pos_iff.mpr hc; omega⟩
  rw [get?_propagate, hl, hn]
  simp only [Option.map_some, Function.iterate_succ, Function.comp_apply,
    propagateLink_of_not_accepts ha]
  exact congrArg some (iterate_of_dead rfl n)

end ByoRedis.Analysis
