import ByoRedis.Lib.Trace
import ByoRedis.Model.AofTasks

/-!
# What a step of the log does to its appends

Besides the append whose own step it is, a step touches appends in two ways only: a place in
the queue wakes one that waits in line, and a failure resolves those that are queued. `Moved`
is that relation on the stage of an append and `Carried` on all of them; `failPending_spec`
says in these terms what `_fail_pending` does.
-/

set_option autoImplicit false

namespace ByoRedis.Analysis

open ByoRedis.Model ByoRedis.Lib

/-- `_writer_task.done()`. -/
def hasEnded : WriterStage → Bool
  | .ended _ => true
  | _ => false

/-- The item the writer has taken. -/
def held : WriterStage → Option AofItem
  | .writing item _ => some item
  | .syncing item _ => some item
  | _ => none

/-- Nobody stands between the checks of `append` and the queue. -/
def noneAdmitted (st : AofTasks) : Bool := st.appends.all fun a => !a.stage.admitted

/-- What happens to an append without a step of its own. -/
inductive Moved : AppendStage → AppendStage → Prop where
  | same (s : AppendStage) : Moved s s
  | woken : Moved .waiting .woken
  | failed (e : Raised) : Moved .queued (.resolved (some e))

/-- Two moves are a move. -/
theorem Moved.trans {s₁ s₂ s₃ : AppendStage} (h₁ : Moved s₁ s₂) (h₂ : Moved s₂ s₃) :
    Moved s₁ s₃ := by
  cases h₁ with
  | same => exact h₂
  | woken =>
    cases h₂
    exact .woken
  | failed e =>
    cases h₂
    exact .failed e

/-- A putter that is woken has moved. -/
theorem moved_wake (s : AppendStage) : Moved s s.wake := by
  cases s with
  | waiting => exact .woken
  | _ => exact .same _

/-- An append that is told of a failure has moved. -/
theorem moved_resolve (e : Raised) (s : AppendStage) : Moved s (s.resolve (some e)) := by
  cases s with
  | queued => exact .failed e
  | _ => exact .same _

/-- A move does not change whether an append is on its way into the queue. -/
theorem Moved.admitted {s s' : AppendStage} (h : Moved s s') : s'.admitted = s.admitted := by
  cases h <;> rfl

/-- Nobody else puts an append into the queue. -/
theorem Moved.queued {s : AppendStage} (h : Moved s .queued) : s = .queued := by
  cases h
  rfl

/-- The appends are the same calls, each moved. -/
structure Carried (l l' : List Append) : Prop where
  length : l'.length = l.length
  moved : ∀ {j : ℕ} {a' : Append}, l'[j]? = some a' →
    ∃ a, l[j]? = some a ∧ a'.argv = a.argv ∧ Moved a.stage a'.stage

variable {l l₁ l₂ : List Append} {st : AofTasks} {id j : ℕ} {a a' : Append}

/-- The appends as they are. -/
theorem Carried.refl (l : List Append) : Carried l l :=
  ⟨rfl, fun h => ⟨_, h, rfl, .same _⟩⟩

/-- Appends are carried through one stretch after another. -/
theorem Carried.trans (h₁ : Carried l l₁) (h₂ : Carried l₁ l₂) : Carried l l₂ := by
  refine ⟨h₂.length.trans h₁.length, ?_⟩
  intro j a₂ hj
  obtain ⟨a₁, hj₁, hargv₁, hmoved₁⟩ := h₂.moved hj
  obtain ⟨a, hj₀, hargv₀, hmoved₀⟩ := h₁.moved hj₁
  exact ⟨a, hj₀, hargv₁.trans hargv₀, hmoved₀.trans hmoved₁⟩

/-- The other direction: no call is lost. -/
theorem Carried.kept (h : Carried l l₁) (hj : l[j]? = some a) :
    ∃ a', l₁[j]? = some a' ∧ a'.argv = a.argv ∧ Moved a.stage a'.stage := by
  have hlt : j < l₁.length := by
    rw [h.length]
    exact (List.getElem?_eq_some_iff.mp hj).1
  obtain ⟨a₀, hj₀, hargv, hmoved⟩ := h.moved (List.getElem?_eq_getElem hlt)
  rw [hj] at hj₀
  cases hj₀
  exact ⟨l₁[j], List.getElem?_eq_getElem hlt, hargv, hmoved⟩

/-! ## One append changes -/

/-- Nobody admitted, by number. -/
theorem noneAdmitted_iff :
    noneAdmitted st = true ↔ ∀ {j : ℕ} {a : Append}, st.appends[j]? = some a →
      a.stage.admitted = false := by
  constructor
  · intro h j a ha
    have := List.all_eq_true.mp h a (List.mem_of_getElem? ha)
    rwa [Bool.not_eq_true'] at this
  · intro h
    apply List.all_eq_true.mpr
    intro a ha
    obtain ⟨j, hj⟩ := List.getElem?_of_mem ha
    rw [h hj]
    rfl

/-- The append that was updated. -/
theorem getElem?_update_self {f : AppendStage → AppendStage} (h : st.appends[id]? = some a) :
    (st.update id f).appends[id]? = some { a with stage := f a.stage } := by
  unfold AofTasks.update
  rw [List.getElem?_modify_eq, h]
  rfl

/-- The other appends. -/
theorem getElem?_update_ne {f : AppendStage → AppendStage} (h : id ≠ j) :
    (st.update id f).appends[j]? = st.appends[j]? := List.getElem?_modify_ne _ _ h

/-- An append after an update is one from before it, with its stage changed or not. -/
theorem of_getElem?_update {f : AppendStage → AppendStage}
    (h : (st.update id f).appends[j]? = some a') :
    ∃ a, st.appends[j]? = some a ∧ a'.argv = a.argv ∧
      (id = j ∧ a'.stage = f a.stage ∨ id ≠ j ∧ a'.stage = a.stage) := by
  by_cases hid : id = j
  · subst hid
    cases ha : st.appends[id]? with
    | none =>
      unfold AofTasks.update at h
      rw [List.getElem?_modify_eq, ha] at h
      cases h
    | some a =>
      rw [getElem?_update_self ha] at h
      cases h
      exact ⟨a, rfl, rfl, Or.inl ⟨rfl, rfl⟩⟩
  · rw [getElem?_update_ne hid] at h
    exact ⟨a', h, rfl, Or.inr ⟨hid, rfl⟩⟩

/-- An update adds no append. -/
theorem length_update {f : AppendStage → AppendStage} :
    (st.update id f).appends.length = st.appends.length := List.length_modify _ _ _

/-- An update by moves carries the appends. -/
theorem carried_update (st : AofTasks) (id : ℕ) {f : AppendStage → AppendStage}
    (hf : ∀ s, Moved s (f s)) : Carried st.appends (st.update id f).appends := by
  refine ⟨length_update, ?_⟩
  intro j a' hj
  obtain ⟨a, ha, hargv, h⟩ := of_getElem?_update hj
  refine ⟨a, ha, hargv, ?_⟩
  rcases h with ⟨-, h⟩ | ⟨-, h⟩
  · rw [h]
    exact hf a.stage
  · rw [h]
    exact .same _

/-- Moves of others put nobody on the way into the queue. -/
theorem noneAdmitted_carried {st' : AofTasks} (hc : Carried st.appends st'.appends)
    (h : noneAdmitted st = true) : noneAdmitted st' = true := by
  apply noneAdmitted_iff.mpr
  intro j a' hj
  obtain ⟨a, ha, -, hmoved⟩ := hc.moved hj
  exact hmoved.admitted.trans (noneAdmitted_iff.mp h ha)

/-- Neither does an update that keeps who is admitted. -/
theorem noneAdmitted_update {f : AppendStage → AppendStage}
    (hf : ∀ s, (f s).admitted = s.admitted) (h : noneAdmitted st = true) :
    noneAdmitted (st.update id f) = true := by
  apply noneAdmitted_iff.mpr
  intro j a' hj
  obtain ⟨a, ha, -, hs⟩ := of_getElem?_update hj
  have hnot := noneAdmitted_iff.mp h ha
  rcases hs with ⟨-, hs⟩ | ⟨-, hs⟩
  · rw [hs, hf]
    exact hnot
  · rw [hs]
    exact hnot

/-- Neither does an outcome. -/
theorem resolve_admitted (raised : Option Raised) (s : AppendStage) :
    (s.resolve raised).admitted = s.admitted := by
  cases s <;> rfl

/-- An append of the longer list is an old one or the new one. -/
theorem of_getElem?_concat {x : Append} (h : (l ++ [x])[j]? = some a) :
    l[j]? = some a ∨ a = x := by
  rcases Nat.lt_or_ge j l.length with hlt | hge
  · rw [List.getElem?_append_left hlt] at h
    exact Or.inl h
  · rw [List.getElem?_append_right hge] at h
    exact Or.inr (List.mem_singleton.mp (List.mem_of_getElem? h))

/-- The stages a new append may start in. -/
inductive Starts (st : AofTasks) : AppendStage → Prop where
  | returned (h : st.handle = .none) : Starts st (.done none)
  | unhealthy (e : Raised) : Starts st (.done (some e))
  | entering (h : st.queues = true) : Starts st .entering
  | direct (h : (st.hasQueue && st.hasWriter) = false) : Starts st (.writing .running)

/-- SOURCE: persistence/aof.py:167-181 -/
theorem startAppend_spec (st : AofTasks) (argv : Command) :
    ∃ s, st.startAppend argv =
        { st with appends := st.appends ++ [{ argv := argv, stage := s }] } ∧ Starts st s := by
  refine ⟨_, rfl, ?_⟩
  by_cases hnone : st.handle = .none
  · rw [if_pos hnone]
    exact .returned hnone
  · rw [if_neg hnone]
    cases hf : st.failure with
    | some text => exact .unhealthy _
    | none =>
      dsimp only
      split_ifs with hq
      · apply Starts.entering
        rw [AofTasks.queues, hf, Bool.and_assoc, hq]
        simpa using hnone
      · exact .direct (Bool.not_eq_true _ ▸ hq)

/-- A producer is woken. -/
theorem wake_spec (st : AofTasks) (w : Option Putter) :
    ∃ l c, st.wake w = { st with appends := l, close := c } ∧ Carried st.appends l ∧
      (c = .finishing → st.close = .finishing) ∧
      ∀ {j : ℕ} {a : Append}, st.appends[j]? = some a → a.stage = .queued →
        ∃ a', l[j]? = some a' ∧ a'.stage = .queued := by
  cases w with
  | none => exact ⟨st.appends, st.close, rfl, Carried.refl _, id, fun hj hs => ⟨_, hj, hs⟩⟩
  | some p =>
    cases p with
    | append id =>
      refine ⟨_, st.close, rfl, carried_update st id moved_wake, fun h => h, ?_⟩
      intro j a hj hs
      by_cases hid : id = j
      · subst hid
        refine ⟨_, getElem?_update_self hj, ?_⟩
        rw [hs]
        rfl
      · exact ⟨a, (getElem?_update_ne hid).trans hj, hs⟩
    | close =>
      refine ⟨st.appends, st.close.wake, rfl, Carried.refl _, ?_, fun hj hs => ⟨_, hj, hs⟩⟩
      intro h
      cases hc : st.close with
      | finishing => rfl
      | _ =>
        rw [hc] at h
        cases h

/-! ## A failure empties the queue -/

/-- What has become of the appends when the loop of `_fail_pending` has run: an append that is
still queued has its item still in the queue, and one without an item there is as it was. -/
structure Drained (st : AofTasks) (q : WaitQueue (Option AofItem) Putter) (l : List Append)
    (c : CloseStage) : Prop where
  carried : Carried st.appends l
  finishing : c = .finishing → st.close = .finishing
  queued : ∀ {j : ℕ} {a' : Append}, l[j]? = some a' → a'.stage = .queued →
    ∀ item, some item ∈ st.queue.items → item.completed = j → some item ∈ q.items
  others : ∀ {j : ℕ} {a : Append}, st.appends[j]? = some a → a.stage = .queued →
    (∀ item, some item ∈ st.queue.items → item.completed ≠ j) →
    ∃ a', l[j]? = some a' ∧ a'.stage = .queued

/-- Nothing has been drained. -/
theorem Drained.refl (st : AofTasks) : Drained st st.queue st.appends st.close :=
  ⟨Carried.refl _, fun h => h, fun _ _ _ hitem _ => hitem, fun hj hs _ => ⟨_, hj, hs⟩⟩

/-- What the loop over the queue leaves: queue, appends and the close call, and nothing else,
are new. -/
theorem failPendingLoop_spec (text : Str) (n : ℕ) (st : AofTasks) :
    ∃ q l c, AofTasks.failPendingLoop text n st =
        { st with queue := q, appends := l, close := c } ∧
      q.items = st.queue.items.drop n ∧ Drained st q l c := by
  induction n generalizing st with
  | zero =>
    exact ⟨st.queue, st.appends, st.close, rfl, rfl, Drained.refl st⟩
  | succ n ih =>
    cases hget : st.queue.getNowait with
    | none =>
      refine ⟨st.queue, st.appends, st.close, ?_, ?_, Drained.refl st⟩
      · simp only [AofTasks.failPendingLoop, hget]
      · rw [WaitQueue.getNowait_eq_none hget, List.drop_nil]
    | some r =>
      obtain ⟨item, w, q₀⟩ := r
      have hitems := WaitQueue.items_of_getNowait hget
      obtain ⟨l₁, c₁, hwake, hcarried₁, hfin₁, hwoken⟩ := wake_spec { st with queue := q₀ } w
      cases item with
      | none =>
        obtain ⟨q, l, c, heq, hdrop, hcarried, hfin, hqueued, hothers⟩ :=
          ih ({ st with queue := q₀ }.wake w)
        rw [hwake] at heq hcarried hfin hqueued hdrop hothers
        refine ⟨q, l, c, ?_, ?_, hcarried₁.trans hcarried, fun h => hfin₁ (hfin h), ?_, ?_⟩
        · simp only [AofTasks.failPendingLoop, hget, hwake]
          exact heq
        · rw [hdrop, hitems, List.drop_succ_cons]
        · intro j a' hj hstage item hitem hid
          rw [hitems] at hitem
          rcases List.mem_cons.mp hitem with h | h
          · cases h
          · exact hqueued hj hstage item h hid
        · intro j a hj hstage hnot
          obtain ⟨a₁, ha₁, hstage₁⟩ := hwoken hj hstage
          apply hothers ha₁ hstage₁
          intro item hitem
          apply hnot item
          rw [hitems]
          exact List.mem_cons_of_mem _ hitem
      | some head =>
        obtain ⟨q, l, c, heq, hdrop, hcarried, hfin, hqueued, hothers⟩ :=
          ih (({ st with queue := q₀ }.wake w).update head.completed
            (.resolve (some (.osError text))))
        rw [hwake] at heq hcarried hfin hqueued hdrop hothers
        have hupdate := carried_update { st with queue := q₀, appends := l₁, close := c₁ }
          head.completed (moved_resolve (.osError text))
        refine ⟨q, l, c, ?_, ?_, hcarried₁.trans (hupdate.trans hcarried),
          fun h => hfin₁ (hfin h), ?_, ?_⟩
        · simp only [AofTasks.failPendingLoop, hget, hwake]
          exact heq
        · rw [hdrop, hitems]
          rfl
        · intro j a' hj hstage item hitem hid
          rw [hitems] at hitem
          rcases List.mem_cons.mp hitem with h | h
          · cases h
            obtain ⟨a₂, ha₂, -, hmoved⟩ := hcarried.moved hj
            rw [hstage] at hmoved
            have hstage₂ := hmoved.queued
            obtain ⟨a₁, -, -, h⟩ := of_getElem?_update ha₂
            rcases h with ⟨-, h⟩ | ⟨hne, -⟩
            · rw [hstage₂] at h
              cases hs : a₁.stage <;> rw [hs] at h <;> cases h
            · exact absurd hid hne
          · exact hqueued hj hstage item h hid
        · intro j a hj hstage hnot
          obtain ⟨a₁, ha₁, hstage₁⟩ := hwoken hj hstage
          have hne : head.completed ≠ j := hnot head (by rw [hitems]; exact List.mem_cons_self)
          apply hothers ((getElem?_update_ne hne).trans ha₁) hstage₁
          intro item hitem
          apply hnot item
          rw [hitems]
          exact List.mem_cons_of_mem _ hitem

/-- **`_fail_pending`** empties the queue and resolves what was in it; it does nothing once
`close` has dropped the queue.
SOURCE: persistence/aof.py:127-136 -/
theorem failPending_spec (st : AofTasks) (text : Str) :
    ∃ q l c, st.failPending text = { st with queue := q, appends := l, close := c } ∧
      (st.hasQueue = true → q.items = []) ∧ Drained st q l c := by
  unfold AofTasks.failPending
  by_cases hq : st.hasQueue = true
  · obtain ⟨q, l, c, heq, hdrop, hdrained⟩ :=
      failPendingLoop_spec text st.queue.items.length st
    rw [if_pos hq]
    refine ⟨q, l, c, heq, ?_, hdrained⟩
    intro _
    rw [hdrop, List.drop_length]
  · rw [if_neg hq]
    exact ⟨st.queue, st.appends, st.close, rfl, fun h => absurd h hq, Drained.refl st⟩

/-! ## Files -/

/-- A write puts the whole record at the end of the file, or nothing.
SOURCE: persistence/aof.py:138-143 -/
theorem writeSync_cases (st : AofTasks) (payload : Bytes) (fault : Option Str) :
    st.writeSync payload fault =
        (none, { st with written := st.written ++ payload, dirty := true }) ∨
      ∃ e, st.writeSync payload fault = (some e, st) ∧
        (e = .valueError → st.handle = .closed) := by
  unfold AofTasks.writeSync
  cases hh : st.handle with
  | none => exact Or.inr ⟨_, rfl, nofun⟩
  | closed => exact Or.inr ⟨_, rfl, fun _ => rfl⟩
  | opened =>
    cases fault with
    | none => exact Or.inl rfl
    | some text => exact Or.inr ⟨_, rfl, nofun⟩

/-- An fsync covers what is written; it is left out when nothing is dirty.
SOURCE: persistence/aof.py:145-151 -/
theorem fsyncSync_cases (st : AofTasks) (fault : Option Str) :
    (st.fsyncSync fault = (none, st) ∧ (st.dirty = false ∨ st.handle = .none)) ∨
      st.fsyncSync fault = (none, { st with synced := st.written.length, dirty := false }) ∨
      ∃ e, st.fsyncSync fault = (some e, st) ∧
        (e = .valueError → st.handle = .closed ∧ st.dirty = true) := by
  unfold AofTasks.fsyncSync
  by_cases hd : st.dirty = true
  · rw [if_pos hd]
    cases hh : st.handle with
    | none => exact Or.inl ⟨rfl, Or.inr rfl⟩
    | closed => exact Or.inr (Or.inr ⟨_, rfl, fun _ => ⟨rfl, hd⟩⟩)
    | opened =>
      cases fault with
      | none => exact Or.inr (Or.inl rfl)
      | some text => exact Or.inr (Or.inr ⟨_, rfl, nofun⟩)
  · rw [if_neg hd]
    exact Or.inl ⟨rfl, Or.inl (Bool.not_eq_true _ ▸ hd)⟩

/-- The log after a rewrite: on the file it had, or on a new one. -/
inductive Rewritten (st : AofTasks) : AofTasks → Prop where
  | kept (h : Handle) (n : ℕ) (hnone : h = .none → st.handle = .none)
      (hn : n = st.synced ∨ n = st.written.length) :
      Rewritten st { st with synced := n, handle := h }
  | replaced (payload : Bytes) (h : Handle) (d : Bool) (hnone : h = .none → st.handle = .none) :
      Rewritten st
        { st with
          base := payload, handle := h, dirty := d, written := [], synced := 0, enqueued := [] }

/-- The fsync of the old file changes how far the file is synced and the handle. -/
theorem syncOld_spec (st : AofTasks) :
    ∃ n h, st.syncOld = { st with synced := n, handle := h } ∧
      (h = .none → st.handle = .none) ∧ (n = st.synced ∨ n = st.written.length) := by
  unfold AofTasks.syncOld
  by_cases ho : st.handle = .opened
  · rw [if_pos ho]
    exact ⟨_, _, rfl, nofun, Or.inr rfl⟩
  · rw [if_neg ho]
    exact ⟨_, _, rfl, id, Or.inl rfl⟩

/-- Opening the new file changes the handle; none appears where there was none. -/
theorem reopen_spec (st : AofTasks) (reopened : Bool) :
    ∃ h, st.reopen reopened = { st with handle := h } ∧ (h = .none → st.handle = .none) := by
  unfold AofTasks.reopen
  cases reopened with
  | true => exact ⟨_, rfl, nofun⟩
  | false => exact ⟨_, rfl, id⟩

/-- Neither touches what the queue and the tasks hold. -/
theorem rewritten_kept (st : AofTasks) (reopened : Bool) :
    Rewritten st (st.syncOld.reopen reopened) := by
  obtain ⟨n, h, hsync, hnone, hn⟩ := syncOld_spec st
  obtain ⟨h', hreopen, hnone'⟩ := reopen_spec st.syncOld reopened
  rw [hsync] at hreopen hnone'
  rw [hsync, hreopen]
  exact .kept h' n (fun hh => hnone (hnone' hh)) hn

/-- **A rewrite** keeps the file or puts a new one in its place, and never leaves the log
without a handle.
SOURCE: persistence/aof.py:196-216 -/
theorem replaceFileSync_spec (st : AofTasks) (payload : Bytes) (outcome : ReplaceOutcome) :
    Rewritten st (st.replaceFileSync payload outcome) := by
  have hsame : Rewritten st st := .kept st.handle st.synced id (Or.inl rfl)
  unfold AofTasks.replaceFileSync
  by_cases hclosed : st.handle = .closed
  · rw [if_pos hclosed]
    exact hsame
  · rw [if_neg hclosed]
    cases outcome with
    | tmpFails => exact hsame
    | syncFails => exact hsame
    | closeFails reopened =>
      dsimp only
      by_cases hopened : st.handle = .opened
      · rw [if_pos hopened]
        exact rewritten_kept st reopened
      · rw [if_neg hopened]
        exact hsame
    | moveFails reopened => exact rewritten_kept st reopened
    | openFails reopened =>
      obtain ⟨n, h, hsync, hnone, -⟩ := syncOld_spec st
      obtain ⟨h', hreopen, hnone'⟩ := reopen_spec (st.syncOld.moved payload) reopened
      dsimp only
      rw [hsync] at hreopen hnone'
      rw [hsync, hreopen]
      exact .replaced payload h' st.dirty (fun hh => hnone (hnone' hh))
    | replaced =>
      obtain ⟨n, h, hsync, hnone, -⟩ := syncOld_spec st
      dsimp only
      rw [hsync]
      exact .replaced payload .opened false nofun

end ByoRedis.Analysis
