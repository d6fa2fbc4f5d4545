import ByoRedis.Analysis.AppendSteps

/-!
# Appends that nobody completes

An append at `await completed` is in the queue or in the hands of the writer (`Awaited`), and
the writer ends only with nobody left to serve. The code keeps the first part in every run and
the second one only where `orderly` holds: an append that stands before its put when the
writer fails or leaves, or that comes later without seeing a failure, is queued behind a
writer that has ended. `appends_complete` says that nothing else goes wrong.
-/

set_option autoImplicit false

namespace ByoRedis.Analysis

open ByoRedis.Model ByoRedis.Lib

/-! ## The property -/

/-- An append that has a step of its own to take. -/
def Runnable (st : AofTasks) (id : ℕ) : Prop :=
  ∃ e, (st.step (.append id e)).isSome = true

/-- An append that has returned or raised. -/
def Completed (a : Append) : Prop := ∃ raised, a.stage = .done raised

/-- The condition on a step. An append that would queue does not start once the writer has
ended; the writer takes the sentinel of `close`, or fails, only when nobody is admitted, and
the sentinel only with nobody behind it; it does not touch a file that is closed. -/
def orderly (st : AofTasks) : AofAction → Bool
  | .start _ => !(hasEnded st.writer && st.queues)
  | .writer .get =>
    match st.queue.items with
    | none :: rest => rest.all Option.isNone && noneAdmitted st
    | _ => true
  | .writer (.thread _) =>
    match st.writer with
    | .syncing _ _ => !(st.handle = .closed && st.dirty)
    | _ => st.handle ≠ .closed
  | .writer .resume =>
    match st.writer with
    | .writing _ (.ended (some (.osError _))) => noneAdmitted st
    | .syncing _ (.ended (some (.osError _))) => noneAdmitted st
    | _ => true
  | _ => true

/-! ## Nobody waits in vain -/

/-- Every append at `await completed` has its item in the queue or with the writer, and once
the writer has ended nobody is there or on the way. -/
structure Awaited (l : List Append) (items : List (Option AofItem)) (w : WriterStage) : Prop where
  queued : ∀ {j : ℕ} {a : Append}, l[j]? = some a → a.stage = .queued →
    ∃ item : AofItem, item.completed = j ∧ (some item ∈ items ∨ held w = some item)
  ended : hasEnded w = true → ∀ {j : ℕ} {a : Append}, l[j]? = some a →
    a.stage ≠ .queued ∧ a.stage.admitted = false

/-- The invariant of an orderly run. -/
structure Attended (st : AofTasks) : Prop where
  served : Awaited st.appends st.queue.items st.writer
  raised : ∀ item, st.writer ≠ .writing item (.ended (some .valueError)) ∧
    st.writer ≠ .syncing item (.ended (some .valueError))
  finishing : st.close = .finishing → hasEnded st.writer = true
  queue : st.hasQueue = true ∨ hasEnded st.writer = true

variable {l l' : List Append} {items : List (Option AofItem)} {w w' : WriterStage}
  {st st' : AofTasks} {acked es : List ℕ} {id : ℕ} {a : Append}

/-- What is awaited stays so when the calls move on. -/
theorem Awaited.carried (h : Awaited l items w) (hc : Carried l l') : Awaited l' items w := by
  refine ⟨?_, ?_⟩
  · intro j a' hj hstage
    obtain ⟨a, ha, -, hmoved⟩ := hc.moved hj
    rw [hstage] at hmoved
    exact h.queued ha hmoved.queued
  · intro hend j a' hj
    obtain ⟨a, ha, -, hmoved⟩ := hc.moved hj
    obtain ⟨hqueued, hadmitted⟩ := h.ended hend ha
    refine ⟨?_, hmoved.admitted.trans hadmitted⟩
    intro hstage
    rw [hstage] at hmoved
    exact hqueued hmoved.queued

/-- The writer goes on with what it holds. -/
theorem Awaited.writer (h : Awaited l items w) (hheld : held w' = held w)
    (hend : hasEnded w' = hasEnded w) : Awaited l items w' := by
  refine ⟨?_, ?_⟩
  · intro j a hj hstage
    rw [hheld]
    exact h.queued hj hstage
  · intro he
    rw [hend] at he
    exact h.ended he

/-- One more record in the queue. -/
theorem Awaited.put (h : Awaited l items w) (x : Option AofItem) :
    Awaited l (items ++ [x]) w := by
  refine ⟨?_, h.ended⟩
  intro j a hj hstage
  obtain ⟨item, hid, hitem⟩ := h.queued hj hstage
  refine ⟨item, hid, ?_⟩
  rcases hitem with hitem | hitem
  · exact Or.inl (List.mem_append_left _ hitem)
  · exact Or.inr hitem

/-- An append takes a step of its own that does not lead to `await completed`. -/
theorem Awaited.update {f : AppendStage → AppendStage} (h : Awaited st.appends items w)
    (hqueued : ∀ s, f s = .queued → s = .queued)
    (hadmitted : hasEnded w = true → ∀ s, (f s).admitted = true → s.admitted = true) :
    Awaited (st.update id f).appends items w := by
  refine ⟨?_, ?_⟩
  · intro j a' hj hstage
    obtain ⟨a, ha, -, hs⟩ := of_getElem?_update hj
    apply h.queued ha
    rcases hs with ⟨-, hs⟩ | ⟨-, hs⟩
    · exact hqueued a.stage (hs.symm.trans hstage)
    · exact hs.symm.trans hstage
  · intro hend j a' hj
    obtain ⟨a, ha, -, hs⟩ := of_getElem?_update hj
    obtain ⟨hq, had⟩ := h.ended hend ha
    rcases hs with ⟨-, hs⟩ | ⟨-, hs⟩
    · rw [hs]
      refine ⟨fun hf => hq (hqueued _ hf), ?_⟩
      by_contra hf
      rw [hadmitted hend a.stage (Bool.not_eq_false _ ▸ hf)] at had
      cases had
    · rw [hs]
      exact ⟨hq, had⟩

/-- An append ends, or leaves for the route without a writer. -/
theorem Awaited.leave {s : AppendStage} (h : Awaited st.appends items w) (hs : s ≠ .queued)
    (had : s.admitted = false) : Awaited (st.update id fun _ => s).appends items w := by
  refine h.update (fun _ hq => absurd hq hs) ?_
  intro _ _ hadmitted
  rw [had] at hadmitted
  cases hadmitted

/-! ## Steps of an append -/

/-- A call that leaves keeps the others attended. -/
theorem Attended.leave {s : AppendStage} (h : Attended st) (hs : s ≠ .queued)
    (had : s.admitted = false) : Attended (st.update id fun _ => s) :=
  ⟨h.served.leave hs had, h.raised, h.finishing, h.queue⟩

/-- What is in the file makes no difference. -/
theorem Attended.file (h : Attended st) (written : Bytes) (dirty : Bool) (synced : ℕ) :
    Attended { st with written := written, dirty := dirty, synced := synced } :=
  ⟨h.served, h.raised, h.finishing, h.queue⟩

/-- A putter that wakes keeps the calls attended. -/
theorem Attended.wake (h : Attended st) (p : Option Putter) : Attended (st.wake p) := by
  obtain ⟨l, c, heq, hcarried, hfin, -⟩ := wake_spec st p
  rw [heq]
  exact ⟨h.served.carried hcarried, h.raised, fun hc => h.finishing (hfin hc), h.queue⟩

/-- An admitted append is there only while the writer is. -/
theorem Attended.alive (h : Attended st) (ha : st.appends[id]? = some a)
    (had : a.stage.admitted = true) : hasEnded st.writer = false := by
  by_contra hend
  have := (h.served.ended (Bool.not_eq_false _ ▸ hend) ha).2
  rw [had] at this
  cases this

/-- SOURCE: persistence/aof.py:179-186 -/
theorem Attended.putItem (h : Attended st) (ha : st.appends[id]? = some a)
    (had : a.stage.admitted = true) : Attended (st.putItem id a.argv) := by
  have halive := h.alive ha had
  unfold AofTasks.putItem
  split_ifs with hfull
  · refine ⟨?_, h.raised, h.finishing, h.queue⟩
    refine Awaited.update ?_ ?_ ?_
    · exact h.served
    · intro s hs
      cases hs
    · intro hend
      exact absurd (halive.symm.trans hend) Bool.false_ne_true
  · refine ⟨⟨?_, ?_⟩, h.raised, h.finishing, h.queue⟩
    · intro j a' hj hstage
      obtain ⟨a₀, ha₀, -, hs⟩ := of_getElem?_update hj
      rcases hs with ⟨rfl, -⟩ | ⟨-, hs⟩
      · exact ⟨_, rfl, Or.inl (List.mem_append_right _ (List.mem_singleton.mpr rfl))⟩
      · exact (h.served.put _).queued ha₀ (hs.symm.trans hstage)
    · intro hend
      exact absurd (halive.symm.trans hend) Bool.false_ne_true

/-- SOURCE: persistence/aof.py:182-185 -/
theorem Attended.timeOut (h : Attended st) (s : AppendStage) : Attended (st.timeOut id s) := by
  have hdone : Attended (st.update id fun _ =>
      .done (some (.osError "AOF queue is full".toList))) := h.leave nofun rfl
  unfold AofTasks.timeOut
  cases s with
  | waiting => exact ⟨hdone.served, hdone.raised, hdone.finishing, hdone.queue⟩
  | woken =>
    dsimp only [AofTasks.passOn]
    split_ifs with hfull
    · exact hdone
    · apply Attended.wake
      exact ⟨hdone.served, hdone.raised, hdone.finishing, hdone.queue⟩
  | _ => exact hdone

/-- SOURCE: persistence/aof.py:167-186 -/
theorem Attended.stepAppend {e : AppendStep} (h : Attended st) (ha : st.appends[id]? = some a)
    (hs : st.stepAppend id a e = some st') : Attended st' := by
  cases e with
  | put =>
    simp only [AofTasks.stepAppend] at hs
    split at hs
    · rename_i hstage
      cases hs
      exact h.putItem ha (by rw [hstage]; rfl)
    · rename_i hstage
      cases hs
      exact h.putItem ha (by rw [hstage]; rfl)
    · cases hs
  | timeout =>
    simp only [AofTasks.stepAppend] at hs
    split_ifs at hs
    cases hs
    exact h.timeOut a.stage
  | thread fault =>
    simp only [AofTasks.stepAppend] at hs
    split at hs
    · cases hs
      rcases writeSync_cases st (encodeCommand a.argv) fault with hw | ⟨e, hw, -⟩
      · rw [hw]
        exact (h.file _ _ _).leave nofun rfl
      · rw [hw]
        exact h.leave nofun rfl
    · cases hs
      rcases fsyncSync_cases st fault with ⟨hw, -⟩ | hw | ⟨e, hw, -⟩
      · rw [hw]
        exact h.leave nofun rfl
      · rw [hw]
        exact (h.file _ _ _).leave nofun rfl
      · rw [hw]
        exact h.leave nofun rfl
    · cases hs
  | resume =>
    simp only [AofTasks.stepAppend] at hs
    split at hs
    · cases hs
      exact h.leave nofun rfl
    · cases hs
      split_ifs
      · exact h.leave nofun rfl
      · exact h.leave nofun rfl
    · cases hs
      exact h.leave nofun rfl
    · cases hs
      exact h.leave nofun rfl
    · cases hs

/-! ## Steps of the writer -/

/-- The writer has ended; `h` says that it has left nobody. -/
theorem served_ended {raised : Option Raised} (h : ∀ {j : ℕ} {a : Append}, l[j]? = some a →
    a.stage ≠ .queued ∧ a.stage.admitted = false) : Awaited l items (.ended raised) :=
  ⟨fun hj hstage => absurd hstage (h hj).1, fun _ => h⟩

/-- While the writer is at work `close` is not at its end, and the queue is there. -/
theorem Attended.working (h : Attended st) (halive : hasEnded st.writer = false) :
    st.close ≠ .finishing ∧ st.hasQueue = true := by
  refine ⟨?_, ?_⟩
  · intro hc
    exact absurd (halive.symm.trans (h.finishing hc)) Bool.false_ne_true
  · rcases h.queue with hq | hend
    · exact hq
    · exact absurd (halive.symm.trans hend) Bool.false_ne_true

/-- A writer with a record in hand has not ended. -/
theorem hasEnded_of_held {item : AofItem} (h : held w = some item) : hasEnded w = false := by
  cases w with
  | ended raised => cases h
  | _ => rfl

/-- After the result of its own item the writer holds nothing. -/
theorem Awaited.resolve {item : AofItem} (h : Awaited st.appends st.queue.items st.writer)
    (hheld : held st.writer = some item) (raised : Option Raised) :
    Awaited (st.update item.completed (.resolve raised)).appends st.queue.items .getting := by
  refine ⟨?_, nofun⟩
  intro j a' hj hstage
  obtain ⟨a, ha, -, hs⟩ := of_getElem?_update hj
  rcases hs with ⟨-, hs⟩ | ⟨hne, hs⟩
  · rw [hstage] at hs
    cases hq : a.stage <;> rw [hq] at hs <;> cases hs
  · obtain ⟨item', hid, hitem⟩ := h.queued ha (hs.symm.trans hstage)
    refine ⟨item', hid, ?_⟩
    rcases hitem with hitem | hitem
    · exact Or.inl hitem
    · rw [hheld] at hitem
      cases hitem
      exact absurd hid hne

/-- A record that is completed keeps the calls attended. -/
theorem Attended.completeItem {item : AofItem} (h : Attended st)
    (hheld : held st.writer = some item) : Attended (st.completeItem item) := by
  obtain ⟨hclose, hqueue⟩ := h.working (hasEnded_of_held hheld)
  exact ⟨h.served.resolve hheld none, fun _ => ⟨nofun, nofun⟩, fun hc => absurd hc hclose,
    Or.inl hqueue⟩

/-- **The writer fails with nobody admitted**: its item and all that are queued get the
exception.
SOURCE: persistence/aof.py:111-117 -/
theorem Attended.failItem {item : AofItem} {text : Str} (h : Attended st)
    (hheld : held st.writer = some item) (hnone : noneAdmitted st = true) :
    Attended (st.failItem item (.osError text)) := by
  obtain ⟨-, hqueue⟩ := h.working (hasEnded_of_held hheld)
  obtain ⟨q, l, c, heq, hempty, hdrained⟩ := failPending_spec
    ({ st with failure := some text }.update item.completed (.resolve (some (.osError text)))) text
  have hserved := h.served.resolve hheld (some (.osError text))
  have hnone' : noneAdmitted { st with failure := some text } = true := hnone
  unfold AofTasks.failItem
  dsimp only
  rw [heq]
  refine ⟨served_ended ?_, fun _ => ⟨nofun, nofun⟩, fun _ => rfl, Or.inr rfl⟩
  intro j a' hj
  obtain ⟨a₁, ha₁, -, hmoved⟩ := hdrained.carried.moved hj
  refine ⟨?_, ?_⟩
  · intro hstage
    rw [hstage] at hmoved
    obtain ⟨item', hid, hitem⟩ := hserved.queued ha₁ hmoved.queued
    rcases hitem with hitem | hitem
    · have := hdrained.queued hj hstage item' hitem hid
      rw [hempty hqueue] at this
      cases this
    · cases hitem
  · rw [hmoved.admitted]
    exact noneAdmitted_iff.mp (noneAdmitted_update (resolve_admitted _) hnone') ha₁

section Get

variable {p : Option Putter} {q : WaitQueue (Option AofItem) Putter}

/-- The writer takes an item.
SOURCE: persistence/aof.py:104-106 -/
theorem Attended.getItem {item : AofItem} (h : Attended st) (hw : st.writer = .getting)
    (hget : st.queue.getNowait = some (some item, p, q)) :
    Attended { { st with queue := q }.wake p with writer := .writing item .running } := by
  have hitems := WaitQueue.items_of_getNowait hget
  obtain ⟨l, c, heq, hcarried, hfin, -⟩ := wake_spec { st with queue := q } p
  obtain ⟨hclose, hqueue⟩ := h.working (by rw [hw]; rfl)
  have hserved := h.served.carried hcarried
  rw [heq]
  refine ⟨⟨?_, nofun⟩, fun _ => ⟨nofun, nofun⟩, fun hc => absurd (hfin hc) hclose, Or.inl hqueue⟩
  intro j a hj hstage
  obtain ⟨item', hid, hitem⟩ := hserved.queued hj hstage
  refine ⟨item', hid, ?_⟩
  rw [hw, hitems] at hitem
  rcases hitem with hitem | hitem
  · rcases List.mem_cons.mp hitem with hitem | hitem
    · cases hitem
      exact Or.inr rfl
    · exact Or.inl hitem
  · cases hitem

/-- **The writer takes the sentinel with nobody left.**
SOURCE: persistence/aof.py:104-106 -/
theorem Attended.getSentinel (h : Attended st) (hw : st.writer = .getting)
    (hget : st.queue.getNowait = some (none, p, q)) (hrest : ∀ x ∈ q.items, x = none)
    (hnone : noneAdmitted st = true) :
    Attended { { st with queue := q }.wake p with writer := .ended none } := by
  have hitems := WaitQueue.items_of_getNowait hget
  obtain ⟨l, c, heq, hcarried, -, -⟩ := wake_spec { st with queue := q } p
  have hserved := h.served.carried hcarried
  rw [heq]
  refine ⟨served_ended ?_, fun _ => ⟨nofun, nofun⟩, fun _ => rfl, Or.inr rfl⟩
  intro j a hj
  refine ⟨?_, ?_⟩
  · intro hstage
    obtain ⟨item', hid, hitem⟩ := hserved.queued hj hstage
    rw [hw, hitems] at hitem
    rcases hitem with hitem | hitem
    · rcases List.mem_cons.mp hitem with hitem | hitem
      · cases hitem
      · cases hrest _ hitem
    · cases hitem
  · obtain ⟨a₀, ha₀, -, hmoved⟩ := hcarried.moved hj
    exact hmoved.admitted.trans (noneAdmitted_iff.mp hnone ha₀)

end Get

/-- The writer goes on with its item. -/
theorem Attended.call {item : AofItem} (h : Attended st) (hheld : held st.writer = some item)
    (hheld' : held w' = some item)
    (hraised : ∀ item, w' ≠ .writing item (.ended (some .valueError)) ∧
      w' ≠ .syncing item (.ended (some .valueError))) : Attended { st with writer := w' } := by
  obtain ⟨hclose, hqueue⟩ := h.working (hasEnded_of_held hheld)
  refine ⟨?_, hraised, fun hc => absurd hc hclose, Or.inl hqueue⟩
  apply h.served.writer (hheld'.trans hheld.symm)
  exact (hasEnded_of_held hheld').trans (hasEnded_of_held hheld).symm

/-- SOURCE: persistence/aof.py:100-125 -/
theorem Attended.stepWriter {e : WriterStep} (h : Attended st)
    (hok : orderly st (.writer e) = true) (hs : st.stepWriter e = some st') : Attended st' := by
  cases e with
  | get =>
    simp only [AofTasks.stepWriter] at hs
    split at hs
    · rename_i hw
      obtain ⟨⟨item, p, q⟩, hget, rfl⟩ := Option.map_eq_some_iff.mp hs
      cases item with
      | some item => exact h.getItem hw hget
      | none =>
        have hitems := WaitQueue.items_of_getNowait hget
        simp only [orderly, hitems, Bool.and_eq_true, List.all_eq_true,
          Option.isNone_iff_eq_none] at hok
        exact h.getSentinel hw hget hok.1 hok.2
    · cases hs
  | thread fault =>
    simp only [AofTasks.stepWriter] at hs
    split at hs
    · rename_i item hw
      cases hs
      have hheld : held st.writer = some item := by
        rw [hw]
        rfl
      simp only [orderly, hw, decide_eq_true_eq] at hok
      rcases writeSync_cases st item.payload fault with hwrite | ⟨e, hwrite, hclosed⟩
      · rw [hwrite]
        exact (h.file _ _ _).call hheld rfl (fun _ => ⟨nofun, nofun⟩)
      · rw [hwrite]
        refine h.call hheld rfl (fun _ => ⟨?_, nofun⟩)
        intro he
        cases he
        exact hok (hclosed rfl)
    · rename_i item hw
      cases hs
      have hheld : held st.writer = some item := by
        rw [hw]
        rfl
      simp only [orderly, hw, Bool.not_eq_true', Bool.and_eq_false_iff,
        decide_eq_false_iff_not] at hok
      rcases fsyncSync_cases st fault with ⟨hsync, -⟩ | hsync | ⟨e, hsync, hclosed⟩
      · rw [hsync]
        exact h.call hheld rfl (fun _ => ⟨nofun, nofun⟩)
      · rw [hsync]
        exact (h.file _ _ _).call hheld rfl (fun _ => ⟨nofun, nofun⟩)
      · rw [hsync]
        refine h.call hheld rfl (fun _ => ⟨nofun, ?_⟩)
        intro he
        cases he
        obtain ⟨hhandle, hdirty⟩ := hclosed rfl
        rcases hok with hok | hok
        · exact hok hhandle
        · rw [hdirty] at hok
          cases hok
    · cases hs
  | resume =>
    simp only [AofTasks.stepWriter] at hs
    split at hs
    · rename_i item hw
      have hheld : held st.writer = some item := by
        rw [hw]
        rfl
      split_ifs at hs
      · cases hs
        exact h.call hheld rfl (fun _ => ⟨nofun, nofun⟩)
      · cases hs
        exact h.completeItem hheld
    · rename_i item hw
      cases hs
      exact h.completeItem (by rw [hw]; rfl)
    · rename_i item e hw
      cases hs
      cases e with
      | valueError => exact absurd hw (h.raised item).1
      | osError text =>
        apply h.failItem
        · rw [hw]
          rfl
        · simpa only [orderly, hw] using hok
    · rename_i item e hw
      cases hs
      cases e with
      | valueError => exact absurd hw (h.raised item).2
      | osError text =>
        apply h.failItem
        · rw [hw]
          rfl
        · simpa only [orderly, hw] using hok
    · cases hs

/-! ## The other steps -/

/-- A failure of the periodic fsync resolves what is in the queue and leaves the writer its
item. -/
theorem Attended.failPending (h : Attended st) (text : Str) :
    Attended (st.failPending text) := by
  obtain ⟨q, l, c, heq, -, hdrained⟩ := failPending_spec st text
  have hserved := h.served.carried hdrained.carried
  rw [heq]
  refine ⟨⟨?_, hserved.ended⟩, h.raised, fun hc => h.finishing (hdrained.finishing hc), h.queue⟩
  intro j a hj hstage
  obtain ⟨item, hid, hitem⟩ := hserved.queued hj hstage
  refine ⟨item, hid, ?_⟩
  rcases hitem with hitem | hitem
  · exact Or.inl (hdrained.queued hj hstage item hitem hid)
  · exact Or.inr hitem

/-- SOURCE: persistence/aof.py:153-165 -/
theorem Attended.stepFsync {e : FsyncStep} (h : Attended st)
    (hs : st.stepFsync e = some st') : Attended st' := by
  cases e with
  | wake =>
    simp only [AofTasks.stepFsync] at hs
    split at hs
    · cases hs
      exact ⟨h.served, h.raised, h.finishing, h.queue⟩
    · cases hs
  | thread fault =>
    simp only [AofTasks.stepFsync] at hs
    split at hs
    · cases hs
      rcases fsyncSync_cases st fault with ⟨hsync, -⟩ | hsync | ⟨e, hsync, -⟩
      all_goals
        rw [hsync]
        exact ⟨h.served, h.raised, h.finishing, h.queue⟩
    · cases hs
  | resume =>
    simp only [AofTasks.stepFsync] at hs
    split at hs
    · cases hs
      exact ⟨h.served, h.raised, h.finishing, h.queue⟩
    · rename_i text _
      cases hs
      have hfailed : Attended { st with failure := some text } :=
        ⟨h.served, h.raised, h.finishing, h.queue⟩
      have hdrained := hfailed.failPending text
      exact ⟨hdrained.served, hdrained.raised, hdrained.finishing, hdrained.queue⟩
    · cases hs
      exact ⟨h.served, h.raised, h.finishing, h.queue⟩
    · cases hs

/-- SOURCE: persistence/aof.py:167-181 -/
theorem Attended.startAppend (h : Attended st) (argv : Command)
    (hok : orderly st (.start argv) = true) : Attended (st.startAppend argv) := by
  simp only [orderly, Bool.not_eq_true', Bool.and_eq_false_iff] at hok
  obtain ⟨s, heq, hs⟩ := startAppend_spec st argv
  rw [heq]
  refine ⟨⟨?_, ?_⟩, h.raised, h.finishing, h.queue⟩
  · intro j a hj hstage
    rcases of_getElem?_concat hj with hj | rfl
    · exact h.served.queued hj hstage
    · cases hstage
      cases hs
  · intro hend j a hj
    rcases of_getElem?_concat hj with hj | rfl
    · exact h.served.ended hend hj
    · cases hs with
      | entering hqueues =>
        rcases hok with hok | hok
        · exact absurd (hok.symm.trans hend) Bool.false_ne_true
        · exact absurd (hok.symm.trans hqueues) Bool.false_ne_true
      | _ => exact ⟨nofun, rfl⟩

/-- The stop marker keeps the calls attended. -/
theorem Attended.putSentinel (h : Attended st) : Attended st.putSentinel := by
  unfold AofTasks.putSentinel
  split_ifs with hfull
  · exact ⟨h.served, h.raised, nofun, h.queue⟩
  · exact ⟨h.served.put none, h.raised, nofun, h.queue⟩

/-- SOURCE: persistence/aof.py:226-238 -/
theorem Attended.cancelFsync (h : Attended st) (hend : hasEnded st.writer = true) :
    Attended st.cancelFsync := by
  unfold AofTasks.cancelFsync
  split
  · exact ⟨h.served, h.raised, nofun, h.queue⟩
  · exact ⟨h.served, h.raised, fun _ => hend, h.queue⟩
  · exact ⟨h.served, h.raised, fun _ => hend, h.queue⟩

/-- SOURCE: persistence/aof.py:239-248 -/
theorem Attended.finishClose (h : Attended st) (hend : hasEnded st.writer = true)
    (syncFault closeFault : Option Str) : Attended (st.finishClose syncFault closeFault) := by
  have hsynced : Attended (st.fsyncSync syncFault).2 ∧
      hasEnded (st.fsyncSync syncFault).2.writer = true := by
    rcases fsyncSync_cases st syncFault with ⟨hsync, -⟩ | hsync | ⟨e, hsync, -⟩
    all_goals rw [hsync]
    · exact ⟨h, hend⟩
    · exact ⟨h.file _ _ _, hend⟩
    · exact ⟨h, hend⟩
  obtain ⟨hs, hend'⟩ := hsynced
  unfold AofTasks.finishClose
  split
  · exact ⟨h.served, h.raised, nofun, Or.inr hend⟩
  · dsimp only
    split
    · exact ⟨hs.served, hs.raised, nofun, hs.queue⟩
    · exact ⟨hs.served, hs.raised, nofun, hs.queue⟩
    · exact ⟨hs.served, hs.raised, nofun, Or.inr hend'⟩

/-- SOURCE: persistence/aof.py:218-248 -/
theorem Attended.stepClose {e : CloseStep} (h : Attended st)
    (hs : st.stepClose e = some st') : Attended st' := by
  cases e with
  | call =>
    simp only [AofTasks.stepClose] at hs
    have hcalled : Attended { st with closed := true, close := .joining } :=
      ⟨h.served, h.raised, nofun, h.queue⟩
    split at hs
    · split at hs
      · cases hs
        exact hcalled
      · split_ifs at hs
        · cases hs
          exact hcalled.putSentinel
        · cases hs
          exact hcalled
    · cases hs
  | put =>
    simp only [AofTasks.stepClose] at hs
    split at hs
    · cases hs
      exact h.putSentinel
    · cases hs
  | join =>
    simp only [AofTasks.stepClose] at hs
    split at hs
    · rename_i hw
      cases hs
      refine Attended.cancelFsync ?_ ?_
      · exact ⟨h.served, h.raised, h.finishing, h.queue⟩
      · show hasEnded st.writer = true
        rw [hw]
        rfl
    · cases hs
      exact ⟨h.served, h.raised, nofun, h.queue⟩
    · cases hs
  | finish syncFault closeFault =>
    simp only [AofTasks.stepClose] at hs
    split at hs
    · rename_i hc
      cases hs
      exact h.finishClose (h.finishing hc) syncFault closeFault
    · cases hs

/-- SOURCE: persistence/aof.py:196-216 -/
theorem Attended.replace (h : Attended st) (hr : Rewritten st st') : Attended st' := by
  cases hr with
  | kept => exact ⟨h.served, h.raised, h.finishing, h.queue⟩
  | replaced => exact ⟨h.served, h.raised, h.finishing, h.queue⟩

/-- **Every orderly step leaves nobody waiting in vain.** -/
theorem Attended.step {action : AofAction} (h : Attended st) (hok : orderly st action = true)
    (hs : st.step action = some (st', es)) : Attended st' := by
  cases action with
  | start argv =>
    cases hs
    exact h.startAppend argv hok
  | append id e =>
    obtain ⟨a, ha, hs⟩ := Option.bind_eq_some_iff.mp hs
    obtain ⟨st₁, hstep, heq⟩ := Option.map_eq_some_iff.mp hs
    cases heq
    exact h.stepAppend ha hstep
  | writer e =>
    obtain ⟨st₁, hstep, heq⟩ := Option.map_eq_some_iff.mp hs
    cases heq
    exact h.stepWriter hok hstep
  | fsyncLoop e =>
    obtain ⟨st₁, hstep, heq⟩ := Option.map_eq_some_iff.mp hs
    cases heq
    exact h.stepFsync hstep
  | replace payload outcome =>
    cases hs
    exact h.replace (replaceFileSync_spec st payload outcome)
  | close e =>
    obtain ⟨st₁, hstep, heq⟩ := Option.map_eq_some_iff.mp hs
    cases heq
    exact h.stepClose hstep

/-! ## Runs -/

/-- A log that was just opened attends to every call. -/
theorem attended_started (policy : AofFsync) (queueMax : ℕ) (base : Bytes) :
    Attended (.started policy queueMax base) :=
  ⟨⟨nofun, nofun⟩, fun _ => ⟨nofun, nofun⟩, nofun, Or.inl rfl⟩

/-- The step an append takes next; the timeout is that of an append in line. -/
def nextStep : AppendStage → Option AppendStep
  | .entering => some .put
  | .waiting => some .timeout
  | .woken => some .put
  | .queued => none
  | .resolved _ => some .resume
  | .writing .running => some (.thread none)
  | .writing (.ended _) => some .resume
  | .syncing .running => some (.thread none)
  | .syncing (.ended _) => some .resume
  | .done _ => none

/-- A call with a next step can take it. -/
theorem stepAppend_nextStep {e : AppendStep} (h : nextStep a.stage = some e) :
    (st.stepAppend id a e).isSome = true := by
  obtain ⟨argv, stage⟩ := a
  cases stage with
  | writing call =>
    cases call with
    | running =>
      cases h
      rfl
    | ended raised =>
      cases h
      cases raised <;> rfl
  | syncing call =>
    cases call <;> cases h <;> rfl
  | _ =>
    cases h <;> rfl

/-- A call that takes a step had one. -/
theorem nextStep_of_stepAppend {e : AppendStep} (h : st.stepAppend id a e = some st') :
    (nextStep a.stage).isSome = true := by
  obtain ⟨argv, stage⟩ := a
  cases stage with
  | queued => cases e <;> cases h
  | done raised => cases e <;> cases h
  | writing call => cases call <;> rfl
  | syncing call => cases call <;> rfl
  | _ => rfl

/-- Who has a step of its own to take. -/
theorem runnable_iff : Runnable st id ↔ ∃ a, st.appends[id]? = some a ∧
    (nextStep a.stage).isSome = true := by
  constructor
  · rintro ⟨e, he⟩
    obtain ⟨r, hr⟩ := Option.isSome_iff_exists.mp he
    obtain ⟨a, ha, hnext⟩ := Option.bind_eq_some_iff.mp hr
    obtain ⟨st', hstep, -⟩ := Option.map_eq_some_iff.mp hnext
    exact ⟨a, ha, nextStep_of_stepAppend hstep⟩
  · rintro ⟨a, ha, hnext⟩
    obtain ⟨e, he⟩ := Option.isSome_iff_exists.mp hnext
    refine ⟨e, ?_⟩
    simp only [AofTasks.step, ha, Option.bind_some, Option.isSome_map]
    exact stepAppend_nextStep he

/-- An append that can take no step is at `await completed` or at its end. -/
theorem queued_or_completed (h : (nextStep a.stage).isSome = false) :
    a.stage = .queued ∨ Completed a := by
  obtain ⟨argv, stage⟩ := a
  cases stage with
  | queued => exact Or.inl rfl
  | done raised => exact Or.inr ⟨raised, rfl⟩
  | writing call => cases call <;> cases h
  | syncing call => cases call <;> cases h
  | _ => cases h

/-- **No append waits for a writer that has ended**, in every run whose steps are orderly: when
the writer has ended and no append has a step to take, every append has completed.
SOURCE: persistence/aof.py:100-248 -/
theorem appends_complete {policy : AofFsync} {queueMax : ℕ} {base : Bytes}
    (hrun : Runs AofTasks.step (fun st a => orderly st a = true) (.started policy queueMax base)
      acked st)
    (hend : hasEnded st.writer = true) (hidle : ∀ id, ¬ Runnable st id) :
    ∀ a ∈ st.appends, Completed a := by
  have hattended : Attended st :=
    hrun.invariant (I := fun _ st => Attended st) (attended_started policy queueMax base)
      (fun h hok hs => h.step hok hs)
  intro a ha
  obtain ⟨id, hid⟩ := List.getElem?_of_mem ha
  have hstuck : (nextStep a.stage).isSome = false := by
    by_contra hnext
    exact hidle id (runnable_iff.mpr ⟨a, hid, Bool.not_eq_false _ ▸ hnext⟩)
  rcases queued_or_completed hstuck with hqueued | hcompleted
  · exact absurd hqueued (hattended.served.ended hend hid).1
  · exact hcompleted

/-- Nobody can take a step when everybody is at `await completed` or at the end. -/
theorem idle_of_all (h : st.appends.all (fun a => (nextStep a.stage).isNone) = true) (id : ℕ) :
    ¬ Runnable st id := by
  intro hrunnable
  obtain ⟨a, ha, hnext⟩ := runnable_iff.mp hrunnable
  have := List.all_eq_true.mp h a (List.mem_of_getElem? ha)
  rw [Option.isNone_iff_eq_none] at this
  rw [this] at hnext
  cases hnext

/-- A record is written and fsynced; then the disk is full and two appends get the failure. -/
theorem appends_complete_failing :
    ∃ acked st, Runs AofTasks.step (fun st a => orderly st a = true) (.started .always 1 [])
        acked st ∧ acked = [0] ∧ st.appends.length = 3 ∧ ∀ a ∈ st.appends, Completed a := by
  have hend : (runAll AofTasks.step (fun st a => orderly st a = true)
      [.start [ascii "A"], .append 0 .put, .writer .get, .writer (.thread none), .writer .resume,
        .writer (.thread none), .writer .resume, .append 0 .resume,
        .start [ascii "B"], .append 1 .put, .writer .get, .start [ascii "C"], .append 2 .put,
        .writer (.thread (some "disk full".toList)), .writer .resume, .append 1 .resume,
        .append 2 .resume] (.started .always 1 [])).map
        (fun q => (q.1, hasEnded q.2.writer, q.2.appends.length,
          q.2.appends.all fun a => (nextStep a.stage).isNone)) =
      some ([0], true, 3, true) := by
    decide +kernel
  obtain ⟨st, hrun, hview⟩ := exists_runs (fun st : AofTasks => (hasEnded st.writer,
    st.appends.length, st.appends.all fun a => (nextStep a.stage).isNone)) hend
  obtain ⟨hended, hview⟩ := Prod.mk.inj hview
  obtain ⟨hlength, hall⟩ := Prod.mk.inj hview
  exact ⟨[0], st, hrun, rfl, hlength, appends_complete hrun hended (idle_of_all hall)⟩

/-- The queue has one place. A is being written, B has the place and C waits in line when the
write fails: B gets the failure, which wakes C, and C is queued behind the writer that has
ended. -/
theorem appends_complete_stuck :
    ∃ acked st, Runs AofTasks.step (fun _ _ => True) (.started .always 1 []) acked st ∧
      hasEnded st.writer = true ∧ (∀ id, ¬ Runnable st id) ∧ ¬ ∀ a ∈ st.appends, Completed a := by
  have hend : (runAll AofTasks.step (fun _ _ => True)
      [.start [ascii "A"], .append 0 .put, .writer .get, .start [ascii "B"], .append 1 .put,
        .start [ascii "C"], .append 2 .put, .writer (.thread (some "disk full".toList)),
        .writer .resume, .append 0 .resume, .append 1 .resume, .append 2 .put]
        (.started .always 1 [])).map
        (fun q => (q.1, hasEnded q.2.writer,
          q.2.appends.all fun a => (nextStep a.stage).isNone, q.2.appends.map Append.stage)) =
      some ([], true, true, [.done (some (.osError "disk full".toList)),
        .done (some (.osError "disk full".toList)), .queued]) := by
    decide +kernel
  obtain ⟨st, hrun, hview⟩ := exists_runs (fun st : AofTasks => (hasEnded st.writer,
    st.appends.all fun a => (nextStep a.stage).isNone, st.appends.map Append.stage)) hend
  obtain ⟨hended, hview⟩ := Prod.mk.inj hview
  obtain ⟨hall, hstages⟩ := Prod.mk.inj hview
  refine ⟨[], st, hrun, hended, idle_of_all hall, ?_⟩
  intro hcompleted
  have hmem : AppendStage.queued ∈ st.appends.map Append.stage := by
    rw [hstages]
    exact List.mem_cons_of_mem _ (List.mem_cons_of_mem _ (List.mem_singleton.mpr rfl))
  obtain ⟨a, ha, hqueued⟩ := List.mem_map.mp hmem
  obtain ⟨raised, hdone⟩ := hcompleted a ha
  rw [hqueued] at hdone
  cases hdone

end ByoRedis.Analysis
