import Mathlib.Data.List.ReduceOption
import ByoRedis.Analysis.AppendSteps

/-!
# Acknowledged records are in the file

The writer takes the items in the order in which they were put and writes each one whole, so
the file since it was opened or replaced is a prefix of what was enqueued, and an append
returns only after its own record is in it. One step breaks the order: a failing periodic
fsync drops what is in the queue while the writer lives on, and an append that waits in line
is written after the gap. `acknowledged_durable` excludes this step, in the runs in which nobody
closes the log and a rewrite replaces the file only while no append is outstanding.
-/

set_option autoImplicit false

namespace ByoRedis.Analysis

open ByoRedis.Model ByoRedis.Lib

/-! ## The property -/

/-- The bytes of a list of items. -/
def records (items : List AofItem) : Bytes := items.flatMap AofItem.payload

/-- Every item is the encoding of the command of its own append, and no append has two. -/
structure Enrolled (l : List Append) (es : List AofItem) : Prop where
  item : ∀ {x : AofItem}, x ∈ es → ∃ a, l[x.completed]? = some a ∧
    x.payload = encodeCommand a.argv ∧ a.stage.admitted = false
  once : (es.map AofItem.completed).Nodup

/-- What was written since the file was opened or replaced are the encodings of a prefix of
the commands enqueued since. -/
def Logged (st : AofTasks) : Prop :=
  (∃ k, st.written = records (st.enqueued.take k)) ∧ Enrolled st.appends st.enqueued

/-- The record of append `id`, the encoding of its command, is in the file at its place in the
order of the puts; under `always` a completed fsync covers it. -/
def Recorded (st : AofTasks) (id : ℕ) : Prop :=
  ∃ n x a, st.enqueued[n]? = some x ∧ x.completed = id ∧ st.appends[id]? = some a ∧
    x.payload = encodeCommand a.argv ∧ records (st.enqueued.take (n + 1)) <+: st.written ∧
    (st.policy = .always → (records (st.enqueued.take (n + 1))).length ≤ st.synced)

/-- Nobody closes the log, and a rewrite runs only while no append is outstanding. -/
def inScope (st : AofTasks) : AofAction → Bool
  | .close _ => false
  | .replace _ _ => st.appends.all fun a =>
    match a.stage with
    | .done _ => true
    | _ => false
  | _ => true

/-- The periodic fsync fails only when the queue is empty or nobody is on the way into it. -/
def leavesNoGap (st : AofTasks) : AofAction → Bool
  | .fsyncLoop .resume =>
    match st.fsyncLoop with
    | .syncing (.ended (some (.osError _))) => st.queue.items.isEmpty || noneAdmitted st
    | _ => true
  | _ => true

/-! ## The calls -/

/-- As `Recorded`, without the append itself. -/
def Covered (st : AofTasks) (id : ℕ) : Prop :=
  ∃ n x, st.enqueued[n]? = some x ∧ x.completed = id ∧
    records (st.enqueued.take (n + 1)) <+: st.written ∧
    (st.policy = .always → (records (st.enqueued.take (n + 1))).length ≤ st.synced)

variable {x : AofItem}

/-- The items on their way to the file. -/
def pending (w : WriterStage) (items : List (Option AofItem)) : List AofItem :=
  (held w).toList ++ items.reduceOption

/-- A record put in the queue is the last one the writer has before it. -/
theorem pending_concat (w : WriterStage) (items : List (Option AofItem)) (x : AofItem) :
    pending w (items ++ [some x]) = pending w items ++ [x] := by
  simp [pending, List.reduceOption]

/-- The record in hand comes before the queue. -/
theorem pending_of_held {w : WriterStage} (h : held w = some x)
    (items : List (Option AofItem)) : pending w items = x :: items.reduceOption := by
  rw [pending, h]
  rfl

/-- An append goes through the writer, and it is told that all is well only when `covered`. -/
def Honest (covered : Prop) : AppendStage → Prop
  | .writing _ => False
  | .syncing _ => False
  | .resolved none => covered
  | _ => True

/-- The appends beside the items they have put, those that are still on the way, and those
that the file covers. -/
structure Calls (l : List Append) (es xs : List AofItem) (covered : ℕ → Prop) : Prop where
  enrolled : Enrolled l es
  queued : ∀ {x : AofItem}, x ∈ xs → ∃ a, l[x.completed]? = some a ∧ a.stage = .queued
  distinct : (xs.map AofItem.completed).Nodup
  sound : ∀ {j : ℕ} {a : Append}, l[j]? = some a → Honest (covered j) a.stage

variable {l l' : List Append} {es xs ys : List AofItem} {covered covered' : ℕ → Prop}
  {st st' : AofTasks} {id : ℕ} {a : Append} {s : AppendStage}

/-- An append that only moved on tells nothing new. -/
theorem Honest.moved {c : Prop} {s' : AppendStage} (h : Honest c s) (hm : Moved s s') :
    Honest c s' := by
  cases hm with
  | same => exact h
  | woken => trivial
  | failed e => trivial

/-- What is said of the calls holds with more of them covered. -/
theorem Calls.mono (h : Calls l es xs covered) (hc : ∀ j, covered j → covered' j) :
    Calls l es xs covered' := by
  refine ⟨h.enrolled, h.queued, h.distinct, ?_⟩
  intro j a hj
  have hs := h.sound hj
  cases hstage : a.stage with
  | resolved raised =>
    rw [hstage] at hs
    cases raised with
    | none => exact hc j hs
    | some e => trivial
  | writing call =>
    rw [hstage] at hs
    exact hs
  | syncing call =>
    rw [hstage] at hs
    exact hs
  | _ => trivial

/-- Appends are woken or fail; those with an item in `ys` are not among them. -/
theorem Calls.carried (h : Calls l es xs covered) (hc : Carried l l') (hys : ys.Sublist xs)
    (hkept : ∀ {x : AofItem} {a : Append}, x ∈ ys → l[x.completed]? = some a →
      a.stage = .queued → ∃ a', l'[x.completed]? = some a' ∧ a'.stage = .queued) :
    Calls l' es ys covered := by
  refine ⟨⟨?_, h.enrolled.once⟩, ?_, h.distinct.sublist (hys.map _), ?_⟩
  · intro x hx
    obtain ⟨a, ha, hpayload, hadmitted⟩ := h.enrolled.item hx
    obtain ⟨a', ha', hargv, hmoved⟩ := hc.kept ha
    exact ⟨a', ha', by rw [hargv]; exact hpayload, hmoved.admitted.trans hadmitted⟩
  · intro x hx
    obtain ⟨a, ha, hstage⟩ := h.queued (hys.subset hx)
    exact hkept hx ha hstage
  · intro j a' hj
    obtain ⟨a, ha, -, hmoved⟩ := hc.moved hj
    exact (h.sound ha).moved hmoved

/-- An append takes a step of its own. -/
theorem Calls.own (h : Calls st.appends es xs covered) (ha : st.appends[id]? = some a)
    (hq : a.stage ≠ .queued) (hs : Honest (covered id) s)
    (hadmitted : s.admitted = true → a.stage.admitted = true) :
    Calls (st.update id fun _ => s).appends es xs covered := by
  refine ⟨⟨?_, h.enrolled.once⟩, ?_, h.distinct, ?_⟩
  · intro x hx
    obtain ⟨b, hb, hpayload, had⟩ := h.enrolled.item hx
    by_cases hid : id = x.completed
    · subst hid
      rw [ha] at hb
      cases hb
      refine ⟨_, getElem?_update_self ha, hpayload, ?_⟩
      by_contra hne
      rw [hadmitted (Bool.not_eq_false _ ▸ hne)] at had
      cases had
    · exact ⟨b, (getElem?_update_ne hid).trans hb, hpayload, had⟩
  · intro x hx
    obtain ⟨b, hb, hstage⟩ := h.queued hx
    have hid : id ≠ x.completed := by
      rintro rfl
      rw [ha] at hb
      cases hb
      exact hq hstage
    exact ⟨b, (getElem?_update_ne hid).trans hb, hstage⟩
  · intro j b hj
    obtain ⟨a₀, ha₀, -, hstage⟩ := of_getElem?_update hj
    rcases hstage with ⟨rfl, hstage⟩ | ⟨-, hstage⟩
    · rw [hstage]
      exact hs
    · rw [hstage]
      exact h.sound ha₀

/-- An append that is on the way into the queue has not put an item yet. -/
theorem Enrolled.ne_of_admitted (h : Enrolled l es) (ha : l[id]? = some a)
    (had : a.stage.admitted = true) (hx : x ∈ es) : id ≠ x.completed := by
  rintro rfl
  obtain ⟨b, hb, -, hnot⟩ := h.item hx
  rw [ha] at hb
  cases hb
  rw [had] at hnot
  cases hnot

/-- A call that has not come before keeps the calls distinct. -/
theorem nodup_concat (h : (xs.map AofItem.completed).Nodup)
    (hx : ∀ y ∈ xs, x.completed ≠ y.completed) : ((xs ++ [x]).map AofItem.completed).Nodup := by
  rw [List.map_append, List.nodup_append]
  refine ⟨h, List.nodup_singleton _, ?_⟩
  intro i hi j hj
  obtain ⟨y, hy, rfl⟩ := List.mem_map.mp hi
  rw [List.map_singleton, List.mem_singleton] at hj
  rw [hj]
  exact (hx y hy).symm

/-- An append puts its item. -/
theorem Calls.put (h : Calls st.appends es xs covered) (ha : st.appends[id]? = some a)
    (had : a.stage.admitted = true) :
    Calls (st.update id fun _ => .queued).appends
      (es ++ [{ payload := encodeCommand a.argv, completed := id }])
      (xs ++ [{ payload := encodeCommand a.argv, completed := id }]) covered := by
  have hes : ∀ y ∈ es, id ≠ y.completed := fun y hy => h.enrolled.ne_of_admitted ha had hy
  have hxs : ∀ y ∈ xs, id ≠ y.completed := by
    rintro y hy rfl
    obtain ⟨b, hb, hstage⟩ := h.queued hy
    rw [ha] at hb
    cases hb
    rw [hstage] at had
    cases had
  refine ⟨⟨?_, nodup_concat h.enrolled.once hes⟩, ?_, nodup_concat h.distinct hxs, ?_⟩
  · intro y hy
    rcases List.mem_append.mp hy with hy | hy
    · obtain ⟨b, hb, hpayload, hnot⟩ := h.enrolled.item hy
      exact ⟨b, (getElem?_update_ne (hes y hy)).trans hb, hpayload, hnot⟩
    · cases List.mem_singleton.mp hy
      exact ⟨_, getElem?_update_self ha, rfl, rfl⟩
  · intro y hy
    rcases List.mem_append.mp hy with hy | hy
    · obtain ⟨b, hb, hstage⟩ := h.queued hy
      exact ⟨b, (getElem?_update_ne (hxs y hy)).trans hb, hstage⟩
    · cases List.mem_singleton.mp hy
      exact ⟨_, getElem?_update_self ha, rfl⟩
  · intro j b hj
    obtain ⟨a₀, ha₀, -, hstage⟩ := of_getElem?_update hj
    rcases hstage with ⟨-, hstage⟩ | ⟨-, hstage⟩
    · rw [hstage]
      trivial
    · rw [hstage]
      exact h.sound ha₀

/-- A new append. -/
theorem Calls.start {b : Append} (h : Calls l es xs covered) (hs : ∀ c, Honest c b.stage) :
    Calls (l ++ [b]) es xs covered := by
  have hkept : ∀ {j : ℕ} {a : Append}, l[j]? = some a → (l ++ [b])[j]? = some a := by
    intro j a hj
    rw [List.getElem?_append_left (List.getElem?_eq_some_iff.mp hj).1]
    exact hj
  refine ⟨⟨?_, h.enrolled.once⟩, ?_, h.distinct, ?_⟩
  · intro x hx
    obtain ⟨a, ha, hpayload, had⟩ := h.enrolled.item hx
    exact ⟨a, hkept ha, hpayload, had⟩
  · intro x hx
    obtain ⟨a, ha, hstage⟩ := h.queued hx
    exact ⟨a, hkept ha, hstage⟩
  · intro j a hj
    rcases of_getElem?_concat hj with hj | rfl
    · exact h.sound hj
    · exact hs _

/-- The first item on its way gets its result. -/
theorem Calls.resolve {raised : Option Raised} (h : Calls st.appends es (x :: xs) covered)
    (hc : raised = none → covered x.completed) :
    Calls (st.update x.completed (.resolve raised)).appends es xs covered := by
  obtain ⟨a, ha, hqueued⟩ := h.queued List.mem_cons_self
  have hdistinct := h.distinct
  rw [List.map_cons, List.nodup_cons] at hdistinct
  refine ⟨⟨?_, h.enrolled.once⟩, ?_, hdistinct.2, ?_⟩
  · intro y hy
    obtain ⟨b, hb, hpayload, had⟩ := h.enrolled.item hy
    by_cases hid : x.completed = y.completed
    · rw [← hid] at hb ⊢
      exact ⟨_, getElem?_update_self hb, hpayload, (resolve_admitted raised _).trans had⟩
    · exact ⟨b, (getElem?_update_ne hid).trans hb, hpayload, had⟩
  · intro y hy
    obtain ⟨b, hb, hstage⟩ := h.queued (List.mem_cons_of_mem _ hy)
    have hid : x.completed ≠ y.completed := by
      intro hid
      exact hdistinct.1 (hid ▸ List.mem_map_of_mem hy)
    exact ⟨b, (getElem?_update_ne hid).trans hb, hstage⟩
  · intro j b hj
    obtain ⟨a₀, ha₀, -, hstage⟩ := of_getElem?_update hj
    rcases hstage with ⟨rfl, hstage⟩ | ⟨-, hstage⟩
    · rw [ha] at ha₀
      cases ha₀
      rw [hstage, hqueued]
      cases raised with
      | none => exact hc rfl
      | some e => trivial
    · rw [hstage]
      exact h.sound ha₀

/-! ## The file -/

/-- The records of two parts of the queue. -/
theorem records_append (xs ys : List AofItem) : records (xs ++ ys) = records xs ++ records ys :=
  List.flatMap_append

/-- The file grows, the order goes on, and an fsync covers all there is. -/
theorem Covered.mono (h : Covered st id) (hp : st'.policy = st.policy)
    (he : st.enqueued <+: st'.enqueued) (hw : st.written <+: st'.written)
    (hs : st.synced ≤ st'.synced ∨ st'.synced = st'.written.length) : Covered st' id := by
  obtain ⟨n, x, hn, hid, hin, hsynced⟩ := h
  obtain ⟨t, ht⟩ := he
  have hlt := (List.getElem?_eq_some_iff.mp hn).1
  have htake : st'.enqueued.take (n + 1) = st.enqueued.take (n + 1) := by
    rw [← ht, List.take_append_of_le_length hlt]
  refine ⟨n, x, ?_, hid, ?_, ?_⟩
  · rw [← ht, List.getElem?_append_left hlt, hn]
  · rw [htake]
    exact hin.trans hw
  · intro halways
    rw [htake]
    rcases hs with hs | hs
    · exact (hsynced (hp.symm.trans halways)).trans hs
    · rw [hs]
      exact (hin.trans hw).length_le

/-- Where the writer stands when `k` records are written and `m` items are taken; `synced`
says that an fsync covers the file. -/
def AtItem (es : List AofItem) (synced : Prop) (k m : ℕ) : WriterStage → Prop
  | .getting => m = k
  | .writing x .running => m = k + 1 ∧ es[k]? = some x
  | .writing x (.ended none) => m = k ∧ ∃ n, k = n + 1 ∧ es[n]? = some x
  | .syncing x .running => m = k ∧ ∃ n, k = n + 1 ∧ es[n]? = some x
  | .syncing x (.ended none) => (m = k ∧ ∃ n, k = n + 1 ∧ es[n]? = some x) ∧ synced
  | _ => True

/-- The place of the writer stays what it is when more is known to be on the disk. -/
theorem AtItem.synced {c c' : Prop} {k m : ℕ} {w : WriterStage} (h : AtItem es c k m w)
    (hc : c → c') : AtItem es c' k m w := by
  cases w with
  | syncing y call =>
    cases call with
    | running => exact h
    | ended raised =>
      cases raised with
      | none => exact ⟨h.1, hc h.2⟩
      | some e => trivial
  | writing y call =>
    cases call with
    | running => exact h
    | ended raised => cases raised <;> exact h
  | getting => exact h
  | ended raised => trivial

/-- The first `k` items are in the file and all from `m` on are in the queue, unless they
were dropped and nothing comes any more. -/
structure Place (st : AofTasks) (k m : ℕ) : Prop where
  written : st.written = records (st.enqueued.take k)
  le : k ≤ m
  bound : m ≤ st.enqueued.length
  rest : st.queue.items = (st.enqueued.drop m).map some ∨
    st.queue.items = [] ∧ st.failure.isSome = true ∧ noneAdmitted st = true
  writer : AtItem st.enqueued (st.written.length ≤ st.synced) k m st.writer

/-- The invariant. -/
structure InOrder (st : AofTasks) : Prop where
  opened : st.handle ≠ .none ∧ st.hasQueue = true ∧ st.hasWriter = true
  clean : st.dirty = false → st.synced = st.written.length
  calls : Calls st.appends st.enqueued (pending st.writer st.queue.items) (Covered st)
  place : ∃ k m, Place st k m

/-- Records that are written in order are in the log. -/
theorem InOrder.logged (h : InOrder st) : Logged st := by
  obtain ⟨k, m, hp⟩ := h.place
  exact ⟨⟨k, hp.written⟩, h.calls.enrolled⟩

/-! ## Steps of an append -/

/-- SOURCE: persistence/aof.py:167-181 -/
theorem InOrder.startAppend (h : InOrder st) (argv : Command) : InOrder (st.startAppend argv) := by
  obtain ⟨s, heq, hs⟩ := startAppend_spec st argv
  rw [heq]
  refine ⟨h.opened, h.clean, h.calls.start ?_, ?_⟩
  · intro c
    cases hs with
    | direct hnot =>
      rw [h.opened.2.1, h.opened.2.2] at hnot
      cases hnot
    | _ => trivial
  · obtain ⟨k, m, hp⟩ := h.place
    refine ⟨k, m, hp.written, hp.le, hp.bound, ?_, hp.writer⟩
    rcases hp.rest with hrest | ⟨hempty, hfailed, hnone⟩
    · exact Or.inl hrest
    · refine Or.inr ⟨hempty, hfailed, noneAdmitted_iff.mpr ?_⟩
      intro j a hj
      rcases of_getElem?_concat hj with hj | rfl
      · exact noneAdmitted_iff.mp hnone hj
      · cases hs with
        | entering hqueues =>
          obtain ⟨text, htext⟩ := Option.isSome_iff_exists.mp hfailed
          simp [AofTasks.queues, htext] at hqueues
        | _ => rfl

/-- An append takes a step of its own that puts nothing. -/
theorem InOrder.own (h : InOrder st) (ha : st.appends[id]? = some a) (hq : a.stage ≠ .queued)
    (hs : Honest (Covered st id) s) (had : s.admitted = true → a.stage.admitted = true) :
    InOrder (st.update id fun _ => s) := by
  refine ⟨h.opened, h.clean, h.calls.own ha hq hs had, ?_⟩
  obtain ⟨k, m, hp⟩ := h.place
  refine ⟨k, m, hp.written, hp.le, hp.bound, ?_, hp.writer⟩
  rcases hp.rest with hrest | ⟨hempty, hfailed, hnone⟩
  · exact Or.inl hrest
  · refine Or.inr ⟨hempty, hfailed, noneAdmitted_iff.mpr ?_⟩
    intro j b hj
    obtain ⟨a₀, ha₀, -, hstage⟩ := of_getElem?_update hj
    have hnot := noneAdmitted_iff.mp hnone ha₀
    rcases hstage with ⟨rfl, hstage⟩ | ⟨-, hstage⟩
    · rw [ha] at ha₀
      cases ha₀
      rw [hstage]
      by_contra hadmitted
      rw [had (Bool.not_eq_false _ ▸ hadmitted)] at hnot
      cases hnot
    · rw [hstage]
      exact hnot

/-- The line of those who wait makes no difference. -/
theorem InOrder.putters {q : WaitQueue (Option AofItem) Putter} (h : InOrder st)
    (hq : q.items = st.queue.items) : InOrder { st with queue := q } := by
  refine ⟨h.opened, h.clean, ?_, ?_⟩
  · show Calls st.appends st.enqueued (pending st.writer q.items) (Covered st)
    rw [hq]
    exact h.calls
  · obtain ⟨k, m, hp⟩ := h.place
    refine ⟨k, m, hp.written, hp.le, hp.bound, ?_, hp.writer⟩
    show q.items = _ ∨ q.items = _ ∧ _
    rw [hq]
    exact hp.rest

/-- Appends are woken. -/
theorem InOrder.wake (h : InOrder st) (p : Option Putter) : InOrder (st.wake p) := by
  obtain ⟨l, c, heq, hcarried, -, hkept⟩ := wake_spec st p
  rw [heq]
  refine ⟨h.opened, h.clean, h.calls.carried hcarried (List.Sublist.refl _) ?_, ?_⟩
  · intro x a _ ha hstage
    exact hkept ha hstage
  · obtain ⟨k, m, hp⟩ := h.place
    refine ⟨k, m, hp.written, hp.le, hp.bound, ?_, hp.writer⟩
    exact hp.rest.imp_right (And.imp_right (And.imp_right (noneAdmitted_carried hcarried)))

/-- The place of the writer does not depend on what is put behind it. -/
theorem AtItem.enqueue {c : Prop} {k m : ℕ} {w : WriterStage} (h : AtItem es c k m w)
    (x : AofItem) : AtItem (es ++ [x]) c k m w := by
  have hkept : ∀ {n : ℕ} {y : AofItem}, es[n]? = some y → (es ++ [x])[n]? = some y := by
    intro n y hn
    rw [List.getElem?_append_left (List.getElem?_eq_some_iff.mp hn).1]
    exact hn
  have hlast : ∀ {y : AofItem}, (m = k ∧ ∃ n, k = n + 1 ∧ es[n]? = some y) →
      m = k ∧ ∃ n, k = n + 1 ∧ (es ++ [x])[n]? = some y := by
    rintro y ⟨hm, n, hk, hn⟩
    exact ⟨hm, n, hk, hkept hn⟩
  cases w with
  | getting => exact h
  | ended raised => trivial
  | writing y call =>
    cases call with
    | running => exact ⟨h.1, hkept h.2⟩
    | ended raised =>
      cases raised with
      | none => exact hlast h
      | some e => trivial
  | syncing y call =>
    cases call with
    | running => exact hlast h
    | ended raised =>
      cases raised with
      | none => exact ⟨hlast h.1, h.2⟩
      | some e => trivial

/-- **A put** adds the item at the end of the queue and of the order.
SOURCE: persistence/aof.py:179-186 -/
theorem InOrder.putItem (h : InOrder st) (ha : st.appends[id]? = some a)
    (had : a.stage.admitted = true) : InOrder (st.putItem id a.argv) := by
  have hq : a.stage ≠ .queued := by
    intro hstage
    rw [hstage] at had
    cases had
  unfold AofTasks.putItem
  split_ifs with hfull
  · exact InOrder.own (h.putters rfl) ha hq trivial (fun _ => had)
  · obtain ⟨k, m, hp⟩ := h.place
    have hrest : st.queue.items = (st.enqueued.drop m).map some := by
      rcases hp.rest with hrest | ⟨-, -, hnone⟩
      · exact hrest
      · rw [noneAdmitted_iff.mp hnone ha] at had
        cases had
    refine ⟨h.opened, h.clean, ?_, k, m, ?_, hp.le, ?_, Or.inl ?_, hp.writer.enqueue _⟩
    · have hcalls := h.calls.put ha had
      rw [← pending_concat] at hcalls
      apply hcalls.mono
      intro j hj
      exact Covered.mono hj rfl (List.prefix_append _ _) (List.prefix_refl _)
        (Or.inl (Nat.le_refl _))
    · show st.written = records ((st.enqueued ++ [_]).take k)
      rw [List.take_append_of_le_length (hp.le.trans hp.bound)]
      exact hp.written
    · exact hp.bound.trans (List.prefix_append _ _).length_le
    · show st.queue.items ++ [some _] = ((st.enqueued ++ [_]).drop m).map some
      rw [List.drop_append_of_le_length hp.bound, List.map_append, hrest]
      rfl

/-- SOURCE: persistence/aof.py:182-185 -/
theorem InOrder.timeOut (h : InOrder st) (ha : st.appends[id]? = some a)
    (had : a.stage.admitted = true) : InOrder (st.timeOut id a.stage) := by
  have hdone : InOrder (st.update id fun _ =>
      .done (some (.osError "AOF queue is full".toList))) := by
    refine h.own ha ?_ ?_ ?_
    · intro hstage
      rw [hstage] at had
      cases had
    · trivial
    · exact nofun
  unfold AofTasks.timeOut
  cases a.stage with
  | waiting => exact hdone.putters rfl
  | woken =>
    dsimp only [AofTasks.passOn]
    split_ifs with hfull
    · exact hdone
    · apply InOrder.wake
      exact hdone.putters rfl
  | _ => exact hdone

/-- The only call that `append` returns from is the one that is done without an error. -/
theorem mem_returned {j : ℕ} (h : j ∈ st.returned id) :
    j = id ∧ ∃ a, st.appends[id]? = some a ∧ a.stage = .done none := by
  unfold AofTasks.returned at h
  split_ifs at h with hstage
  · exact ⟨List.mem_singleton.mp h, Option.map_eq_some_iff.mp hstage⟩
  · cases h

/-- Passing the lock on ends no append. -/
theorem carried_passOn (st : AofTasks) : Carried st.appends st.passOn.appends := by
  unfold AofTasks.passOn
  split_ifs with hfull
  · exact Carried.refl _
  · obtain ⟨l, c, heq, hcarried, -, -⟩ :=
      wake_spec { st with queue := st.queue.wakeupNext.2 } st.queue.wakeupNext.1
    rw [heq]
    exact hcarried

/-- A call that timed out ends with an error. -/
theorem timeOut_stage (ha : st.appends[id]? = some a) (s : AppendStage) :
    ∃ a' e, (st.timeOut id s).appends[id]? = some a' ∧ a'.stage = .done (some e) := by
  have hdone := getElem?_update_self (f := fun _ =>
    .done (some (.osError "AOF queue is full".toList))) ha
  unfold AofTasks.timeOut
  cases s with
  | waiting => exact ⟨_, _, hdone, rfl⟩
  | woken =>
    obtain ⟨a', ha', -, hmoved⟩ := (carried_passOn _).kept hdone
    refine ⟨a', .osError "AOF queue is full".toList, ha', ?_⟩
    generalize a'.stage = s' at hmoved ⊢
    cases hmoved
    rfl
  | _ => exact ⟨_, _, hdone, rfl⟩

/-- **A step of an append**; one that returns normally is covered.
SOURCE: persistence/aof.py:167-186 -/
theorem InOrder.stepAppend {e : AppendStep} (h : InOrder st) (ha : st.appends[id]? = some a)
    (hs : st.stepAppend id a e = some st') :
    InOrder st' ∧ ∀ j ∈ st'.returned id, Covered st' j := by
  have hsound := h.calls.sound ha
  cases e with
  | put =>
    have had : a.stage.admitted = true ∧ st' = st.putItem id a.argv := by
      simp only [AofTasks.stepAppend] at hs
      split at hs
      · rename_i hstage
        cases hs
        exact ⟨by rw [hstage]; rfl, rfl⟩
      · rename_i hstage
        cases hs
        exact ⟨by rw [hstage]; rfl, rfl⟩
      · cases hs
    obtain ⟨had, rfl⟩ := had
    refine ⟨h.putItem ha had, ?_⟩
    intro j hj
    obtain ⟨-, a', ha', hdone⟩ := mem_returned hj
    unfold AofTasks.putItem at ha'
    split_ifs at ha' with hfull
    · obtain ⟨b, -, -, hstage⟩ := of_getElem?_update ha'
      rcases hstage with ⟨-, hstage⟩ | ⟨hne, -⟩
      · rw [hdone] at hstage
        cases hstage
      · exact absurd rfl hne
    · obtain ⟨b, -, -, hstage⟩ := of_getElem?_update ha'
      rcases hstage with ⟨-, hstage⟩ | ⟨hne, -⟩
      · rw [hdone] at hstage
        cases hstage
      · exact absurd rfl hne
  | timeout =>
    simp only [AofTasks.stepAppend] at hs
    split_ifs at hs with had
    cases hs
    refine ⟨h.timeOut ha had, ?_⟩
    intro j hj
    obtain ⟨-, a', ha', hdone⟩ := mem_returned hj
    obtain ⟨b, e, hb, hstage⟩ := timeOut_stage ha a.stage
    rw [ha'] at hb
    cases hb
    rw [hdone] at hstage
    cases hstage
  | thread fault =>
    simp only [AofTasks.stepAppend] at hs
    split at hs
    · rename_i hstage
      rw [hstage] at hsound
      exact hsound.elim
    · rename_i hstage
      rw [hstage] at hsound
      exact hsound.elim
    · cases hs
  | resume =>
    simp only [AofTasks.stepAppend] at hs
    split at hs
    · rename_i raised hstage
      cases hs
      refine ⟨?_, ?_⟩
      · refine h.own ha ?_ ?_ ?_
        · rw [hstage]
          exact nofun
        · trivial
        · exact nofun
      · intro j hj
        obtain ⟨rfl, a', ha', hdone⟩ := mem_returned hj
        rw [getElem?_update_self ha] at ha'
        cases ha'
        cases hdone
        rw [hstage] at hsound
        exact hsound
    · rename_i hstage
      rw [hstage] at hsound
      exact hsound.elim
    · rename_i hstage
      rw [hstage] at hsound
      exact hsound.elim
    · rename_i hstage
      rw [hstage] at hsound
      exact hsound.elim
    · cases hs

/-! ## Steps of the writer -/

/-- The first item of the queue is the next one in the order. -/
theorem Place.next {k m : ℕ} {item : Option AofItem} {items : List (Option AofItem)}
    (hp : Place st k m) (hitems : st.queue.items = item :: items) :
    ∃ x, item = some x ∧ st.enqueued[m]? = some x ∧ items = (st.enqueued.drop (m + 1)).map some ∧
      m + 1 ≤ st.enqueued.length := by
  rcases hp.rest with hrest | ⟨hempty, -, -⟩
  · rw [hitems] at hrest
    cases hdrop : st.enqueued.drop m with
    | nil =>
      rw [hdrop] at hrest
      cases hrest
    | cons x rest =>
      rw [hdrop] at hrest
      obtain ⟨hx, hrest⟩ := List.cons.inj hrest
      have hm : st.enqueued[m]? = some x := by
        have := congrArg (fun l : List AofItem => l[0]?) hdrop
        simpa only [List.getElem?_drop, Nat.add_zero, List.getElem?_cons_zero] using this
      refine ⟨x, hx, hm, ?_, (List.getElem?_eq_some_iff.mp hm).1⟩
      rw [← List.tail_drop, hdrop]
      exact hrest
  · rw [hitems] at hempty
    cases hempty

/-- The writer takes the next item.
SOURCE: persistence/aof.py:104-106 -/
theorem InOrder.get {item : Option AofItem} {p : Option Putter}
    {q : WaitQueue (Option AofItem) Putter} (h : InOrder st) (hw : st.writer = .getting)
    (hget : st.queue.getNowait = some (item, p, q)) :
    ∃ x, item = some x ∧
      InOrder { { st with queue := q }.wake p with writer := .writing x .running } := by
  have hitems := WaitQueue.items_of_getNowait hget
  obtain ⟨l, c, heq, hcarried, -, hkept⟩ := wake_spec { st with queue := q } p
  obtain ⟨k, m, hp⟩ := h.place
  obtain ⟨x, rfl, hx, hrest, hbound⟩ := hp.next hitems
  have hat := hp.writer
  rw [hw] at hat
  cases hat
  refine ⟨x, rfl, ?_⟩
  rw [heq]
  refine ⟨h.opened, h.clean, ?_, k, k + 1, hp.written, Nat.le_succ _, hbound, Or.inl hrest,
    rfl, hx⟩
  have hpending : pending st.writer st.queue.items = pending (.writing x .running) q.items := by
    rw [hw, hitems]
    rfl
  have hcalls := h.calls
  rw [hpending] at hcalls
  exact hcalls.carried hcarried (List.Sublist.refl _) (fun _ ha hstage => hkept ha hstage)

/-- The record is written behind the ones before it.
SOURCE: persistence/aof.py:138-143 -/
theorem InOrder.write (h : InOrder st) (hw : st.writer = .writing x .running) :
    InOrder { st with
      written := st.written ++ x.payload
      dirty := true
      writer := .writing x (.ended none) } := by
  obtain ⟨k, m, hp⟩ := h.place
  have hat := hp.writer
  rw [hw] at hat
  obtain ⟨rfl, hx⟩ := hat
  have hwritten : st.written ++ x.payload = records (st.enqueued.take (k + 1)) := by
    rw [List.take_add_one, hx, records_append, ← hp.written]
    show _ = _ ++ records [x]
    rw [records, List.flatMap_singleton]
  refine ⟨h.opened, nofun, ?_, k + 1, k + 1, hwritten, Nat.le_refl _, hp.bound, hp.rest, rfl, k,
    rfl, hx⟩
  have hcalls := h.calls
  rw [hw] at hcalls
  apply hcalls.mono
  intro j hj
  exact Covered.mono hj rfl (List.prefix_refl _) (List.prefix_append _ _) (Or.inl (Nat.le_refl _))

/-- An fsync, of the writer or of the periodic task.
SOURCE: persistence/aof.py:145-151 -/
theorem InOrder.sync (h : InOrder st) :
    InOrder { st with synced := st.written.length, dirty := false } := by
  refine ⟨h.opened, fun _ => rfl, h.calls.mono ?_, ?_⟩
  · intro j hj
    exact Covered.mono hj rfl (List.prefix_refl _) (List.prefix_refl _) (Or.inr rfl)
  · obtain ⟨k, m, hp⟩ := h.place
    exact ⟨k, m, hp.written, hp.le, hp.bound, hp.rest, hp.writer.synced (fun _ => Nat.le_refl _)⟩

/-- The writer goes on with its item. -/
theorem InOrder.call {w : WriterStage} (h : InOrder st) (hheld : held w = held st.writer)
    (hat : ∀ k m, AtItem st.enqueued (st.written.length ≤ st.synced) k m st.writer →
      AtItem st.enqueued (st.written.length ≤ st.synced) k m w) :
    InOrder { st with writer := w } := by
  refine ⟨h.opened, h.clean, ?_, ?_⟩
  · show Calls st.appends st.enqueued (pending w st.queue.items) (Covered st)
    rw [pending, hheld]
    exact h.calls
  · obtain ⟨k, m, hp⟩ := h.place
    exact ⟨k, m, hp.written, hp.le, hp.bound, hp.rest, hat k m hp.writer⟩

/-- **The record is in the file** when the writer says so.
SOURCE: persistence/aof.py:107-119 -/
theorem InOrder.completeItem (h : InOrder st) (hw : st.writer = .writing x (.ended none) ∧
      st.policy ≠ .always ∨ st.writer = .syncing x (.ended none)) :
    InOrder (st.completeItem x) := by
  obtain ⟨k, m, hp⟩ := h.place
  have hheld : held st.writer = some x := by
    rcases hw with ⟨hw, -⟩ | hw
    · rw [hw]
      rfl
    · rw [hw]
      rfl
  have hat : (m = k ∧ ∃ n, k = n + 1 ∧ st.enqueued[n]? = some x) ∧
      (st.policy = .always → st.written.length ≤ st.synced) := by
    have hat := hp.writer
    rcases hw with ⟨hw, hpolicy⟩ | hw
    · rw [hw] at hat
      exact ⟨hat, fun halways => absurd halways hpolicy⟩
    · rw [hw] at hat
      exact ⟨hat.1, fun _ => hat.2⟩
  obtain ⟨⟨rfl, n, rfl, hx⟩, hsynced⟩ := hat
  have hcovered : Covered st x.completed := by
    refine ⟨n, x, hx, rfl, ?_, ?_⟩
    · exact ⟨[], (List.append_nil _).trans hp.written.symm⟩
    · rw [← hp.written]
      exact hsynced
  have hcalls := h.calls
  rw [pending_of_held hheld] at hcalls
  refine ⟨h.opened, h.clean, hcalls.resolve (fun _ => hcovered), n + 1, n + 1, hp.written,
    Nat.le_refl _, hp.bound, ?_, rfl⟩
  exact hp.rest.imp_right
    (And.imp_right (And.imp_right (noneAdmitted_update (resolve_admitted none))))

/-- The writer fails: nothing is on the way any more.
SOURCE: persistence/aof.py:111-117 -/
theorem InOrder.failItem (h : InOrder st) (hheld : held st.writer = some x) (e : Raised) :
    InOrder (st.failItem x e) := by
  obtain ⟨k, m, hp⟩ := h.place
  have hcalls := h.calls
  rw [pending_of_held hheld] at hcalls
  cases e with
  | valueError =>
    refine ⟨h.opened, h.clean, ?_, k, m, hp.written, hp.le, hp.bound, hp.rest, trivial⟩
    exact hcalls.carried (Carried.refl _) (List.sublist_cons_self _ _)
      (fun _ ha hstage => ⟨_, ha, hstage⟩)
  | osError text =>
    obtain ⟨q, l, c, heq, hempty, hdrained⟩ := failPending_spec
      ({ st with failure := some text }.update x.completed (.resolve (some (.osError text)))) text
    have hitems : q.items = [] := hempty h.opened.2.1
    have hresolved : Calls ({ st with failure := some text }.update x.completed
        (.resolve (some (.osError text)))).appends st.enqueued st.queue.items.reduceOption
        (Covered st) := by
      refine Calls.resolve ?_ nofun
      exact hcalls
    unfold AofTasks.failItem
    dsimp only
    rw [heq]
    refine ⟨h.opened, h.clean, ?_, k, st.enqueued.length, hp.written, hp.le.trans hp.bound,
      Nat.le_refl _, Or.inl ?_, trivial⟩
    · show Calls l st.enqueued (pending (.ended none) q.items) (Covered st)
      rw [hitems]
      exact hresolved.carried hdrained.carried (List.nil_sublist _) nofun
    · show q.items = (st.enqueued.drop st.enqueued.length).map some
      rw [hitems, List.drop_length]
      rfl

/-- SOURCE: persistence/aof.py:100-125 -/
theorem InOrder.stepWriter {e : WriterStep} (h : InOrder st) (hs : st.stepWriter e = some st') :
    InOrder st' := by
  cases e with
  | get =>
    simp only [AofTasks.stepWriter] at hs
    split at hs
    · rename_i hw
      obtain ⟨⟨item, p, q⟩, hget, rfl⟩ := Option.map_eq_some_iff.mp hs
      obtain ⟨x, rfl, hkept⟩ := h.get hw hget
      exact hkept
    · cases hs
  | thread fault =>
    simp only [AofTasks.stepWriter] at hs
    split at hs
    · rename_i x hw
      cases hs
      rcases writeSync_cases st x.payload fault with hwrite | ⟨e, hwrite, -⟩
      · rw [hwrite]
        exact h.write hw
      · rw [hwrite]
        apply h.call
        · rw [hw]
          rfl
        · exact fun _ _ _ => trivial
    · rename_i x hw
      cases hs
      rcases fsyncSync_cases st fault with ⟨hsync, hclean⟩ | hsync | ⟨e, hsync, -⟩
      · rw [hsync]
        apply h.call
        · rw [hw]
          rfl
        · intro k m hat
          rw [hw] at hat
          rcases hclean with hclean | hnone
          · exact ⟨hat, Nat.le_of_eq (h.clean hclean).symm⟩
          · exact absurd hnone h.opened.1
      · rw [hsync]
        apply h.sync.call
        · show held _ = held st.writer
          rw [hw]
          rfl
        · intro k m hat
          have hat' : AtItem st.enqueued (st.written.length ≤ st.written.length) k m
              st.writer := hat
          rw [hw] at hat'
          exact ⟨hat', Nat.le_refl _⟩
      · rw [hsync]
        apply h.call
        · rw [hw]
          rfl
        · exact fun _ _ _ => trivial
    · cases hs
  | resume =>
    simp only [AofTasks.stepWriter] at hs
    split at hs
    · rename_i x hw
      split_ifs at hs with hpolicy
      · cases hs
        apply h.call
        · rw [hw]
          rfl
        · intro k m hat
          rw [hw] at hat
          exact hat
      · cases hs
        exact h.completeItem (Or.inl ⟨hw, hpolicy⟩)
    · rename_i x hw
      cases hs
      exact h.completeItem (Or.inr hw)
    · rename_i x e hw
      cases hs
      exact h.failItem (by rw [hw]; rfl) e
    · rename_i x e hw
      cases hs
      exact h.failItem (by rw [hw]; rfl) e
    · cases hs

/-! ## The other steps -/

/-- The items of the queue belong to other appends than the writer's own. -/
theorem Calls.held_ne {w : WriterStage} {items : List (Option AofItem)} {y : AofItem}
    (h : Calls l es (pending w items) covered) (hx : x ∈ (held w).toList)
    (hy : some y ∈ items) : y.completed ≠ x.completed := by
  have hdistinct := h.distinct
  rw [pending, List.map_append, List.nodup_append] at hdistinct
  have hy' : y ∈ items.reduceOption := List.reduceOption_mem_iff.2 hy
  exact (hdistinct.2.2 _ (List.mem_map_of_mem hx) _ (List.mem_map_of_mem hy')).symm

/-- **The periodic fsync fails** and empties the queue. The order keeps no gap when the queue
was empty, or when nothing comes behind what is dropped.
SOURCE: persistence/aof.py:159-163 -/
theorem InOrder.failPending (h : InOrder st) (text : Str)
    (hok : st.queue.items = [] ∨ noneAdmitted st = true) :
    InOrder ({ st with failure := some text }.failPending text) := by
  obtain ⟨q, l, c, heq, hempty, hdrained⟩ :=
    failPending_spec { st with failure := some text } text
  have hitems : q.items = [] := hempty h.opened.2.1
  rw [heq]
  refine ⟨h.opened, h.clean, ?_, ?_⟩
  · show Calls l st.enqueued (pending st.writer q.items) (Covered st)
    have hpending : pending st.writer q.items = (held st.writer).toList := by
      rw [pending, hitems]
      exact List.append_nil _
    rw [hpending]
    apply h.calls.carried hdrained.carried (List.sublist_append_left _ _)
    intro x a hx ha hstage
    apply hdrained.others ha hstage
    intro item hitem
    exact h.calls.held_ne hx hitem
  · obtain ⟨k, m, hp⟩ := h.place
    refine ⟨k, m, hp.written, hp.le, hp.bound, ?_, hp.writer⟩
    rcases hok with hok | hok
    · rcases hp.rest with hrest | ⟨-, -, hnone⟩
      · refine Or.inl ?_
        rw [← hrest, hok]
        exact hitems
      · exact Or.inr ⟨hitems, rfl, noneAdmitted_carried hdrained.carried hnone⟩
    · exact Or.inr ⟨hitems, rfl, noneAdmitted_carried hdrained.carried hok⟩

/-- Where the periodic fsync stands makes no difference. -/
theorem InOrder.fsyncLoop (h : InOrder st) (f : FsyncStage) :
    InOrder { st with fsyncLoop := f } := by
  obtain ⟨k, m, hp⟩ := h.place
  exact ⟨h.opened, h.clean, h.calls, k, m, hp.written, hp.le, hp.bound, hp.rest, hp.writer⟩

/-- SOURCE: persistence/aof.py:153-165 -/
theorem InOrder.stepFsync {e : FsyncStep} (h : InOrder st)
    (hok : leavesNoGap st (.fsyncLoop e) = true) (hs : st.stepFsync e = some st') :
    InOrder st' := by
  cases e with
  | wake =>
    simp only [AofTasks.stepFsync] at hs
    split at hs
    · cases hs
      exact h.fsyncLoop _
    · cases hs
  | thread fault =>
    simp only [AofTasks.stepFsync] at hs
    split at hs
    · cases hs
      rcases fsyncSync_cases st fault with ⟨hsync, -⟩ | hsync | ⟨e, hsync, -⟩
      · rw [hsync]
        exact h.fsyncLoop _
      · rw [hsync]
        exact h.sync.fsyncLoop _
      · rw [hsync]
        exact h.fsyncLoop _
    · cases hs
  | resume =>
    simp only [AofTasks.stepFsync] at hs
    split at hs
    · cases hs
      exact h.fsyncLoop _
    · rename_i text hfsync
      cases hs
      simp only [leavesNoGap, hfsync, Bool.or_eq_true, List.isEmpty_iff] at hok
      exact (h.failPending text hok).fsyncLoop _
    · cases hs
      exact h.fsyncLoop _
    · cases hs

/-- **A rewrite while no append is outstanding** keeps the file, or starts a new one with
nothing on the way to it.
SOURCE: persistence/aof.py:196-216 -/
theorem InOrder.replace (h : InOrder st) (hr : Rewritten st st')
    (hidle : ∀ {j : ℕ} {a : Append}, st.appends[j]? = some a → ∃ raised, a.stage = .done raised) :
    InOrder st' := by
  obtain ⟨k, m, hp⟩ := h.place
  cases hr with
  | kept handle n hnone hn =>
    refine ⟨⟨fun hh => h.opened.1 (hnone hh), h.opened.2⟩, ?_, ?_, k, m, hp.written, hp.le,
      hp.bound, hp.rest, ?_⟩
    · intro hclean
      rcases hn with hn | hn
      · exact hn.trans (h.clean hclean)
      · exact hn
    · apply h.calls.mono
      intro j hj
      exact Covered.mono hj rfl (List.prefix_refl _) (List.prefix_refl _)
        (hn.imp_left fun hn => Nat.le_of_eq hn.symm)
    · apply hp.writer.synced
      intro hle
      rcases hn with hn | hn
      · exact hle.trans (Nat.le_of_eq hn.symm)
      · exact Nat.le_of_eq hn.symm
  | replaced payload handle d hnone =>
    have hpending : pending st.writer st.queue.items = [] := by
      apply List.eq_nil_iff_forall_not_mem.mpr
      intro x hx
      obtain ⟨a, ha, hqueued⟩ := h.calls.queued hx
      obtain ⟨raised, hdone⟩ := hidle ha
      rw [hdone] at hqueued
      cases hqueued
    obtain ⟨hheld, hqueue⟩ := List.append_eq_nil_iff.mp hpending
    have hitems : st.queue.items = [] := by
      rcases hp.rest with hrest | ⟨hempty, -, -⟩
      · rw [hrest] at hqueue ⊢
        cases hdrop : st.enqueued.drop m with
        | nil => rfl
        | cons x rest =>
          rw [hdrop, List.map_cons, List.reduceOption_cons_of_some] at hqueue
          cases hqueue
      · exact hempty
    refine ⟨⟨fun hh => h.opened.1 (hnone hh), h.opened.2⟩, fun _ => rfl, ?_, 0, 0, rfl,
      Nat.le_refl _, Nat.le_refl _, Or.inl hitems, ?_⟩
    · show Calls st.appends [] (pending st.writer st.queue.items) _
      rw [hpending]
      refine ⟨⟨nofun, List.nodup_nil⟩, nofun, List.nodup_nil, ?_⟩
      intro j a hj
      obtain ⟨raised, hdone⟩ := hidle hj
      rw [hdone]
      trivial
    · show AtItem [] _ 0 0 st.writer
      cases hw : st.writer with
      | getting => rfl
      | ended raised => trivial
      | writing x call =>
        rw [hw] at hheld
        cases hheld
      | syncing x call =>
        rw [hw] at hheld
        cases hheld

/-! ## Runs -/

/-- **Every step that leaves no gap keeps the order**, and who returns is covered. -/
theorem InOrder.step {action : AofAction} {returned : List ℕ} (h : InOrder st)
    (hscope : inScope st action = true) (hok : leavesNoGap st action = true)
    (hs : st.step action = some (st', returned)) :
    InOrder st' ∧ ∀ j ∈ returned, Covered st' j := by
  cases action with
  | start argv =>
    cases hs
    refine ⟨h.startAppend argv, ?_⟩
    intro j hj
    obtain ⟨-, a, ha, hdone⟩ := mem_returned hj
    obtain ⟨s, heq, hstart⟩ := startAppend_spec st argv
    rw [heq] at ha
    rw [List.getElem?_concat_length] at ha
    cases ha
    cases hdone
    cases hstart with
    | returned hnone => exact absurd hnone h.opened.1
  | append id e =>
    obtain ⟨a, ha, hs⟩ := Option.bind_eq_some_iff.mp hs
    obtain ⟨st₁, hstep, heq⟩ := Option.map_eq_some_iff.mp hs
    cases heq
    exact h.stepAppend ha hstep
  | writer e =>
    obtain ⟨st₁, hstep, heq⟩ := Option.map_eq_some_iff.mp hs
    cases heq
    exact ⟨h.stepWriter hstep, nofun⟩
  | fsyncLoop e =>
    obtain ⟨st₁, hstep, heq⟩ := Option.map_eq_some_iff.mp hs
    cases heq
    exact ⟨h.stepFsync hok hstep, nofun⟩
  | replace payload outcome =>
    cases hs
    refine ⟨h.replace (replaceFileSync_spec st payload outcome) ?_, nofun⟩
    intro j a hj
    have hdone := List.all_eq_true.mp hscope a (List.mem_of_getElem? hj)
    split at hdone
    · rename_i raised hstage
      exact ⟨raised, hstage⟩
    · cases hdone
  | close e => cases hscope

/-- A log that was just opened is in order. -/
theorem inOrder_started (policy : AofFsync) (queueMax : ℕ) (base : Bytes) :
    InOrder (.started policy queueMax base) := by
  refine ⟨⟨nofun, rfl, rfl⟩, fun _ => rfl, ?_, 0, 0, rfl, Nat.le_refl _, Nat.le_refl _,
    Or.inl rfl, rfl⟩
  exact ⟨⟨nofun, List.nodup_nil⟩, nofun, List.nodup_nil, nofun⟩

/-- A call that is covered has its record in the file. -/
theorem Covered.recorded (h : Covered st id) (he : Enrolled st.appends st.enqueued) :
    Recorded st id := by
  obtain ⟨n, x, hn, rfl, hin, hsynced⟩ := h
  obtain ⟨a, ha, hpayload, -⟩ := he.item (List.mem_of_getElem? hn)
  exact ⟨n, x, a, hn, rfl, ha, hpayload, hin, hsynced⟩

/-- **Acknowledged means durable**, in every run in which the periodic fsync fails only when
the queue is empty or nobody is on the way into it: what was written since the file was opened
or replaced is a prefix of what was enqueued since, and an append that returns normally has
its record in the file, under `always` in the part that a completed fsync covers.
SOURCE: persistence/aof.py:100-216 -/
theorem acknowledged_durable {policy : AofFsync} {queueMax : ℕ} {base : Bytes}
    {acked : List ℕ}
    (hrun : Runs AofTasks.step (fun st a => inScope st a = true ∧ leavesNoGap st a = true)
      (.started policy queueMax base) acked st) :
    Logged st ∧ ∀ action st' returned, inScope st action = true → leavesNoGap st action = true →
      st.step action = some (st', returned) → ∀ id ∈ returned, Recorded st' id := by
  have hkept : InOrder st :=
    hrun.invariant (I := fun _ st => InOrder st) (inOrder_started policy queueMax base)
      (fun h hok hs => (h.step hok.1 hok.2 hs).1)
  refine ⟨hkept.logged, ?_⟩
  intro action st' returned hscope hok hs id hid
  obtain ⟨hnext, hcovered⟩ := hkept.step hscope hok hs
  exact (hcovered id hid).recorded hnext.calls.enrolled

/-- A record, a rewrite and a second record under `always`, up to the return. -/
theorem acknowledged_durable_rewritten :
    ∃ st st', Runs AofTasks.step (fun st a => inScope st a = true ∧ leavesNoGap st a = true)
        (.started .always 1 []) [0] st ∧ st.written = encodeCommand [ascii "B"] ∧ Logged st ∧
      st.step (.append 1 .resume) = some (st', [1]) ∧ Recorded st' 1 := by
  have hend : (runAll AofTasks.step (fun st a => inScope st a = true ∧ leavesNoGap st a = true)
      [.start [ascii "A"], .append 0 .put, .writer .get, .writer (.thread none), .writer .resume,
        .writer (.thread none), .writer .resume, .append 0 .resume,
        .replace (ascii "rewritten") .replaced,
        .start [ascii "B"], .append 1 .put, .writer .get, .writer (.thread none), .writer .resume,
        .writer (.thread none), .writer .resume] (.started .always 1 [])).map
        (fun q => (q.1, q.2.written, (q.2.step (.append 1 .resume)).map Prod.snd)) =
      some ([0], encodeCommand [ascii "B"], some [1]) := by
    decide +kernel
  obtain ⟨st, hrun, hview⟩ := exists_runs (fun st : AofTasks =>
    (st.written, (st.step (.append 1 .resume)).map Prod.snd)) hend
  obtain ⟨hwritten, hstep⟩ := Prod.mk.inj hview
  obtain ⟨⟨st', returned⟩, hstep, rfl⟩ := Option.map_eq_some_iff.mp hstep
  obtain ⟨hlogged, hrecorded⟩ := acknowledged_durable hrun
  exact ⟨st, st', hrun, hwritten, hlogged, hstep,
    hrecorded _ st' _ rfl rfl hstep 1 (List.mem_singleton.mpr rfl)⟩

/-- The queue has one place. A is written, B has the place and C waits in line when the
periodic fsync fails: B is dropped, and the writer, which goes on, writes C behind A. -/
theorem acknowledged_durable_gap :
    ∃ acked st, Runs AofTasks.step (fun st a => inScope st a = true) (.started .everysec 1 [])
        acked st ∧
      st.written = encodeCommand [ascii "A"] ++ encodeCommand [ascii "C"] ∧ ¬ Logged st := by
  have hend : (runAll AofTasks.step (fun st a => inScope st a = true)
      [.start [ascii "A"], .append 0 .put, .writer .get, .start [ascii "B"], .append 1 .put,
        .start [ascii "C"], .append 2 .put, .writer (.thread none), .fsyncLoop .wake,
        .fsyncLoop (.thread (some "I/O error".toList)), .fsyncLoop .resume, .append 2 .put,
        .writer .resume, .writer .get, .writer (.thread none), .writer .resume,
        .append 0 .resume, .append 2 .resume] (.started .everysec 1 [])).map
        (fun q => (q.1, q.2.written, q.2.enqueued.map AofItem.payload)) =
      some ([0, 2], encodeCommand [ascii "A"] ++ encodeCommand [ascii "C"],
        [encodeCommand [ascii "A"], encodeCommand [ascii "B"], encodeCommand [ascii "C"]]) := by
    decide +kernel
  obtain ⟨st, hrun, hview⟩ := exists_runs (fun st : AofTasks =>
    (st.written, st.enqueued.map AofItem.payload)) hend
  obtain ⟨hwritten, henqueued⟩ := Prod.mk.inj hview
  refine ⟨[0, 2], st, hrun, hwritten, ?_⟩
  rintro ⟨⟨k, hk⟩, -⟩
  have hflat : records (st.enqueued.take k) =
      ((st.enqueued.map AofItem.payload).take k).flatten := by
    rw [records, List.flatMap_def, List.map_take]
  rw [hwritten, hflat, henqueued] at hk
  match k with
  | 0 => exact absurd hk (by decide +kernel)
  | 1 => exact absurd hk (by decide +kernel)
  | 2 => exact absurd hk (by decide +kernel)
  | k + 3 =>
    rw [List.take_of_length_le (Nat.le_add_left 3 k)] at hk
    exact absurd hk (by decide +kernel)

end ByoRedis.Analysis
