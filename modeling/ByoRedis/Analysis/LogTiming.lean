import ByoRedis.Analysis.LogReplay
import ByoRedis.Lib.Prefixes

/-!
# Replaying a log at another time

A log records `EX` and `EXPIRE` in seconds from the time of execution, and a key that has
expired by the time of the replay is absent there. `log_timing` says exactly which
commands survive being applied late: at every point of a run the live keyspaces of the
original and of the replaying server agree from then on if and only if every accepted
command was `OnTime`.

Keyspaces are compared by lookup: the order of keys is not part of what a client sees.
-/

set_option autoImplicit false

namespace ByoRedis.Analysis

open ByoRedis.Model ByoRedis.Lib ByoRedis.Interface

/-! ## Entries seen at a time -/

/-- What is left at time `t` of an entry: itself, or nothing once its deadline has passed. -/
def view (t : ℤ) (e : Option KeyEntry) : Option KeyEntry :=
  e.filter fun e => !isExpired e.expireAtMs t

/-- What has expired stays so. -/
theorem isExpired_mono {x : Option ℤ} {t t' : ℤ} (h : t ≤ t') (hx : isExpired x t = true) :
    isExpired x t' = true := by
  cases x with
  | none => cases hx
  | some d =>
    simp only [isExpired, decide_eq_true_eq] at hx ⊢
    omega

/-- An entry that has not expired is in view. -/
theorem view_some_of_live {t : ℤ} {e : KeyEntry} (h : isExpired e.expireAtMs t = false) :
    view t (some e) = some e := by
  simp [view, Option.filter, h]

/-- An entry that has expired is not in view. -/
theorem view_some_of_expired {t : ℤ} {e : KeyEntry} (h : isExpired e.expireAtMs t = true) :
    view t (some e) = none := by
  simp [view, Option.filter, h]

/-- What is in view is the entry itself. -/
theorem eq_of_view_some {t : ℤ} {e f : KeyEntry} (h : view t (some e) = some f) : e = f := by
  simp only [view, Option.filter_eq_some_iff, Option.some.injEq] at h
  exact h.1

/-- A key that is not there is not in view. -/
@[simp] theorem view_none (t : ℤ) : view t none = none := rfl

/-- A later look sees no more than an earlier one. -/
theorem view_view {t t' : ℤ} (h : t ≤ t') (x : Option KeyEntry) :
    view t' (view t x) = view t' x := by
  cases x with
  | none => rfl
  | some e =>
    cases hx : isExpired e.expireAtMs t with
    | false => rw [view_some_of_live hx]
    | true => rw [view_some_of_expired hx, view_some_of_expired (isExpired_mono h hx), view_none]

/-- A snapshot has what is in view. -/
theorem get?_live (s : Store) (t : ℤ) (k : Bytes) :
    (s.live t).get? k = view t (s.entries.get? k) := by
  rw [Store.live, Dict.get?_filter]
  rfl

/-! ## One change at two times -/

/-- When the change that `w` makes to the live entry `a` at time `t` may be made at `t'`
instead: a deadline is set at the same instant, unless the entry is gone either way; an
entry that is added to is still there. -/
def LateOk (t t' : ℤ) (a : Option KeyEntry) : Write → Prop
  | .set _ _ (some _) => t' = t
  | .expire _ n => a = none ∨ n ≤ 0 ∨ t' = t ∨ (view t' a = none ∧ t + n * 1000 ≤ t')
  | .lpush _ _ => view t' a = a
  | .hset _ _ => view t' a = a
  | _ => True

/-- An element put behind what is in view, or into a new list, looks the same at a later time
exactly when the old list is then still in view. -/
theorem view_append_eq_iff (t' : ℤ) {e : KeyEntry} (e' : KeyEntry) {f : KeyEntry}
    {a : Option KeyEntry} (ha : a = some e) (hx : e'.expireAtMs = e.expireAtMs)
    (hf : f.expireAtMs = none) :
    (view t' (some e') = view t' (if view t' a = a then some e' else some f)) ↔
      view t' a = a := by
  subst ha
  cases hexp : isExpired e.expireAtMs t' with
  | false => simp [view_some_of_live hexp]
  | true =>
    have he' : view t' (some e') = none := view_some_of_expired (by rw [hx]; exact hexp)
    have hf' : view t' (some f) = some f := view_some_of_live (by rw [hf]; rfl)
    simp [view_some_of_expired hexp, he', hf']

/-- A deadline that is set is seen at the same instant only.
SOURCE: storage/store.py:129-139 -/
theorem view_set_eq_iff {t t' : ℤ} (key value : Bytes) {n : ℤ} (hn : 0 < n)
    (a b : Option KeyEntry) :
    view t' (((Write.set key value (some n)).change t a).result a) =
        view t' (((Write.set key value (some n)).change t' b).result b) ↔
      t' = t := by
  simp only [Write.change, Change.result, Option.map_some]
  have hlive : isExpired (some (t' + n * 1000)) t' = false := by
    simp only [isExpired, decide_eq_false_iff_not]
    omega
  have hlate := view_some_of_live (t := t') (e := { type := .string, value := .bytes value,
                                                    expireAtMs := some (t' + n * 1000) }) hlive
  rw [hlate]
  constructor
  · intro h
    have hdead := congrArg KeyEntry.expireAtMs (eq_of_view_some h)
    simp only [Option.some.injEq] at hdead
    omega
  · rintro rfl
    exact hlate

/-- EXPIRE with seconds left, on an entry that the replaying server does not see any more: it
must be gone on the original too. -/
theorem view_expire_gone_iff {t t' : ℤ} (e : KeyEntry) (key : Bytes) {n : ℤ} (hn : ¬ n ≤ 0) :
    view t' (((Write.expire key n).change t (some e)).result (some e)) =
        view t' (((Write.expire key n).change t' none).result none) ↔
      t + n * 1000 ≤ t' := by
  have hkeep : view t' (((Write.expire key n).change t' none).result none) = none := rfl
  have hset : ((Write.expire key n).change t (some e)).result (some e) =
      some (e.withDeadline (some (t + n * 1000))) := by
    simp [Write.change, hn, Change.result]
  rw [hkeep, hset]
  by_cases hle : t + n * 1000 ≤ t'
  · have hx : isExpired (e.withDeadline (some (t + n * 1000))).expireAtMs t' = true := by
      simpa [isExpired, KeyEntry.withDeadline] using hle
    rw [view_some_of_expired hx]
    simp [hle]
  · have hx : isExpired (e.withDeadline (some (t + n * 1000))).expireAtMs t' = false := by
      simpa [isExpired, KeyEntry.withDeadline] using hle
    rw [view_some_of_live hx]
    simp [hle]

/-- EXPIRE with seconds left, on an entry that both servers see. -/
theorem view_expire_live_iff {t t' : ℤ} (e : KeyEntry) (key : Bytes) {n : ℤ} (hn : ¬ n ≤ 0) :
    view t' (((Write.expire key n).change t (some e)).result (some e)) =
        view t' (((Write.expire key n).change t' (some e)).result (some e)) ↔
      t' = t := by
  have hset : ∀ s, ((Write.expire key n).change s (some e)).result (some e) =
      some (e.withDeadline (some (s + n * 1000))) := by
    intro s
    simp [Write.change, hn, Change.result]
  have hx : isExpired (e.withDeadline (some (t' + n * 1000))).expireAtMs t' = false := by
    simp only [isExpired, KeyEntry.withDeadline, decide_eq_false_iff_not]
    omega
  rw [hset, hset, view_some_of_live hx]
  constructor
  · intro h
    have hdead := congrArg KeyEntry.expireAtMs (eq_of_view_some h)
    simp only [KeyEntry.withDeadline, Option.some.injEq] at hdead
    omega
  · rintro rfl
    exact view_some_of_live hx

/-- SOURCE: storage/store.py:97-106 -/
theorem view_expire_eq_iff {t t' : ℤ} (key : Bytes) (n : ℤ) {a : Option KeyEntry}
    (ha : view t a = a) :
    view t' (((Write.expire key n).change t a).result a) =
        view t' (((Write.expire key n).change t' (view t' a)).result (view t' a)) ↔
      LateOk t t' a (.expire key n) := by
  cases a with
  | none => simp [Write.change, Change.result, LateOk]
  | some e =>
    by_cases hn : n ≤ 0
    · have hnow : ((Write.expire key n).change t (some e)).result (some e) = none := by
        simp [Write.change, hn, Change.result]
      have hlater : ((Write.expire key n).change t' (view t' (some e))).result
          (view t' (some e)) = none := by
        cases hv : view t' (some e) <;> simp [Write.change, hn, Change.result]
      rw [hnow, hlater]
      simp [LateOk, hn]
    · cases hexp : isExpired e.expireAtMs t' with
      | true =>
        have hne : t' ≠ t := by
          rintro rfl
          rw [view_some_of_expired hexp] at ha
          cases ha
        rw [view_some_of_expired hexp, view_expire_gone_iff e key hn]
        simp only [LateOk, view_some_of_expired hexp, hn, hne, reduceCtorEq, false_or, true_and]
      | false =>
        rw [view_some_of_live hexp, view_expire_live_iff e key hn]
        simp only [LateOk, view_some_of_live hexp, hn, reduceCtorEq, false_or, false_and,
          or_false]

/-- SOURCE: storage/store.py:151-165 -/
theorem view_lpush_eq_iff {t t' : ℤ} {key : Bytes} {elements : List Bytes}
    {a : Option KeyEntry} (hr : (Write.lpush key elements).change t a ≠ .refuse) :
    view t' (((Write.lpush key elements).change t a).result a) =
        view t' (((Write.lpush key elements).change t' (view t' a)).result (view t' a)) ↔
      view t' a = a := by
  cases a with
  | none => exact ⟨fun _ => rfl, fun _ => rfl⟩
  | some e =>
    cases hv : e.value with
    | bytes b => exact absurd (by simp [Write.change, hv]) hr
    | dict m => exact absurd (by simp [Write.change, hv]) hr
    | deque items =>
      have h := view_append_eq_iff t' (e := e) (a := some e)
        { type := .list, value := .deque (Store.appendLeft items elements),
          expireAtMs := e.expireAtMs }
        (f := { type := .list, value := .deque (Store.appendLeft [] elements) }) rfl rfl rfl
      rw [← h]
      cases hexp : isExpired e.expireAtMs t' with
      | false => simp [Write.change, Change.result, hv, view_some_of_live hexp]
      | true => simp [Write.change, Change.result, hv, view_some_of_expired hexp]

/-- SOURCE: storage/store.py:186-203 -/
theorem view_hset_eq_iff {t t' : ℤ} {key : Bytes} {items : List (Bytes × Bytes)}
    {a : Option KeyEntry} (hr : (Write.hset key items).change t a ≠ .refuse) :
    view t' (((Write.hset key items).change t a).result a) =
        view t' (((Write.hset key items).change t' (view t' a)).result (view t' a)) ↔
      view t' a = a := by
  cases a with
  | none => exact ⟨fun _ => rfl, fun _ => rfl⟩
  | some e =>
    cases hv : e.value with
    | bytes b => exact absurd (by simp [Write.change, hv]) hr
    | deque l => exact absurd (by simp [Write.change, hv]) hr
    | dict m =>
      have h := view_append_eq_iff t' (e := e) (a := some e)
        { type := .hash, value := .dict (Store.hsetLoop m items).2,
          expireAtMs := e.expireAtMs }
        (f := { type := .hash, value := .dict (Store.hsetLoop Dict.empty items).2 }) rfl rfl rfl
      rw [← h]
      cases hexp : isExpired e.expireAtMs t' with
      | false => simp [Write.change, Change.result, hv, view_some_of_live hexp]
      | true => simp [Write.change, Change.result, hv, view_some_of_expired hexp]

/-- What RPOP leaves keeps its deadline, so it goes when the entry goes.
SOURCE: storage/store.py:167-183 -/
theorem view_rpop_eq {t t' : ℤ} {key : Bytes} {a : Option KeyEntry}
    (hr : (Write.rpop key).change t a ≠ .refuse) :
    view t' (((Write.rpop key).change t a).result a) =
      view t' (((Write.rpop key).change t' (view t' a)).result (view t' a)) := by
  cases a with
  | none => rfl
  | some e =>
    cases hexp : isExpired e.expireAtMs t' with
    | false =>
      rw [view_some_of_live hexp]
      rfl
    | true =>
      rw [view_some_of_expired hexp]
      show view t' _ = none
      cases hv : e.value with
      | bytes b => exact absurd (by simp [Write.change, hv]) hr
      | dict m => exact absurd (by simp [Write.change, hv]) hr
      | deque items =>
        by_cases hd : items.dropLast.isEmpty = true
        · simp [Write.change, Change.result, hv, hd]
        · simp only [Write.change, Change.result, hv, if_neg hd]
          exact view_some_of_expired hexp

/-- **One command on one key, at two times.** The entry `a` is live at `t`; at `t'` the
replaying server sees what is left of it.
SOURCE: storage/store.py:97-203 -/
theorem view_change_eq_iff {t t' : ℤ} {w : Write} (hw : FutureDeadline w)
    {a : Option KeyEntry} (ha : view t a = a) (hr : w.change t a ≠ .refuse) :
    view t' ((w.change t a).result a) =
        view t' ((w.change t' (view t' a)).result (view t' a)) ↔
      LateOk t t' a w := by
  cases w with
  | set key value ex =>
    cases ex with
    | none => simp [Write.change, Change.result, LateOk]
    | some n => exact view_set_eq_iff key value hw a (view t' a)
  | expire key n => exact view_expire_eq_iff key n ha
  | lpush key elements => exact view_lpush_eq_iff hr
  | hset key items => exact view_hset_eq_iff hr
  | rpop key =>
    simp only [LateOk, iff_true]
    exact view_rpop_eq hr
  | del keys => simp [Write.change, Change.result, LateOk]

/-- Whether a command is refused depends on the entry it finds, not on the time, and an
absent key is never refused. -/
theorem change_late_ne_refuse {t t' : ℤ} {w : Write} {a : Option KeyEntry}
    (h : w.change t a ≠ .refuse) : w.change t' (view t' a) ≠ .refuse := by
  have hnone : w.change t' none ≠ .refuse := by
    cases w <;> simp [Write.change]
  cases a with
  | none => exact hnone
  | some e =>
    cases hexp : isExpired e.expireAtMs t' with
    | true =>
      rw [view_some_of_expired hexp]
      exact hnone
    | false =>
      rw [view_some_of_live hexp]
      intro hr
      apply h
      cases w with
      | set key value ex => cases hr
      | expire key n =>
        simp only [Write.change] at hr
        split_ifs at hr
      | lpush key elements => exact hr
      | rpop key => exact hr
      | hset key items => exact hr
      | del keys => cases hr

/-- The same command is accepted late when it was accepted on time. -/
theorem effect_late {t t' : ℤ} {w : Write} {d d' r : Entries} (h : w.effect t d = some d')
    (hr : ∀ j, r.get? j = view t' (d.get? j)) : ∃ r', w.effect t' r = some r' := by
  rw [← Option.ne_none_iff_exists']
  intro hnone
  obtain ⟨key, hk, href⟩ := Write.effect_eq_none_iff.mp hnone
  rw [hr key] at href
  exact change_late_ne_refuse (Write.change_ne_refuse h (by rw [hk]; simp)) href

/-! ## Two servers -/

/-- The live keyspaces of two stores at time `t`, compared by lookup. -/
def Agree (t : ℤ) (s s' : Store) : Prop := ∀ k, (s.live t).get? k = (s'.live t).get? k

/-- Stores that agree at a time agree at every later time. -/
theorem Agree.mono {t t' : ℤ} {s s' : Store} (ht : t ≤ t') (h : Agree t s s') :
    Agree t' s s' := by
  intro k
  have hk := h k
  rw [get?_live, get?_live] at hk ⊢
  rw [← view_view ht (s.entries.get? k), hk, view_view ht]

/-- A client command on the original server, and the time at which the replaying server
applies its record. -/
structure TimedCall where
  call : Call
  later : ℤ

/-- The original and the replaying server side by side. -/
def sideBySide (flags : Flags) (m r : Server) : List TimedCall → Server × Server
  | [] => (m, r)
  | c :: cs =>
    let x := m.execute c.call.env .client c.call.conn c.call.argv []
    sideBySide flags x.server (applyLog flags (fun _ => c.later) x.records r) cs

/-- Both servers after one more call. -/
theorem sideBySide_snoc (flags : Flags) (m r : Server) (cs : List TimedCall) (c : TimedCall) :
    sideBySide flags m r (cs ++ [c]) =
      sideBySide flags (sideBySide flags m r cs).1 (sideBySide flags m r cs).2 [c] := by
  induction cs generalizing m r with
  | nil => rfl
  | cons c' cs ih => exact ih _ _

/-- The condition on one command in the state of the original server before it. -/
def OnTime (m : Server) (c : TimedCall) : Prop :=
  Accepted m c.call.env c.call.conn c.call.argv →
    ∀ w, Write.ofCommand c.call.argv = some w → ∀ key ∈ w.keys,
      LateOk c.call.env.now c.later ((m.store.live c.call.env.now).get? key) w

/-- A master without memory limit whose AOF takes every record, and a replaying server
without memory limit. -/
structure Unlimited (m r : Server) : Prop where
  role : m.config.isReplica = false
  healthy : Healthy m.config m.aof
  master : m.store.maxmemoryBytes = 0
  replica : r.store.maxmemoryBytes = 0

/-- **One command on both servers.** From agreeing keyspaces they come to agreeing
keyspaces exactly when the command was on time.
SOURCE: server.py:499-529, 577-578 -/
theorem agree_step {flags : Flags} (hf : flags.isReplicaClient = true) {m r : Server}
    (hu : Unlimited m r) (c : TimedCall) (hw : isWrite c.call.argv = true)
    (ht : c.call.env.now ≤ c.later) (h : Agree c.later m.store r.store) :
    (Agree c.later (sideBySide flags m r [c]).1.store (sideBySide flags m r [c]).2.store ↔
      OnTime m c) ∧
    Unlimited (sideBySide flags m r [c]).1 (sideBySide flags m r [c]).2 := by
  obtain ⟨⟨env, conn, argv⟩, later⟩ := c
  simp only at hw ht h
  obtain ⟨hstep, hsteady⟩ := execute_client env conn argv
    hu.role hu.healthy
  have hrole : (m.execute env .client conn argv []).server.config.isReplica = false := by
    rw [hsteady.config]
    exact hu.role
  have hm0 : (m.execute env .client conn argv []).server.store.maxmemoryBytes = 0 :=
    hsteady.limits.1.trans hu.master
  simp only [sideBySide]
  cases hstep with
  | silent hnot hrec hwrite hkeep =>
    rw [hrec]
    refine ⟨⟨fun _ hacc => absurd hacc hnot, fun _ => ?_⟩,
      ⟨hrole, hsteady.healthy hu.healthy, hm0, hu.replica⟩⟩
    intro k
    have hk := h k
    rw [get?_live, get?_live] at hk ⊢
    rcases hwrite hw with he | he
    · rw [he]
      exact hk
    · rw [he, get?_live, view_view ht]
      exact hk
  | logged d evicted hacc heff hlim hrec =>
    have hunl : evicted = [] := by
      obtain ⟨-, hsame, -⟩ := handled_spec hw heff
      rw [enforceMemoryLimit_unlimited (hsame.1.trans hu.master)] at hlim
      exact (Option.some.inj (Prod.mk.inj hlim).1).symm
    subst hunl
    obtain ⟨hent, -, -⟩ := accepted_spec hw heff hlim
    rw [Dict.eraseMany_nil] at hent
    obtain ⟨w, hof, hweff⟩ := effect_eq_some heff
    -- what the replaying server sees is what is left of what the original saw
    have hseen : ∀ j, (r.store.live later).get? j =
        view later ((m.store.live env.now).get? j) := by
      intro j
      rw [← h j, get?_live, get?_live, view_view ht]
    obtain ⟨r', hreff⟩ := effect_late hweff hseen
    have hrent := entries_execute_applied r { now := later } 0 hf hw
      hu.replica []
    have hreff' : effect later argv (r.store.live later) = some r' := by
      rw [effect, hof]
      exact hreff
    rw [hreff', Option.getD_some] at hrent
    obtain ⟨-, -, -, hrlim⟩ := execute_applied r { now := later } 0 hf hw []
    rw [hrec]
    simp only [List.map_nil, applyLog]
    refine ⟨?_, ⟨hrole, hsteady.healthy hu.healthy, hm0, hrlim.1.trans hu.replica⟩⟩
    have hkey : ∀ j, view later (d.get? j) = view later (r'.get? j) ↔
        (j ∈ w.keys → LateOk env.now later ((m.store.live env.now).get? j) w) := by
      intro j
      rw [Write.get?_effect hweff, Write.get?_effect hreff, hseen j]
      by_cases hj : j ∈ w.keys
      · rw [if_pos hj, if_pos hj, view_change_eq_iff (ofCommand_future hof)
          (by rw [get?_live, view_view le_rfl]) (Write.change_ne_refuse hweff hj)]
        simp [hj]
      · rw [if_neg hj, if_neg hj, view_view le_rfl]
        simp [hj]
    constructor
    · intro hagree _ w' hof' key hk
      rw [hof] at hof'
      cases hof'
      have hj := hagree key
      rw [get?_live, get?_live, hent, hrent] at hj
      exact (hkey key).mp hj hk
    · intro hon j
      rw [get?_live, get?_live, hent, hrent]
      exact (hkey j).mpr (fun hj => hon hacc w hof j hj)

/-! ## Runs -/

/-- **A log applied late.** The original starts empty without a memory limit and serves any
write commands; the replaying server, empty and without a limit, applies each record no
earlier, through the AOF or as a replica. At every point of the run the live keyspaces
agree from then on if and only if every command was on time.
SOURCE: server.py:499-529, 577-578, storage/store.py:97-139, persistence/aof.py:302-317 -/
theorem log_timing {cfg : Config} (replid : Replid) (hrole : cfg.isReplica = false)
    (hunlimited : cfg.maxmemoryBytes = 0) {flags : Flags} (hf : flags.isReplicaClient = true)
    {replica : Server} (hempty : replica.store = {}) (calls : List TimedCall)
    (hw : ∀ c ∈ calls, isWrite c.call.argv = true)
    (hlate : ∀ c ∈ calls, c.call.env.now ≤ c.later)
    (horder : calls.Pairwise fun a b => a.later ≤ b.later) :
    (∀ done, done <+: calls → ∀ T, (∀ c ∈ done, c.later ≤ T) →
      Agree T (sideBySide flags (started cfg replid) replica done).1.store
        (sideBySide flags (started cfg replid) replica done).2.store) ↔
    ∀ done c, done ++ [c] <+: calls →
      OnTime (sideBySide flags (started cfg replid) replica done).1 c := by
  have hbefore : ∀ done c, done ++ [c] <+: calls → ∀ c' ∈ done, c'.later ≤ c.later := by
    intro done c hpre c' hc'
    obtain ⟨rest, hrest⟩ := hpre
    rw [← hrest, List.append_assoc, List.pairwise_append] at horder
    exact horder.2.2 c' hc' c (by simp)
  refine forall_prefix_iff calls
    (P := fun done => ∀ T, (∀ c ∈ done, c.later ≤ T) →
      Agree T (sideBySide flags (started cfg replid) replica done).1.store
        (sideBySide flags (started cfg replid) replica done).2.store)
    (I := fun done => Unlimited (sideBySide flags (started cfg replid) replica done).1
      (sideBySide flags (started cfg replid) replica done).2)
    (C := fun done c => OnTime (sideBySide flags (started cfg replid) replica done).1 c)
    ?_ ?_ ?_
  · intro T _ k
    show ((started cfg replid).store.live T).get? k = (replica.store.live T).get? k
    rw [hempty]
    rfl
  · have hm := settled_started replid hrole
    exact ⟨hm.role, hm.healthy, hunlimited, by show replica.store.maxmemoryBytes = 0; rw [hempty]⟩
  · intro done c hpre hagree hu
    have hc : c ∈ calls := hpre.subset (by simp)
    have hprev := hbefore done c hpre
    rw [sideBySide_snoc]
    obtain ⟨hiff, hu'⟩ := agree_step hf hu c (hw c hc) (hlate c hc) (hagree c.later hprev)
    refine ⟨?_, hu'⟩
    rw [← hiff]
    constructor
    · intro hall
      apply hall c.later
      intro c' hc'
      rcases List.mem_append.mp hc' with hc' | hc'
      · exact hprev c' hc'
      · rw [List.mem_singleton.mp hc']
    · intro hnow T hT
      exact hnow.mono (hT c (by simp))

/-- A key with ten seconds to live. -/
def shortLived (later : ℤ) : List TimedCall :=
  [⟨{ argv := [ascii "SET", ascii "k", ascii "v", ascii "EX", ascii "10"] }, later⟩]

/-- A key with ten seconds to live whose record is applied at once, and three records applied
seconds late: a push, a deadline for a key that is not there, and a removal. -/
def partlyLate : List TimedCall :=
  shortLived 0 ++
    [⟨{ argv := [ascii "LPUSH", ascii "l", ascii "a"] }, 3000⟩,
      ⟨{ argv := [ascii "EXPIRE", ascii "gone", ascii "5"] }, 4000⟩,
      ⟨{ argv := [ascii "DEL", ascii "l"] }, 5000⟩]

/-- The push, the deadline and the removal were late and still on time for their keys: both
servers agree at the end. -/
theorem log_timing_at_once :
    Agree 5000
      (sideBySide .loading (started {} default) (started {} default) partlyLate).1.store
      (sideBySide .loading (started {} default) (started {} default) partlyLate).2.store := by
  refine (log_timing default rfl rfl (rfl : Flags.loading.isReplicaClient = true) rfl
    partlyLate (by decide) (by decide) (by decide)).mpr ?_ partlyLate
    (List.prefix_refl _) 5000 (by decide)
  refine forall_prefix_cons ?_ (forall_prefix_cons ?_ (forall_prefix_cons ?_
    (forall_prefix_cons ?_ forall_prefix_nil)))
  all_goals
    intro _ w hof key hkey
    cases hof
    cases List.mem_singleton.mp hkey
  · rfl
  · rfl
  · exact Or.inl rfl
  · trivial

/-- Replayed five seconds later, the key outlives its deadline on the original server, by
AOF and by replication alike. -/
theorem log_timing_late :
    ((sideBySide .loading (started {} default) (started {} default)
      (shortLived 5000)).1.store.live 12000).get? (ascii "k") = none ∧
    (((sideBySide .loading (started {} default) (started {} default)
      (shortLived 5000)).2.store.live 12000).get? (ascii "k")).isSome = true ∧
    (((sideBySide .replicated (started {} default) (started {} default)
      (shortLived 5000)).2.store.live 12000).get? (ascii "k")).isSome = true := by
  decide

end ByoRedis.Analysis
