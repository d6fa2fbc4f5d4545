import ByoRedis.Analysis.ReplicationSteps
import ByoRedis.Lib.Trace

/-!
# Every write is answered

The tasks of a master take turns without end. A task that holds the write lock has an action to
take (`canAct_of_stands`), whatever an append or a write to a replica comes to, and an action of
another task leaves the lock alone (`held_of_step`). So if the lock holder is not passed over for
ever, it comes to its end: `work` says how many actions it needs at most. The lock is then free,
and the client whose write held it has its reply.

One write is not answered: that which waits for its append after a rewrite has closed the AOF
and could not open it again (`AwaitsAppend`). Then the lock is held for ever.
-/

set_option autoImplicit false

namespace ByoRedis.Analysis

open ByoRedis.Model ByoRedis.Lib ByoRedis.Interface

/-! ## The lock holder -/

/-- The actions of the task that holds the write lock. -/
def OfHolder : Action → Prop
  | .append _ => True
  | .propagate _ => True
  | .rewriteBuild => True
  | .rewriteReplace => True
  | .rewriteFail => True
  | .rewriteLose _ => True
  | _ => False

/-- How many actions the lock holder needs at most. -/
def work : Holder → ℕ
  | .free => 0
  | .writing _ records false _ => 2 * records.length
  | .writing _ records true _ => 2 * records.length - 1
  | .rewriting _ => 2
  | .replacing _ => 1

/-- A client's write that holds the lock, with the reply it will have. -/
def Writes (conn : ℕ) (reply : Bytes) (holder : Holder) : Prop :=
  ∃ records appended, holder = .writing conn records appended reply

/-- A write that holds the lock has a record to do. -/
def Stands : Holder → Prop
  | .free => True
  | .writing _ records _ _ => records ≠ []
  | .rewriting _ => True
  | .replacing _ => True

variable {sys sys' : System} {a : Action} {es : List Event}

/-- The lock holder can go on, whatever comes of its append, of the writes to the replicas, or of
the rewrite. -/
def CanAct (sys : System) : Prop :=
  (∀ fault, (sys.step (.append fault)).isSome = true) ∨
  (∀ fails, (sys.step (.propagate fails)).isSome = true) ∨
  (sys.step .rewriteFail).isSome = true ∧
    ((sys.step .rewriteBuild).isSome = true ∨
      (sys.handleClosed = false → (sys.step .rewriteReplace).isSome = true))

/-- The lock holder waits for an append that nobody answers.
SOURCE: persistence/aof.py:100-122, 204-216 -/
def AwaitsAppend (sys : System) : Prop :=
  sys.deaf = true ∧ ∃ conn argv rest reply, sys.holder = .writing conn (argv :: rest) false reply

/-- A holder of the lock that stands can go on or waits for its append. -/
theorem canAct_of_stands (h : Stands sys.holder) (hheld : sys.holder ≠ .free) :
    CanAct sys ∨ AwaitsAppend sys := by
  cases hhold : sys.holder with
  | free => exact absurd hhold hheld
  | writing conn records appended reply =>
    rw [hhold] at h
    obtain ⟨argv, rest, rfl⟩ := List.exists_cons_of_ne_nil h
    cases appended with
    | false =>
      cases hdeaf : sys.deaf with
      | true => exact Or.inr ⟨hdeaf, conn, argv, rest, reply, hhold⟩
      | false =>
        refine Or.inl (Or.inl fun fault => ?_)
        simp only [System.step, System.append, hhold, hdeaf, Bool.false_eq_true, if_false]
        split <;> rfl
    | true =>
      refine Or.inl (Or.inr (Or.inl fun fails => ?_))
      simp only [System.step, System.propagate, hhold]
      split <;> rfl
  | rewriting d =>
    refine Or.inl (Or.inr (Or.inr ⟨?_, Or.inl ?_⟩))
    · simp only [System.step, System.rewriteFail, hhold, Option.isSome_some]
    · simp only [System.step, System.rewriteBuild, hhold]
      split <;> rfl
  | replacing cs =>
    refine Or.inl (Or.inr (Or.inr ⟨?_, Or.inr fun hopen => ?_⟩))
    · simp only [System.step, System.rewriteFail, hhold, Option.isSome_some]
    · simp only [System.step, System.rewriteReplace, hhold, hopen, Bool.false_eq_true, if_false,
        Option.isSome_some]

/-- A lock holder that waits cannot go on. -/
theorem AwaitsAppend.not_canAct (h : AwaitsAppend sys) : ¬ CanAct sys := by
  obtain ⟨hdeaf, conn, argv, rest, reply, hhold⟩ := h
  rintro (hact | hact | ⟨hact, -⟩)
  · have hnone := hact .none
    simp [System.step, System.append, hhold, hdeaf] at hnone
  · have hnone := hact fun _ => false
    simp [System.step, System.propagate, hhold] at hnone
  · simp [System.step, System.rewriteFail, hhold] at hact

/-- What an action does with the lock: it leaves it alone, takes it, brings the holder on, or
releases it, and then a write is answered. -/
inductive Held (sys : System) (a : Action) (es : List Event) (sys' : System) : Prop where
  | aside (hother : ¬ OfHolder a) (hsame : sys'.holder = sys.holder)
  | taken (hfree : sys.holder = .free) (hother : ¬ OfHolder a) (hstands : Stands sys'.holder)
  | on (hless : work sys'.holder < work sys.holder) (hheld : sys'.holder ≠ .free)
      (hwrites : ∀ conn reply, Writes conn reply sys.holder → Writes conn reply sys'.holder)
      (hstands : Stands sys'.holder)
  | released (hfree : sys'.holder = .free)
      (hanswer : ∀ conn reply, Writes conn reply sys.holder → ∃ r, .replied conn r ∈ es ∧
        (r = reply ∨ ∃ text, r = Server.misconfReply text))

/-- A rewrite is not a client's write. -/
theorem not_writes {conn : ℕ} {reply : Bytes} {holder : Holder} (h : unpropagated holder = [])
    (hstands : Stands holder) : ¬ Writes conn reply holder := by
  rintro ⟨records, appended, rfl⟩
  exact hstands h

/-- A rewrite ends. -/
theorem held_ended (hnone : unpropagated sys.holder = []) (hstands : Stands sys.holder)
    (hfree : sys'.holder = .free) : Held sys a es sys' :=
  .released hfree fun _ _ hw => absurd hw (not_writes hnone hstands)

/-- A write goes on: it is the same write, with less to do. -/
theorem held_on {conn : ℕ} {records records' : List Command} {appended appended' : Bool}
    {reply : Bytes} (hhold : sys.holder = .writing conn records appended reply)
    (hhold' : sys'.holder = .writing conn records' appended' reply) (hne : records' ≠ [])
    (hless : work (.writing conn records' appended' reply) <
      work (.writing conn records appended reply)) : Held sys a es sys' := by
  refine .on ?_ ?_ ?_ ?_
  · rw [hhold, hhold']
    exact hless
  · rw [hhold']
    simp
  · rintro conn' reply' ⟨records, appended, heq⟩
    rw [hhold] at heq
    cases heq
    exact ⟨_, _, hhold'⟩
  · rw [hhold']
    exact hne

/-- A write ends with a reply to its client. -/
theorem held_answered {conn : ℕ} {records : List Command} {appended : Bool} {reply r : Bytes}
    (hhold : sys.holder = .writing conn records appended reply) (hfree : sys'.holder = .free)
    (hmem : .replied conn r ∈ es) (hr : r = reply ∨ ∃ text, r = Server.misconfReply text) :
    Held sys a es sys' := by
  refine .released hfree fun conn' reply' hwrites => ?_
  obtain ⟨records, appended, heq⟩ := hwrites
  rw [hhold] at heq
  cases heq
  exact ⟨r, hmem, hr⟩

/-- **What an action does with the lock.**
SOURCE: server.py:409-535, 591-643, persistence/aof.py:100-216 -/
theorem held_of_step (hrole : sys.server.config.isReplica = false) (hstands : Stands sys.holder)
    (hs : sys.step a = some (sys', es)) : Held sys a es sys' := by
  cases stepped_of_step hs with
  | appendFailed conn argv rest reply fault text aof hhold hheard happend =>
    exact held_answered hhold rfl (List.mem_singleton_self _) (Or.inr ⟨text, rfl⟩)
  | appended conn argv rest reply fault aof hhold hheard happend =>
    refine held_on hhold rfl (List.cons_ne_nil _ _) ?_
    simp only [work, List.length_cons]
    omega
  | propagatedLast conn argv reply fails hhold =>
    exact held_answered hhold rfl (List.mem_cons_of_mem _ (List.mem_singleton_self _)) (Or.inl rfl)
  | propagated conn argv next rest reply fails hhold =>
    refine held_on hhold rfl (List.cons_ne_nil _ _) ?_
    simp only [work, List.length_cons]
    omega
  | rewriteBuilt d commands hhold hbuild =>
    refine .on ?_ (by simp) (fun conn reply hw => absurd hw ?_) trivial
    · rw [hhold]
      simp [work]
    · exact not_writes (by rw [hhold]; rfl) hstands
  | rewriteOverflowed d hhold hbuild => exact held_ended (by rw [hhold]; rfl) hstands rfl
  | rewriteReplaced commands hhold hopen => exact held_ended (by rw [hhold]; rfl) hstands rfl
  | rewriteReplacedLost commands hhold hopen hopened =>
    exact held_ended (by rw [hhold]; rfl) hstands rfl
  | rewriteLost commands hhold hopen hopened => exact held_ended (by rw [hhold]; rfl) hstands rfl
  | rewriteFailed hhold =>
    refine held_ended ?_ hstands rfl
    obtain ⟨d, hhold⟩ | ⟨commands, hhold⟩ := hhold <;> rw [hhold] <;> rfl
  | command conn argv env sys' es hc =>
    obtain ⟨-, hstep⟩ := command_cases hrole hc
    cases hstep with
    | answered srv reply hframe => exact .aside id rfl
    | accepted d evicted s reply hfree hw heff hlim =>
      exact .taken hfree id (List.cons_ne_nil _ _)
  | rewriteSnapshot hfree hasked => exact .taken hfree id trivial
  | _ => exact .aside id rfl

/-- A rewrite is all that closes the AOF under the server. -/
theorem closed_of_step (hrole : sys.server.config.isReplica = false)
    (hs : sys.step a = some (sys', es)) :
    sys'.handleClosed = sys.handleClosed ∨ ∃ replaced, a = .rewriteLose replaced := by
  cases stepped_of_step hs with
  | command conn argv env sys' es hc =>
    obtain ⟨-, hstep⟩ := command_cases hrole hc
    cases hstep <;> exact Or.inl rfl
  | rewriteReplacedLost commands hhold hopen hopened => exact Or.inr ⟨true, rfl⟩
  | rewriteLost commands hhold hopen hopened => exact Or.inr ⟨false, rfl⟩
  | _ => exact Or.inl rfl

/-- **A lock holder that waits goes on waiting**, whatever the other tasks do.
SOURCE: persistence/aof.py:100-122, 138-143 -/
theorem AwaitsAppend.step (hrole : sys.server.config.isReplica = false) (h : AwaitsAppend sys)
    (hs : sys.step a = some (sys', es)) : sys'.holder = sys.holder ∧ AwaitsAppend sys' := by
  obtain ⟨hdeaf, conn, argv, rest, reply, hhold⟩ := h
  have hkept : sys'.deaf = sys.deaf → sys'.holder = sys.holder →
      sys'.holder = sys.holder ∧ AwaitsAppend sys' := by
    intro hsame hholder
    exact ⟨hholder, hsame.trans hdeaf, conn, argv, rest, reply, hholder.trans hhold⟩
  have hother : ∀ {holder : Holder}, sys.holder = holder →
      holder ≠ .writing conn (argv :: rest) false reply →
      sys'.holder = sys.holder ∧ AwaitsAppend sys' :=
    fun heq hne => absurd (heq.symm.trans hhold) hne
  cases stepped_of_step hs with
  | appendFailed conn' argv' rest' reply' fault text aof hhold' hheard happend =>
    rw [hdeaf] at hheard
    cases hheard
  | appended conn' argv' rest' reply' fault aof hhold' hheard happend =>
    rw [hdeaf] at hheard
    cases hheard
  | propagatedLast conn' argv' reply' fails hhold' => exact hother hhold' (by simp)
  | propagated conn' argv' next rest' reply' fails hhold' => exact hother hhold' (by simp)
  | bgsaveSnapshot hfree hidle hasked => exact hother hfree (by simp)
  | rewriteSnapshot hfree hasked => exact hother hfree (by simp)
  | rewriteBuilt d commands hhold' hbuild => exact hother hhold' (by simp)
  | rewriteOverflowed d hhold' hbuild => exact hother hhold' (by simp)
  | rewriteReplaced commands hhold' hopen => exact hother hhold' (by simp)
  | rewriteReplacedLost commands hhold' hopen hopened => exact hother hhold' (by simp)
  | rewriteLost commands hhold' hopen hopened => exact hother hhold' (by simp)
  | rewriteFailed hhold' =>
    obtain ⟨d, hhold'⟩ | ⟨commands, hhold'⟩ := hhold' <;> exact hother hhold' (by simp)
  | psync conn hmaster hfree hnew => exact hother hfree (by simp)
  | command conn' argv' env sys' es hc =>
    obtain ⟨-, hstep⟩ := command_cases hrole hc
    cases hstep with
    | answered srv reply' hframe =>
      refine hkept ?_ rfl
      simp only [System.deaf, System.setServer, hframe.config, hframe.aof]
    | accepted d evicted s reply' hfree hw heff hlim => exact hother hfree (by simp)
  | _ => exact hkept rfl rfl

/-- A holder of the lock still stands after a step. -/
theorem Held.stands (h : Held sys a es sys') (hstands : Stands sys.holder) :
    Stands sys'.holder := by
  cases h with
  | aside hother hsame =>
    rw [hsame]
    exact hstands
  | taken hfree hother hstands' => exact hstands'
  | on hless hheld hwrites hstands' => exact hstands'
  | released hfree hanswer =>
    rw [hfree]
    trivial

/-! ## Runs without end -/

/-- A run without end of the tasks of a master. A lock holder that can go on is not passed over
for ever. -/
structure FairRun (srv : Server) (t : ℤ) (s : ℕ → System) (a : ℕ → Action) : Prop where
  start : s 0 = { server := srv, now := t }
  step : ∀ n, ∃ es, (s n).step (a n) = some (s (n + 1), es)
  fair : ∀ n, (∀ m, n ≤ m → CanAct (s m)) → ∃ m, n ≤ m ∧ OfHolder (a m)

/-- The write that holds the lock at moment `n` waits for ever. -/
def WaitsForEver (s : ℕ → System) (n : ℕ) : Prop :=
  ∀ m, n ≤ m → (s m).holder = (s n).holder ∧ AwaitsAppend (s m)

/-- At moment `n` the lock is about to be free, and whoever had it at moment `k` is answered. -/
def Releases (s : ℕ → System) (a : ℕ → Action) (k n : ℕ) : Prop :=
  ∃ es, (s n).step (a n) = some (s (n + 1), es) ∧ (s (n + 1)).holder = .free ∧
    ∀ conn reply, Writes conn reply (s k).holder → ∃ r, .replied conn r ∈ es ∧
      (r = reply ∨ ∃ text, r = Server.misconfReply text)

section Fair

variable {srv : Server} {t : ℤ} {s : ℕ → System} {a : ℕ → Action}

/-- The holder of the lock stands in every state of a fair run. -/
theorem FairRun.stands (h : FairRun srv t s a) (hrole : srv.config.isReplica = false) (n : ℕ) :
    (s n).server.config.isReplica = false ∧ Stands (s n).holder := by
  induction n with
  | zero =>
    rw [h.start]
    exact ⟨hrole, trivial⟩
  | succ n ih =>
    obtain ⟨es, hs⟩ := h.step n
    exact ⟨(turn_of_step ih.1 hs).config ▸ ih.1, (held_of_step ih.1 ih.2 hs).stands ih.2⟩

/-- A lock holder that waits once waits for ever. -/
theorem FairRun.waitsForEver (h : FairRun srv t s a) (hrole : srv.config.isReplica = false) {n : ℕ}
    (hwaits : AwaitsAppend (s n)) : WaitsForEver s n := by
  intro m hm
  induction m, hm using Nat.le_induction with
  | base => exact ⟨rfl, hwaits⟩
  | succ m hm ih =>
    obtain ⟨es, hs⟩ := h.step m
    obtain ⟨hholder, hwaits'⟩ := ih.2.step (h.stands hrole m).1 hs
    exact ⟨hholder.trans ih.1, hwaits'⟩

/-- A lock holder waits only after a rewrite has lost the AOF. -/
theorem FairRun.lost (h : FairRun srv t s a) (hrole : srv.config.isReplica = false) (n : ℕ)
    (hclosed : (s n).handleClosed = true) : ∃ m replaced, m < n ∧ a m = .rewriteLose replaced := by
  induction n with
  | zero =>
    rw [h.start] at hclosed
    cases hclosed
  | succ n ih =>
    obtain ⟨es, hs⟩ := h.step n
    obtain hsame | ⟨replaced, ha⟩ := closed_of_step (h.stands hrole n).1 hs
    · obtain ⟨m, replaced, hm, ha⟩ := ih (hsame ▸ hclosed)
      exact ⟨m, replaced, Nat.lt_succ_of_lt hm, ha⟩
    · exact ⟨n, replaced, Nat.lt_succ_self n, ha⟩

/-- **The lock is released**, and what holds it at some moment is answered then, unless from some
moment on it waits for ever.
SOURCE: server.py:409-535, 632-643 -/
theorem FairRun.released (h : FairRun srv t s a) (hrole : srv.config.isReplica = false) (n : ℕ)
    (hheld : (s n).holder ≠ .free) :
    (∃ m, n ≤ m ∧ Releases s a n m) ∨
    ∃ m, n ≤ m ∧ WaitsForEver s m ∧
      ∀ conn reply, Writes conn reply (s n).holder → Writes conn reply (s m).holder := by
  by_contra hno
  obtain ⟨hno, hnever⟩ := not_or.mp hno
  -- as long as the lock is held it is held by the same write
  have hsame : ∀ m, n ≤ m → (s m).holder ≠ .free ∧
      ∀ conn reply, Writes conn reply (s n).holder → Writes conn reply (s m).holder := by
    intro m hm
    induction m, hm using Nat.le_induction with
    | base => exact ⟨hheld, fun _ _ hw => hw⟩
    | succ m hm ih =>
      obtain ⟨es, hs⟩ := h.step m
      obtain ⟨hmaster, hstands⟩ := h.stands hrole m
      cases held_of_step hmaster hstands hs with
      | aside hother hsame =>
        rw [hsame]
        exact ih
      | taken hfree hother hstands' => exact absurd hfree ih.1
      | on hless hheld' hwrites hstands' =>
        exact ⟨hheld', fun conn reply hw => hwrites conn reply (ih.2 conn reply hw)⟩
      | released hfree hanswer =>
        exact absurd ⟨m, hm, es, hs, hfree, fun conn reply hw =>
          hanswer conn reply (ih.2 conn reply hw)⟩ hno
  have hcan : ∀ m, n ≤ m → CanAct (s m) := by
    intro m hm
    refine (canAct_of_stands (h.stands hrole m).2 (hsame m hm).1).resolve_right fun hwaits => ?_
    exact hnever ⟨m, hm, h.waitsForEver hrole hwaits, (hsame m hm).2⟩
  have hstep : ∀ m, n ≤ m → work (s (m + 1)).holder ≤ work (s m).holder ∧
      (OfHolder (a m) → work (s (m + 1)).holder < work (s m).holder) := by
    intro m hm
    obtain ⟨es, hs⟩ := h.step m
    obtain ⟨hmaster, hstands⟩ := h.stands hrole m
    cases held_of_step hmaster hstands hs with
    | aside hother hsame => exact ⟨Nat.le_of_eq (congrArg work hsame), fun hof => absurd hof hother⟩
    | taken hfree hother hstands' => exact absurd hfree (hsame m hm).1
    | on hless hheld' hwrites hstands' => exact ⟨Nat.le_of_lt hless, fun _ => hless⟩
    | released hfree hanswer => exact absurd hfree (hsame (m + 1) (Nat.le_succ_of_le hm)).1
  refine no_descent (fun m => work (s m).holder) (fun m hm => (hstep m hm).1)
    (fun m hm hof => (hstep m hm).2 hof) fun m hm => ?_
  exact h.fair m fun k hk => hcan k (hm.trans hk)

/-- **Every write is answered, unless a rewrite has lost the AOF.** In a run without end of a
master's tasks, with any appends, fsyncs, rewrites and links failing, that does not pass over for
ever a lock holder that can go on: whoever holds the write lock can go on, or it is a write that
waits for its append and waits for ever; the lock is free again and again, or it waits so from
some moment on; and a client whose write holds it gets the reply of its command, or MISCONF, or
it waits so. Nobody waits before a rewrite has closed the AOF and could not open it again.
SOURCE: server.py:409-535, 591-643, persistence/aof.py:100-216 -/
theorem write_answered (hrole : srv.config.isReplica = false) (hrun : FairRun srv t s a) :
    (∀ n, (s n).holder ≠ .free → CanAct (s n) ∨ WaitsForEver s n) ∧
    ((∀ n, ∃ m, n ≤ m ∧ (s m).holder = .free) ∨ ∃ m, WaitsForEver s m) ∧
    (∀ n conn reply, Writes conn reply (s n).holder →
      (∃ m es r, n ≤ m ∧ (s m).step (a m) = some (s (m + 1), es) ∧ .replied conn r ∈ es ∧
        (r = reply ∨ ∃ text, r = Server.misconfReply text)) ∨
      ∃ m, n ≤ m ∧ Writes conn reply (s m).holder ∧ WaitsForEver s m) ∧
    ∀ n, WaitsForEver s n → ∃ m replaced, m < n ∧ a m = .rewriteLose replaced := by
  refine ⟨fun n hheld => ?_, ?_, ?_, fun n hwaits => ?_⟩
  · exact (canAct_of_stands (hrun.stands hrole n).2 hheld).imp id (hrun.waitsForEver hrole)
  · by_cases hever : ∃ m, WaitsForEver s m
    · exact Or.inr hever
    · refine Or.inl fun n => ?_
      by_cases hheld : (s n).holder = .free
      · exact ⟨n, Nat.le_refl n, hheld⟩
      · obtain ⟨m, hm, -, -, hfree, -⟩ | ⟨m, -, hwaits, -⟩ := hrun.released hrole n hheld
        · exact ⟨m + 1, Nat.le_succ_of_le hm, hfree⟩
        · exact absurd ⟨m, hwaits⟩ hever
  · intro n conn reply hwrites
    have hheld : (s n).holder ≠ .free := by
      obtain ⟨records, appended, heq⟩ := hwrites
      rw [heq]
      simp
    obtain ⟨m, hm, es, hs, -, hanswer⟩ | ⟨m, hm, hwaits, hkept⟩ := hrun.released hrole n hheld
    · obtain ⟨r, hr, hreply⟩ := hanswer conn reply hwrites
      exact Or.inl ⟨m, es, r, hm, hs, hr, hreply⟩
    · exact Or.inr ⟨m, hm, hkept conn reply hwrites, hwaits⟩
  · obtain ⟨-, hdeaf, -⟩ := hwaits n (Nat.le_refl n)
    simp only [System.deaf, Bool.and_eq_true] at hdeaf
    exact hrun.lost hrole n hdeaf.1.1.1

end Fair

/-! ## A run -/

/-- A key is set. Then a BGREWRITEAOF closes the AOF and cannot open it again, and another key is
set. -/
def losingAof : ℕ → Action
  | 0 => .command 1 [ascii "SET", ascii "k", ascii "v"] {}
  | 1 => .append .none
  | 2 => .propagate fun _ => false
  | 3 => .command 1 [ascii "BGREWRITEAOF"] {}
  | 4 => .rewriteSnapshot
  | 5 => .rewriteBuild
  | 6 => .rewriteLose false
  | 7 => .command 1 [ascii "SET", ascii "a", ascii "1"] {}
  | _ + 8 => .elapse 0

/-- The states of a run in which a rewrite loses the AOF. -/
def aofLost : ℕ → System
  | 0 => { server := started {} default }
  | n + 1 => (((aofLost n).step (losingAof n)).map Prod.fst).getD (aofLost n)

/-- From the ninth state on a write waits for its append. -/
theorem awaitsAppend_aofLost (n : ℕ) : AwaitsAppend (aofLost (n + 8)) := by
  induction n with
  | zero => exact ⟨by decide +kernel, _, _, _, _, rfl⟩
  | succ n ih => exact ih

/-- The run is fair: from the ninth state on the holder of the lock cannot go on. -/
theorem fairRun_aofLost : FairRun (started {} default) 0 aofLost losingAof := by
  refine ⟨rfl, fun n => ?_, fun n hcan => ?_⟩
  · obtain _ | _ | _ | _ | _ | _ | _ | _ | n := n
    · exact ⟨_, rfl⟩
    · exact ⟨_, rfl⟩
    · exact ⟨_, rfl⟩
    · exact ⟨_, rfl⟩
    · exact ⟨_, rfl⟩
    · exact ⟨_, rfl⟩
    · exact ⟨_, rfl⟩
    · exact ⟨_, rfl⟩
    · exact ⟨[], rfl⟩
  · exact absurd (hcan (n + 8) (Nat.le_add_right n 8)) (awaitsAppend_aofLost n).not_canAct

/-- The first write is answered; the second waits for ever. -/
theorem write_answered_lost :
    (∃ reply, Writes 1 reply (aofLost 1).holder) ∧ (aofLost 3).holder = .free ∧
    WaitsForEver aofLost 8 ∧
    (∀ n, (aofLost n).holder ≠ .free → CanAct (aofLost n) ∨ WaitsForEver aofLost n) ∧
    ((∀ n, ∃ m, n ≤ m ∧ (aofLost m).holder = .free) ∨ ∃ m, WaitsForEver aofLost m) ∧
    (∀ n conn reply, Writes conn reply (aofLost n).holder →
      (∃ m es r, n ≤ m ∧ (aofLost m).step (losingAof m) = some (aofLost (m + 1), es) ∧
        .replied conn r ∈ es ∧ (r = reply ∨ ∃ text, r = Server.misconfReply text)) ∨
      ∃ m, n ≤ m ∧ Writes conn reply (aofLost m).holder ∧ WaitsForEver aofLost m) ∧
    ∀ n, WaitsForEver aofLost n → ∃ m replaced, m < n ∧ losingAof m = .rewriteLose replaced :=
  ⟨⟨_, _, _, rfl⟩, rfl, fairRun_aofLost.waitsForEver rfl (awaitsAppend_aofLost 0),
    write_answered rfl fairRun_aofLost⟩

end ByoRedis.Analysis
