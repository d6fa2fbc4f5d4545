import ByoRedis.Lib.Trace
import ByoRedis.Analysis.ReplicationSteps

/-!
# The log is ahead of the replicas

A record is appended to the AOF before it is propagated. `LogAhead` is what this comes to in
any run of a master with an AOF, whichever appends fail: the records propagated are those
appended, in their order, but for the one the lock holder has just appended; all of them
took effect; and the file holds every record appended since the last rewrite, behind it at
most one more, whose fsync failed and after which nothing is appended any more.
-/

set_option autoImplicit false

namespace ByoRedis.Analysis

open ByoRedis.Model ByoRedis.Lib

/-! ## One append -/

/-- What `append` does to an open log: the record is written and acknowledged; it is refused
and the file stays as it is; or it is written, its fsync fails and the log is unhealthy.
SOURCE: persistence/aof.py:100-186 -/
inductive AppendOutcome (aof : AofLog) (argv : Command) : Except Str Unit × AofLog → Prop where
  | written (aof' : AofLog) (hfailure : aof.failure = none)
      (hfile : aof'.file = some (aof.file.getD [] ++ encodeCommand argv))
      (hopened : aof'.opened = true) : AppendOutcome aof argv (.ok (), aof')
  | refused (text : Str) (aof' : AofLog) (hfile : aof'.file = aof.file)
      (hopened : aof'.opened = true) (hfailure : aof.failure ≠ none → aof'.failure ≠ none) :
      AppendOutcome aof argv (.error text, aof')
  | unsynced (text : Str) (aof' : AofLog) (hhealthy : aof.failure = none)
      (hfile : aof'.file = some (aof.file.getD [] ++ encodeCommand argv))
      (hopened : aof'.opened = true) (hfailure : aof'.failure ≠ none) :
      AppendOutcome aof argv (.error text, aof')

/-- An append to an open log has one of the outcomes. -/
theorem append_outcome {cfg : Config} {aof : AofLog} (argv : Command) (fault : WriteFault)
    (henabled : cfg.aofEnabled = true) (hopened : aof.opened = true) :
    AppendOutcome aof argv (aof.append cfg argv fault) := by
  have hopen : ¬ (!cfg.aofEnabled || !aof.opened) = true := by
    rw [henabled, hopened]
    exact Bool.false_ne_true
  unfold AofLog.append
  rw [if_neg hopen]
  cases hf : aof.failure with
  | some text => exact .refused _ _ rfl hopened fun _ => by rw [hf]; exact Option.some_ne_none text
  | none =>
    have hok : ∀ failure, AppendOutcome aof argv
        (.ok (), { aof.write (encodeCommand argv) with failure := failure }) :=
      fun failure => .written _ hf rfl hopened
    have hlost : ∀ text failure, AppendOutcome aof argv
        (.error text, { aof with failure := failure }) :=
      fun text failure => .refused text _ rfl hopened fun hne => absurd hf hne
    cases fault with
    | none => exact .written _ hf rfl hopened
    | writeFails text => exact hlost text _
    | fsyncFails text =>
      dsimp only
      split_ifs
      · exact .unsynced text _ hf rfl hopened (Option.some_ne_none text)
      · exact .written _ hf rfl hopened
    | dropped text =>
      dsimp only
      split_ifs
      · exact hlost text _
      · exact .written _ hf rfl hopened
    | degraded text =>
      dsimp only
      split_ifs
      · exact hok _
      · exact .written _ hf rfl hopened
    | queueFull => exact .refused _ _ rfl hopened fun hne => absurd hf hne

/-! ## The log of a history -/

/-- The record the lock holder has appended and not yet propagated. -/
def inFlight : Holder → List Command
  | .writing _ (argv :: _) true _ => [argv]
  | _ => []

/-- The record in flight is the next to propagate. -/
theorem inFlight_front (holder : Holder) : inFlight holder <+: unpropagated holder := by
  unfold inFlight
  split
  · exact List.prefix_append [_] _
  · exact List.nil_prefix

/-- The contents of the file after the appends and the rewrites of a history. -/
def logged (file : Bytes) (evs : List Event) : Bytes :=
  evs.foldl (fun file ev => match ev with
    | .appended argv => file ++ encodeCommand argv
    | .rewritten commands => commands.flatMap encodeCommand
    | _ => file) file

/-- The log of two parts of a run. -/
theorem logged_append (file : Bytes) (evs es : List Event) :
    logged file (evs ++ es) = logged (logged file evs) es := List.foldl_append

/-- Replies leave the log as it is. -/
theorem logged_replied (file : Bytes) (conn : ℕ) (replies : List Bytes) :
    logged file (replies.map (Event.replied conn)) = file := by
  induction replies with
  | nil => rfl
  | cons reply replies ih => exact ih

/-- What stands behind the records acknowledged: nothing, or a record whose fsync failed. -/
def Behind (aof : AofLog) (evs : List Event) (tail : Bytes) : Prop :=
  tail = [] ∨ aof.failure ≠ none ∧ ∃ argv ∈ executedOf evs, tail = encodeCommand argv

/-- The log of a master that started on `file`, after a history. -/
structure LogAhead (file : Bytes) (evs : List Event) (sys : System) : Prop where
  role : sys.server.config.isReplica = false
  enabled : sys.server.config.aofEnabled = true
  opened : sys.server.aof.opened = true
  order : appendedOf evs = propagatedOf evs ++ inFlight sys.holder
  taken : (propagatedOf evs ++ unpropagated sys.holder).Sublist (executedOf evs)
  file : ∃ tail, sys.server.aof.file = some (logged file evs ++ tail) ∧
    Behind sys.server.aof evs tail

variable {file : Bytes} {sys sys' : System} {a : Action} {es evs : List Event}

/-- What is asked of an action that leaves the log and the lock holder's record alone. -/
structure Bystander (sys : System) (es : List Event) (sys' : System) : Prop where
  aof : sys'.server.aof = sys.server.aof
  inFlight : inFlight sys'.holder = inFlight sys.holder
  appended : appendedOf es = []
  propagated : propagatedOf es = []
  logged : ∀ file, logged file es = file

/-- A step of a bystander leaves the log ahead. -/
theorem LogAhead.bystander (h : LogAhead file evs sys) (hturn : Turn sys a es sys')
    (hb : Bystander sys es sys') : LogAhead file (evs ++ es) sys' := by
  refine ⟨hturn.config ▸ h.role, hturn.config ▸ h.enabled, hb.aof ▸ h.opened, ?_, ?_, ?_⟩
  · rw [appendedOf_append, propagatedOf_append, hb.appended, hb.propagated, hb.inFlight,
      List.append_nil, List.append_nil]
    exact h.order
  · rw [propagatedOf_append, executedOf_append, List.append_assoc]
    refine (hturn.order.append_left _).trans ?_
    rw [← List.append_assoc]
    exact h.taken.append_right _
  · obtain ⟨tail, hfile, hbehind⟩ := h.file
    refine ⟨tail, ?_, hbehind.imp id ?_⟩
    · rw [logged_append, hb.logged, hb.aof]
      exact hfile
    · rintro ⟨hfailure, argv, hargv, rfl⟩
      refine ⟨by rw [hb.aof]; exact hfailure, argv, ?_, rfl⟩
      rw [executedOf_append]
      exact List.mem_append_left _ hargv

/-- The order of what took effect, whatever the action.
SOURCE: server.py:501-535 -/
theorem LogAhead.took (h : LogAhead file evs sys) (hturn : Turn sys a es sys') :
    (propagatedOf (evs ++ es) ++ unpropagated sys'.holder).Sublist (executedOf (evs ++ es)) := by
  rw [propagatedOf_append, executedOf_append, List.append_assoc]
  refine (hturn.order.append_left _).trans ?_
  rw [← List.append_assoc]
  exact h.taken.append_right _

section LockHolder

variable {conn : ℕ} {argv : Command} {rest : List Command} {reply : Bytes} {aof : AofLog}
  {fault : WriteFault}

/-- A record reaches the log before anything else.
SOURCE: server.py:503-509, persistence/aof.py:100-186 -/
theorem LogAhead.appended (h : LogAhead file evs sys)
    (hhold : sys.holder = .writing conn (argv :: rest) false reply)
    (happend : sys.server.aof.append sys.server.config argv fault = (.ok (), aof))
    (htook : (propagatedOf (evs ++ [Event.appended argv]) ++ argv :: rest).Sublist
      (executedOf (evs ++ [Event.appended argv]))) :
    LogAhead file (evs ++ [Event.appended argv])
      { sys with
        server := { sys.server with aof := aof }
        holder := .writing conn (argv :: rest) true reply } := by
  have hout := append_outcome argv fault h.enabled h.opened
  rw [happend] at hout
  obtain ⟨tail, hfile, hbehind⟩ := h.file
  have horder := h.order
  rw [hhold] at horder
  cases hout with
  | written aof hfailure hfile' hopened' =>
    have hempty : tail = [] := hbehind.resolve_right fun hf => hf.1 hfailure
    refine ⟨h.role, h.enabled, hopened', ?_, htook, [], ?_, Or.inl rfl⟩
    · rw [appendedOf_append, propagatedOf_append, horder]
      simp [appendedOf, propagatedOf, inFlight]
    · rw [logged_append]
      show aof.file = some (logged file evs ++ encodeCommand argv ++ [])
      rw [hfile', hfile, hempty, Option.getD_some, List.append_nil, List.append_nil]

/-- A record that was not acknowledged is not in the log, or the log is unhealthy.
SOURCE: server.py:503-509, persistence/aof.py:100-186 -/
theorem LogAhead.appendFailed (h : LogAhead file evs sys) {text : Str}
    (hhold : sys.holder = .writing conn (argv :: rest) false reply)
    (happend : sys.server.aof.append sys.server.config argv fault = (.error text, aof))
    (htook : (propagatedOf (evs ++ [Event.replied conn (Server.misconfReply text)]) ++ []).Sublist
      (executedOf (evs ++ [Event.replied conn (Server.misconfReply text)]))) :
    LogAhead file (evs ++ [Event.replied conn (Server.misconfReply text)])
      { sys with
        server := { sys.server with
          aof := aof, totalCommandsFailed := sys.server.totalCommandsFailed + 1 }
        holder := .free } := by
  have hout := append_outcome argv fault h.enabled h.opened
  rw [happend] at hout
  obtain ⟨tail, hfile, hbehind⟩ := h.file
  have horder : appendedOf (evs ++ [Event.replied conn (Server.misconfReply text)]) =
      propagatedOf (evs ++ [Event.replied conn (Server.misconfReply text)]) ++ inFlight .free := by
    rw [appendedOf_append, propagatedOf_append, h.order, hhold]
    rfl
  cases hout with
  | refused text aof hfile' hopened' hfailure =>
    refine ⟨h.role, h.enabled, hopened', horder, htook, tail, ?_, hbehind.imp id ?_⟩
    · rw [logged_append]
      exact hfile'.trans hfile
    · rintro ⟨hf, r, hr, rfl⟩
      refine ⟨hfailure hf, r, ?_, rfl⟩
      rw [executedOf_append]
      exact List.mem_append_left _ hr
  | unsynced text aof hhealthy hfile' hopened' hfailure =>
    have hempty : tail = [] := hbehind.resolve_right fun hf => hf.1 hhealthy
    have hexecuted : argv ∈ executedOf evs := by
      have hmem : argv ∈ propagatedOf evs ++ unpropagated sys.holder := by
        rw [hhold]
        exact List.mem_append_right _ List.mem_cons_self
      exact h.taken.subset hmem
    refine ⟨h.role, h.enabled, hopened', horder, htook, encodeCommand argv, ?_,
      Or.inr ⟨hfailure, argv, ?_, rfl⟩⟩
    · rw [logged_append]
      show aof.file = some (logged file evs ++ encodeCommand argv)
      rw [hfile', hfile, hempty, Option.getD_some, List.append_nil]
    · rw [executedOf_append]
      exact List.mem_append_left _ hexecuted

end LockHolder

/-- What stands at the end of the file still stands there. -/
theorem LogAhead.file_kept (h : LogAhead file evs sys) (hlogged : ∀ f, logged f es = f) :
    ∃ tail, sys.server.aof.file = some (logged file (evs ++ es) ++ tail) ∧
      Behind sys.server.aof (evs ++ es) tail := by
  obtain ⟨tail, hfile, hbehind⟩ := h.file
  rw [logged_append, hlogged]
  refine ⟨tail, hfile, hbehind.imp id ?_⟩
  rintro ⟨hf, r, hr, rfl⟩
  refine ⟨hf, r, ?_, rfl⟩
  rw [executedOf_append]
  exact List.mem_append_left _ hr

/-- The new file takes the place of the old one, whatever stood at its end.
SOURCE: persistence/aof.py:193-211 -/
theorem LogAhead.rewriteReplaced (h : LogAhead file evs sys) {commands : List Command}
    (hhold : sys.holder = .replacing commands) (closed : Bool)
    (htook : (propagatedOf (evs ++ [Event.rewritten commands]) ++ []).Sublist
      (executedOf (evs ++ [Event.rewritten commands]))) :
    LogAhead file (evs ++ [Event.rewritten commands])
      { sys.endRewrite (sys.server.aof.replaceFile (commands.flatMap encodeCommand)) with
        handleClosed := closed } := by
  have horder := h.order
  rw [hhold] at horder
  refine ⟨h.role, h.enabled, rfl, ?_, htook, [], ?_, Or.inl rfl⟩
  · rw [appendedOf_append, propagatedOf_append, horder]
    rfl
  · rw [logged_append, List.append_nil]
    rfl

/-- **Every action keeps the log ahead.** -/
theorem LogAhead.step (h : LogAhead file evs sys) (hs : sys.step a = some (sys', es)) :
    LogAhead file (evs ++ es) sys' := by
  have hturn := turn_of_step h.role hs
  have htook := h.took hturn
  cases stepped_of_step hs with
  | appended conn argv rest reply fault aof hhold hheard happend =>
    exact h.appended hhold happend htook
  | appendFailed conn argv rest reply fault text aof hhold hheard happend =>
    exact h.appendFailed hhold happend htook
  | rewriteReplaced commands hhold hopen => exact h.rewriteReplaced hhold _ htook
  | rewriteReplacedLost commands hhold hopen hopened => exact h.rewriteReplaced hhold _ htook
  | propagatedLast conn argv reply fails hhold =>
    have horder := h.order
    rw [hhold] at horder
    refine ⟨h.role, h.enabled, h.opened, ?_, htook, h.file_kept fun _ => rfl⟩
    rw [appendedOf_append, propagatedOf_append, horder]
    simp [appendedOf, propagatedOf, inFlight]
  | propagated conn argv next rest reply fails hhold =>
    have horder := h.order
    rw [hhold] at horder
    refine ⟨h.role, h.enabled, h.opened, ?_, htook, h.file_kept fun _ => rfl⟩
    rw [appendedOf_append, propagatedOf_append, horder]
    simp [appendedOf, propagatedOf, inFlight]
  | command conn argv env sys' es hc =>
    obtain ⟨hname, hstep⟩ := command_cases h.role hc
    cases hstep with
    | answered srv reply hframe =>
      have hsil := silent_replied conn reply.toList
      exact h.bystander hturn ⟨hframe.aof, rfl, hsil.appended, hsil.propagated,
        fun f => logged_replied f conn _⟩
    | accepted d evicted s reply hfree hw heff hlim =>
      exact h.bystander hturn ⟨rfl, by rw [hfree]; rfl, rfl, rfl, fun _ => rfl⟩
  | rewriteSnapshot hfree hasked =>
    exact h.bystander hturn ⟨rfl, by rw [hfree]; rfl, rfl, rfl, fun _ => rfl⟩
  | rewriteBuilt d commands hhold hbuild =>
    exact h.bystander hturn ⟨rfl, by rw [hhold]; rfl, rfl, rfl, fun _ => rfl⟩
  | rewriteOverflowed d hhold hbuild =>
    exact h.bystander hturn ⟨rfl, by rw [hhold]; rfl, rfl, rfl, fun _ => rfl⟩
  | rewriteLost commands hhold hopen hopened =>
    exact h.bystander hturn ⟨rfl, by rw [hhold]; rfl, rfl, rfl, fun _ => rfl⟩
  | rewriteFailed hhold =>
    obtain ⟨d, hhold⟩ | ⟨commands, hhold⟩ := hhold
    · exact h.bystander hturn ⟨rfl, by rw [hhold]; rfl, rfl, rfl, fun _ => rfl⟩
    · exact h.bystander hturn ⟨rfl, by rw [hhold]; rfl, rfl, rfl, fun _ => rfl⟩
  | _ => exact h.bystander hturn ⟨rfl, rfl, rfl, rfl, fun _ => rfl⟩

/-- **The log is ahead of the replicas and short of the keyspace**, in every run of a master
with an open and healthy AOF, under every schedule and whichever appends, fsyncs, rewrites and
links fail.
SOURCE: server.py:501-535, 615-643, persistence/aof.py:100-211 -/
theorem log_ahead {srv : Server} (hrole : srv.config.isReplica = false)
    (henabled : srv.config.aofEnabled = true) (hopened : srv.aof.opened = true)
    (hfile : srv.aof.file = some file) {t : ℤ}
    (hrun : Runs System.step (fun _ _ => True) { server := srv, now := t } evs sys) :
    appendedOf evs = propagatedOf evs ++ inFlight sys.holder ∧
    (appendedOf evs).Sublist (executedOf evs) ∧
    ∃ tail, sys.server.aof.file = some (logged file evs ++ tail) ∧
      Behind sys.server.aof evs tail := by
  have hinv : LogAhead file evs sys := by
    refine hrun.invariant (I := LogAhead file) ?_ fun h _ hs => h.step hs
    exact ⟨hrole, henabled, hopened, rfl, List.Sublist.refl _, [],
      by rw [List.append_nil]; exact hfile, Or.inl rfl⟩
  refine ⟨hinv.order, ?_, hinv.file⟩
  rw [hinv.order]
  exact ((inFlight_front sys.holder).sublist.append_left _).trans hinv.taken

/-- Under the policy `always` the second record is written and its fsync fails: it is in the
file and in the keyspace, and no replica gets it. -/
theorem log_ahead_unsynced :
    ∃ evs sys, Runs System.step (fun _ _ => True)
        { server := started { aofFsync := .always } default } evs sys ∧
      propagatedOf evs = [[ascii "SET", ascii "k", ascii "v"]] ∧
      sys.server.aof.file = some (encodeCommand [ascii "SET", ascii "k", ascii "v"] ++
        encodeCommand [ascii "SET", ascii "a", ascii "1"]) ∧
      appendedOf evs = propagatedOf evs ++ inFlight sys.holder ∧
      (appendedOf evs).Sublist (executedOf evs) ∧
      ∃ tail, sys.server.aof.file = some (logged [] evs ++ tail) ∧
        Behind sys.server.aof evs tail := by
  have h₁ := (@Runs.start _ _ _ System.step (fun _ _ => True)
    { server := started { aofFsync := .always } default }).step
    (a := Action.command 1 [ascii "SET", ascii "k", ascii "v"] {}) trivial rfl
  have h₂ := h₁.step (a := Action.append .none) trivial rfl
  have h₃ := h₂.step (a := Action.propagate fun _ => false) trivial rfl
  have h₄ := h₃.step (a := Action.command 1 [ascii "SET", ascii "a", ascii "1"] {}) trivial rfl
  have h₅ := h₄.step (a := Action.append (.fsyncFails [])) trivial rfl
  exact ⟨_, _, h₅, rfl, by decide +kernel, log_ahead rfl rfl rfl rfl h₅⟩

end ByoRedis.Analysis
