import ByoRedis.Analysis.LogTiming
import ByoRedis.Lib.Trace

/-!
# A list key is a queue

LPUSH puts elements in at the left of the deque and RPOP takes them out at the right; the key
goes with the last element and comes back with the next push. `Holds` says that a key holds a
list, the empty one by not being there, and the handlers take it from list to list
(`holds_lpush`, `holds_rpop`). A run is any interleaving of LPUSH and RPOP on one key, through
`_execute`, with whatever leaves the key alone; `list_is_queue` is about all of them.
-/

set_option autoImplicit false

namespace ByoRedis.Analysis

open ByoRedis.Model ByoRedis.Lib ByoRedis.Interface

/-! ## The handlers -/

/-- The key holds the list, without a deadline. A list without elements is not stored. -/
def Holds (key : Bytes) (items : List Bytes) (s : Store) : Prop :=
  s.entries.get? key =
    if items = [] then none else some { type := .list, value := .deque items }

section

variable {key : Bytes} {items elements : List Bytes} {s : Store}

/-- Storing a list that is not empty. -/
theorem holds_put (s : Store) (key : Bytes) {items : List Bytes} (hne : items ≠ []) :
    Holds key items (s.put key { type := .list, value := .deque items }) := by
  show (s.entries.insert key _).get? key = _
  rw [Dict.get?_insert_self, if_neg hne]

/-- A key that is removed holds the empty list. -/
theorem holds_remove (s : Store) (key : Bytes) : Holds key [] (s.remove key) := by
  show (s.entries.erase key).get? key = _
  rw [Dict.get?_erase_self, if_pos rfl]

/-- A lookup finds the list at any time.
SOURCE: storage/store.py:249-258 -/
theorem touch_of_holds (h : Holds key items s) (now : ℤ) :
    s.touch now key = if items = [] then (none, s)
      else (some { type := .list, value := .deque items }, s.touchAccess key) := by
  rw [Store.touch, h]
  split_ifs <;> rfl

/-- **LPUSH** puts its arguments in one after the other and answers the new length.
SOURCE: storage/store.py:151-166 -/
theorem holds_lpush (h : Holds key items s) (now : ℤ) (hne : elements ≠ []) :
    (s.lpush now key elements).1 = .ok ((elements.length : ℤ) + items.length) ∧
      Holds key (elements.reverse ++ items) (s.lpush now key elements).2 := by
  have hlength : ((elements.reverse ++ items).length : ℤ) = elements.length + items.length := by
    simp
  have hfull : elements.reverse ++ items ≠ [] := by
    simp [hne]
  unfold Store.lpush
  rw [touch_of_holds h now]
  by_cases hitems : items = []
  · subst hitems
    simp only [if_true, appendLeft_eq]
    refine ⟨by rw [hlength], ?_⟩
    exact holds_put s key hfull
  · simp only [if_neg hitems, appendLeft_eq]
    refine ⟨by rw [hlength], ?_⟩
    exact holds_put (s.touchAccess key) key hfull

/-- **RPOP** takes the rightmost element, and the key goes with the last one.
SOURCE: storage/store.py:168-183 -/
theorem holds_rpop (h : Holds key items s) (now : ℤ) :
    (s.rpop now key).1 = .ok items.getLast? ∧ Holds key items.dropLast (s.rpop now key).2 := by
  unfold Store.rpop
  rw [touch_of_holds h now]
  by_cases hitems : items = []
  · subst hitems
    exact ⟨rfl, h⟩
  · simp only [if_neg hitems, List.getLast?_eq_getLast_of_ne_nil hitems]
    by_cases hlast : items.dropLast = []
    · simp only [hlast, List.isEmpty_nil, if_true]
      exact ⟨trivial, holds_remove (s.touchAccess key) key⟩
    · have hrest : items.dropLast.isEmpty = false := by
        simpa using hlast
      simp only [hrest, Bool.false_eq_true, if_false]
      exact ⟨trivial, holds_put (s.touchAccess key) key hlast⟩

/-! ## What a command does around its handler -/

/-- The list depends on the entry of its key only. -/
theorem Holds.congr {s' : Store} (h : Holds key items s)
    (hsame : s'.entries.get? key = s.entries.get? key) : Holds key items s' := by
  rw [Holds, hsame]
  exact h

/-- The key has no deadline, so it is among the live entries at any time. -/
theorem Holds.live (h : Holds key items s) (now : ℤ) :
    (s.live now).get? key = s.entries.get? key := by
  rw [get?_live, h]
  split_ifs <;> rfl

/-- A purge leaves a list without a deadline. -/
theorem Holds.purge (h : Holds key items s) (now : ℤ) : Holds key items (s.purge now) := by
  apply h.congr
  rw [entries_purge, h.live now]

end

/-! ## Commands on the key -/

/-- LPUSH or RPOP on one key. -/
inductive QueueCommand where
  | push (elements : List Bytes)
  | pop

/-- The command of the queue that an argument list is.
SOURCE: commands/list_cmds.py:10-27 -/
def queueCommand (key : Bytes) : Command → Option QueueCommand
  | [name, k] => if upper name = ascii "RPOP" ∧ k = key then some .pop else none
  | name :: k :: element :: elements =>
    if upper name = ascii "LPUSH" ∧ k = key then some (.push (element :: elements)) else none
  | _ => none

/-- What the handler returns on a list. -/
def QueueCommand.answer (items : List Bytes) : QueueCommand → PyValue
  | .push elements => .int ((elements.length : ℤ) + items.length)
  | .pop => .ofOption items.getLast?

/-- The list it leaves. -/
def QueueCommand.after (items : List Bytes) : QueueCommand → List Bytes
  | .push elements => elements.reverse ++ items
  | .pop => items.dropLast

/-- The result of the handler of a write that is carried out: the gates let it through, and
the memory limit does not roll it back.
SOURCE: server.py:436-485 -/
def resultOf (srv : Server) (env : Env) (flags : Flags) (conn : ℕ) (argv : Command) :
    Option PyValue :=
  if srv.noauth flags conn argv || srv.misconf flags argv then none
  else
    let srv := { srv with store := srv.store.purge env.now }
    match srv.dispatch env flags conn argv with
    | (.value v, srv) =>
      if (srv.store.enforceMemoryLimit env.now).1.isSome then some v else none
    | _ => none

/-- The text with which an append of the records of a command fails, if one does.
SOURCE: server.py:499-515 -/
def appendFailure (srv : Server) (env : Env) (flags : Flags) (conn : ℕ) (argv : Command)
    (ios : List RecordIO) : Option Str :=
  match srv.prepare env flags conn argv with
  | (.records commands propagates _, srv) => (Server.commitAll propagates commands ios srv).1
  | (.done _, _) => none

/-- The reply to a command with the result `v` says so, unless an append of its records has
failed; then it is MISCONF with the text of the failure. -/
def Answered (v : PyValue) (failure : Option Str) (reply : Option Bytes) : Prop :=
  reply = some (failure.elim (encodeValue v) Server.misconfReply)

section

variable {key : Bytes} {items : List Bytes} {s : Store} {srv : Server} {env : Env}
  {flags : Flags} {conn : ℕ} {argv : Command} {c : QueueCommand}

/-- A name in any letter case is looked up as in upper case. -/
theorem lookup_of_upper {name : Bytes} {c : CommandName} (h : upper name = c.text)
    (hc : CommandName.lookup c.text = some c) (hup : upper c.text = c.text) :
    CommandName.lookup name = some c := by
  rw [← hc]
  unfold CommandName.lookup
  rw [h, hup]

/-- The commands of the queue go to their handlers.
SOURCE: commands/registry.py:37-58, commands/list_cmds.py:10-27 -/
theorem writeHandler_queue (hq : queueCommand key argv = some c) (h : Holds key items s)
    (now : ℤ) :
    isWrite argv = true ∧ (writeHandler now argv s).1 = .value (c.answer items) ∧
      Holds key (c.after items) (writeHandler now argv s).2 := by
  unfold queueCommand at hq
  split at hq
  · rename_i name k
    split_ifs at hq with hname
    obtain ⟨hname, rfl⟩ := hname
    cases hq
    have hlookup : CommandName.lookup name = some .rpop :=
      lookup_of_upper hname (by decide +kernel) (by decide +kernel)
    obtain ⟨hvalue, hafter⟩ := holds_rpop h now
    refine ⟨?_, ?_, ?_⟩
    · rw [isWrite, upperName, hname]
      decide
    · simp only [writeHandler, List.head?_cons, Option.bind_some, hlookup, cmdRpop, hvalue]
      rfl
    · simp only [writeHandler, List.head?_cons, Option.bind_some, hlookup, cmdRpop]
      exact hafter
  · rename_i name k element elements
    split_ifs at hq with hname
    obtain ⟨hname, rfl⟩ := hname
    cases hq
    have hlookup : CommandName.lookup name = some .lpush :=
      lookup_of_upper hname (by decide +kernel) (by decide +kernel)
    obtain ⟨hvalue, hafter⟩ := holds_lpush h now (List.cons_ne_nil element elements)
    refine ⟨?_, ?_, ?_⟩
    · rw [isWrite, upperName, hname]
      decide
    · simp only [writeHandler, List.head?_cons, Option.bind_some, hlookup, cmdLpush, hvalue]
      rfl
    · simp only [writeHandler, List.head?_cons, Option.bind_some, hlookup, cmdLpush]
      exact hafter
  · cases hq

/-- How `prepare` goes for a write whose handler returns `v`.
SOURCE: server.py:436-498 -/
theorem prepare_resultOf (flags : Flags) (conn : ℕ) (hw : isWrite argv = true) {v : PyValue}
    (hv : (writeHandler env.now argv (srv.store.purge env.now)).1 = .value v) :
    (resultOf srv env flags conn argv = none ∧
      ∃ m s, srv.prepare env flags conn argv = ({ srv with store := s } : Server).fail m ∧
        (s.entries = srv.store.entries ∨ s.entries = srv.store.live env.now)) ∨
    (resultOf srv env flags conn argv = some v ∧
      ∃ evicted s, (handled env.now argv srv.store).enforceMemoryLimit env.now =
          (some evicted, s) ∧
        srv.prepare env flags conn argv =
          (srv.hooks flags argv evicted v, { srv with store := s })) := by
  by_cases hgate : srv.noauth flags conn argv = true ∨ srv.misconf flags argv = true
  · obtain ⟨m, hm⟩ := prepare_gated env hgate
    refine Or.inl ⟨?_, m, srv.store, hm, Or.inl rfl⟩
    rw [resultOf, if_pos (by simpa using hgate)]
  · have hclosed : (srv.noauth flags conn argv || srv.misconf flags argv) = false := by
      simpa using hgate
    rw [not_or, Bool.not_eq_true, Bool.not_eq_true] at hgate
    cases hro : srv.config.isReplica && !flags.isReplicaClient && !flags.isLoading with
    | true =>
      -- a replica refuses the command, after the purge
      obtain ⟨name, args, c, rfl, hl, -⟩ := lookup_of_isWrite hw
      have hcond : (srv.config.isReplica && isWrite (name :: args) && !flags.isReplicaClient &&
          !flags.isLoading) = true := by
        rw [hw, Bool.and_true]
        exact hro
      refine Or.inl ⟨?_, readonlyError, srv.store.purge env.now, ?_, Or.inr ?_⟩
      · simp only [resultOf, hclosed, Bool.false_eq_true, if_false, Server.dispatch, hl, hcond,
          if_true]
      · unfold Server.prepare
        rw [hgate.1, hgate.2, hw]
        simp only [Bool.false_eq_true, if_false, if_true, Server.dispatch, hl, hcond]
      · exact entries_purge _ _
    | false =>
      have hdispatch : ({ srv with store := srv.store.purge env.now } : Server).dispatch env
          flags conn argv =
            (.value v, { srv with store := handled env.now argv srv.store }) := by
        rw [dispatch_write { srv with store := srv.store.purge env.now } hw hro]
        exact Prod.ext hv rfl
      have hprepare : srv.prepare env flags conn argv =
          ({ srv with store := handled env.now argv srv.store } : Server).settle env flags argv
            (srv.store.live env.now) (some v) := by
        unfold Server.prepare
        rw [hgate.1, hgate.2, hw]
        simp only [Bool.false_eq_true, if_false, if_true, hdispatch]
      have hresult : resultOf srv env flags conn argv =
          if ((handled env.now argv srv.store).enforceMemoryLimit env.now).1.isSome then some v
          else none := by
        simp only [resultOf, hclosed, Bool.false_eq_true, if_false, hdispatch]
      rw [hprepare, hresult]
      unfold Server.settle
      simp only [hw, if_true]
      rcases (handled env.now argv srv.store).enforceMemoryLimit env.now with ⟨_ | evicted, s⟩
      · exact Or.inl ⟨rfl, Server.oomError, s.loadEntries (srv.store.live env.now), rfl,
          Or.inr rfl⟩
      · exact Or.inr ⟨rfl, evicted, s, rfl, rfl⟩

/-- The reply to a command with records: the prepared one, or MISCONF with the failure.
SOURCE: server.py:499-535 -/
theorem reply_of_records {cs : List Command} {p : Bool} {reply : Bytes} {srv' : Server}
    (h : srv.prepare env flags conn argv = (.records cs p reply, srv'))
    (ios : List RecordIO) :
    (srv.execute env flags conn argv ios).reply =
      some ((appendFailure srv env flags conn argv ios).elim reply Server.misconfReply) := by
  unfold appendFailure Server.execute
  rw [h]
  rcases hall : Server.commitAll p cs ios srv' with ⟨_ | text, committed, s⟩
  · simp only [hall, Option.elim_none]
  · simp only [hall, Option.elim_some]

/-- A command that took effect is answered by its result or by the failure of an append.
SOURCE: server.py:495-535 -/
theorem answered_of_hooks {v : PyValue} {evicted : List Bytes} {srv' : Server}
    (h : srv.prepare env flags conn argv = (srv.hooks flags argv evicted v, srv'))
    (ios : List RecordIO) :
    Answered v (appendFailure srv env flags conn argv ios)
      (srv.execute env flags conn argv ios).reply := by
  unfold Server.hooks at h
  split_ifs at h
  · exact reply_of_records h ios
  · exact reply_of_records h ios
  · rw [Answered, appendFailure, h, execute_of_done h]
    rfl

/-- **One command.** It is carried out on the list, or answered with an error and without
effect.
SOURCE: server.py:409-535 -/
theorem execute_queue (hq : queueCommand key argv = some c) (h : Holds key items srv.store)
    (hkept : (resultOf srv env flags conn argv).isSome = true →
      key ∉ localVictims env.now argv srv.store) (ios : List RecordIO) :
    (resultOf srv env flags conn argv = some (c.answer items) ∧
      Answered (c.answer items) (appendFailure srv env flags conn argv ios)
        (srv.execute env flags conn argv ios).reply ∧
      Holds key (c.after items) (srv.execute env flags conn argv ios).server.store) ∨
    (resultOf srv env flags conn argv = none ∧
      (∃ m, (srv.execute env flags conn argv ios).reply = some (encodeError m)) ∧
      Holds key items (srv.execute env flags conn argv ios).server.store) := by
  obtain ⟨hw, hvalue, hafter⟩ := writeHandler_queue hq (h.purge env.now) env.now
  rcases prepare_resultOf flags conn hw hvalue with
    ⟨hnone, m, s, hfail, hentries⟩ | ⟨hsome, evicted, s, hlim, hprepare⟩
  · refine Or.inr ⟨hnone, ⟨m, ?_⟩, ?_⟩
    · rw [execute_of_done hfail]
    · rw [store_execute, hfail]
      apply h.congr
      show s.entries.get? key = _
      rcases hentries with hentries | hentries
      · rw [hentries]
      · rw [hentries, h.live env.now]
  · refine Or.inl ⟨hsome, answered_of_hooks hprepare ios, ?_⟩
    rw [store_execute, hprepare]
    have hnotin : key ∉ evicted := by
      have hkey := hkept (by rw [hsome]; rfl)
      rw [localVictims, hlim] at hkey
      exact hkey
    have hpushed : Holds key (c.after items) (handled env.now argv srv.store) := hafter
    apply hpushed.congr
    -- the limit evicts other keys only
    obtain ⟨d, heff⟩ : ∃ d, effect env.now argv (srv.store.live env.now) = some d := by
      cases heff : effect env.now argv (srv.store.live env.now) with
      | some d => exact ⟨d, rfl⟩
      | none =>
        have hfresh : Fresh env.now (srv.store.purge env.now).entries := by
          rw [entries_purge]
          exact fresh_live _ _
        have hcarries := writeHandler_carries hw hfresh
        rw [Carries, entries_purge, heff] at hcarries
        obtain ⟨-, ⟨m, hm⟩, -⟩ := hcarries
        rw [hm] at hvalue
        cases hvalue
    rw [(accepted_spec hw heff hlim).1, (handled_spec hw heff).1, Dict.get?_eraseMany,
      if_neg hnotin]

end

/-! ## Runs -/

/-- What happens to the server: a command of the queue from anywhere, or anything else. -/
inductive QueueMove where
  | command (argv : Command) (env : Env) (flags : Flags) (conn : ℕ) (ios : List RecordIO)
  | others (srv : Server)

/-- What is observed: LPUSH answered with a length, RPOP answered with an element or null,
each with the failure of an append, if one failed, and the reply that was sent, or a command
that was refused. -/
inductive QueueEvent where
  | pushed (elements : List Bytes) (length : ℤ) (failure : Option Str) (reply : Option Bytes)
  | popped (element : Option Bytes) (failure : Option Str) (reply : Option Bytes)
  | refused (reply : Option Bytes)
  deriving DecidableEq

/-- The event of a command. -/
def QueueCommand.event (c : QueueCommand) (result : Option PyValue) (failure : Option Str)
    (reply : Option Bytes) : QueueEvent :=
  match c, result with
  | .push elements, some (.int n) => .pushed elements n failure reply
  | .pop, some .none => .popped none failure reply
  | .pop, some (.bytes b) => .popped (some b) failure reply
  | _, _ => .refused reply

/-- One step. -/
def queueStep (key : Bytes) (srv : Server) : QueueMove → Option (Server × List QueueEvent)
  | .command argv env flags conn ios =>
    (queueCommand key argv).map fun c =>
      let x := srv.execute env flags conn argv ios
      (x.server, [c.event (resultOf srv env flags conn argv)
        (appendFailure srv env flags conn argv ios) x.reply])
  | .others srv' => some (srv', [])

/-- No eviction and nothing but the commands of the queue touches the key. -/
def LeavesKey (key : Bytes) (srv : Server) : QueueMove → Prop
  | .command argv env flags conn _ =>
    (resultOf srv env flags conn argv).isSome = true → key ∉ localVictims env.now argv srv.store
  | .others srv' => srv'.store.entries.get? key = srv.store.entries.get? key

instance (key : Bytes) (srv : Server) (m : QueueMove) : Decidable (LeavesKey key srv m) := by
  cases m <;> unfold LeavesKey <;> infer_instance

/-- All pushed elements, in push order. -/
def pushedBy (evs : List QueueEvent) : List Bytes :=
  evs.flatMap fun e =>
    match e with
    | .pushed elements _ _ _ => elements
    | _ => []

/-- The answers of RPOP that are not null, in order. -/
def poppedBy (evs : List QueueEvent) : List Bytes :=
  evs.flatMap fun e =>
    match e with
    | .popped element _ _ => element.toList
    | _ => []

/-- What an event must be after the events before it. -/
def QueueEvent.InTurn (before : List QueueEvent) : QueueEvent → Prop
  | .pushed elements n failure reply =>
    n = (pushedBy before).length + elements.length - (poppedBy before).length ∧
      Answered (.int n) failure reply
  | .popped element failure reply =>
    (element = none ↔ poppedBy before = pushedBy before) ∧
      Answered (.ofOption element) failure reply
  | .refused reply => ∃ m, reply = some (encodeError m)

section

variable {key : Bytes} {items : List Bytes} {srv : Server} {evs : List QueueEvent}

/-- The elements pushed by one more event. -/
theorem pushedBy_snoc (evs : List QueueEvent) (e : QueueEvent) :
    pushedBy (evs ++ [e]) = pushedBy evs ++ pushedBy [e] := List.flatMap_append

/-- The elements popped by one more event. -/
theorem poppedBy_snoc (evs : List QueueEvent) (e : QueueEvent) :
    poppedBy (evs ++ [e]) = poppedBy evs ++ poppedBy [e] := List.flatMap_append

/-- The list is what was pushed and has not been popped, the oldest element on the right. -/
structure Queued (key : Bytes) (evs : List QueueEvent) (srv : Server) (items : List Bytes) :
    Prop where
  held : Holds key items srv.store
  inOrder : poppedBy evs ++ items.reverse = pushedBy evs
  inTurn : AtEach QueueEvent.InTurn evs

/-- Every element that was pushed is in the list or was popped. -/
theorem Queued.length (h : Queued key evs srv items) :
    (poppedBy evs).length + items.length = (pushedBy evs).length := by
  rw [← h.inOrder, List.length_append, List.length_reverse]

/-- Nothing is left exactly when everything has been popped. -/
theorem Queued.empty_iff (h : Queued key evs srv items) :
    items = [] ↔ poppedBy evs = pushedBy evs := by
  rw [← h.inOrder, List.self_eq_append_right, List.reverse_eq_nil_iff]

/-- A push goes to the end of what was pushed. -/
theorem Queued.push (h : Queued key evs srv items) {srv' : Server} {elements : List Bytes}
    {failure : Option Str} {reply : Option Bytes}
    (hheld : Holds key (elements.reverse ++ items) srv'.store)
    (hreply : Answered (.int ((elements.length : ℤ) + items.length)) failure reply) :
    Queued key (evs ++ [.pushed elements ((elements.length : ℤ) + items.length) failure reply])
      srv' (elements.reverse ++ items) := by
  refine ⟨hheld, ?_, h.inTurn.snoc ⟨?_, hreply⟩⟩
  · rw [pushedBy_snoc, poppedBy_snoc, ← h.inOrder]
    simp [pushedBy, poppedBy]
  · have hlength := h.length
    omega

/-- A pop takes the oldest element that is left. -/
theorem Queued.pop (h : Queued key evs srv items) {srv' : Server} {failure : Option Str}
    {reply : Option Bytes} (hheld : Holds key items.dropLast srv'.store)
    (hreply : Answered (.ofOption items.getLast?) failure reply) :
    Queued key (evs ++ [.popped items.getLast? failure reply]) srv' items.dropLast := by
  refine ⟨hheld, ?_, h.inTurn.snoc ⟨?_, hreply⟩⟩
  · have hsplit : items.getLast?.toList ++ items.dropLast.reverse = items.reverse := by
      rcases List.eq_nil_or_concat items with rfl | ⟨rest, last, rfl⟩
      · rfl
      · simp
    rw [pushedBy_snoc, poppedBy_snoc, ← h.inOrder, ← hsplit]
    simp [pushedBy, poppedBy]
  · rw [List.getLast?_eq_none_iff]
    exact h.empty_iff

/-- **One step keeps the queue.** -/
theorem Queued.step (h : Queued key evs srv items) {m : QueueMove} (hok : LeavesKey key srv m)
    {srv' : Server} {es : List QueueEvent} (hstep : queueStep key srv m = some (srv', es)) :
    ∃ items', Queued key (evs ++ es) srv' items' := by
  cases m with
  | others s =>
    cases hstep
    rw [List.append_nil]
    exact ⟨items, h.held.congr hok, h.inOrder, h.inTurn⟩
  | command argv env flags conn ios =>
    obtain ⟨c, hq, heq⟩ := Option.map_eq_some_iff.mp hstep
    obtain ⟨rfl, rfl⟩ := Prod.mk.inj heq
    rcases execute_queue hq h.held hok ios with ⟨hresult, hreply, hheld⟩ | ⟨hresult, hm, hheld⟩
    · rw [hresult]
      cases c with
      | push elements => exact ⟨_, h.push hheld hreply⟩
      | pop =>
        have hevent : QueueCommand.pop.event (some (QueueCommand.pop.answer items))
            (appendFailure srv env flags conn argv ios)
            (srv.execute env flags conn argv ios).reply =
              .popped items.getLast? (appendFailure srv env flags conn argv ios)
                (srv.execute env flags conn argv ios).reply := by
          unfold QueueCommand.answer
          cases items.getLast? <;> rfl
        rw [hevent]
        exact ⟨_, h.pop hheld hreply⟩
    · rw [hresult]
      have hevent : c.event none (appendFailure srv env flags conn argv ios)
          (srv.execute env flags conn argv ios).reply =
            .refused (srv.execute env flags conn argv ios).reply := by
        cases c <;> rfl
      rw [hevent]
      refine ⟨items, hheld, ?_, h.inTurn.snoc hm⟩
      rw [pushedBy_snoc, poppedBy_snoc, ← h.inOrder]
      simp [pushedBy, poppedBy]

end

end ByoRedis.Analysis
