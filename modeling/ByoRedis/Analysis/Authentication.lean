import ByoRedis.Analysis.Unauthenticated
import ByoRedis.Lib.Trace
import ByoRedis.Model.Connections

/-!
# Authentication of connections

`_authenticated_connections` and `_authentication_failures` are shared by all connections.
`account` reads off a run what a connection has done itself since it was opened, and an
`Entry` says that the two collections hold just that for it; `Books` are the entries of all
connections, which every step keeps (`Books.step`). From this `authentication_of_connections`:
no command but AUTH is dispatched for a connection that has not sent the password, and no
connection that only guesses has more passwords compared than `max_auth_failures`.
-/

set_option autoImplicit false

namespace ByoRedis.Analysis

open ByoRedis.Model ByoRedis.Lib ByoRedis.Interface

/-! ## Commands and the two collections -/

/-- What the authentication looks at. -/
def accounts (srv : Server) : Config × List ℕ × Dict ℕ ℕ :=
  (srv.config, srv.authenticated, srv.authFailures)

variable {srv : Server} {env : Env} {flags : Flags} {conn : ℕ} {argv : Command}

/-- The accounts after the comparison that a command may lead to. -/
def accountsAfter (srv : Server) (conn : ℕ) (argv : Command) : Config × List ℕ × Dict ℕ ℕ :=
  match srv.comparedPassword argv with
  | some password => accounts (srv.authenticate conn password).2
  | none => accounts srv

/-- Only AUTH compares a password. -/
theorem comparedPassword_of_ne (h : upperName argv ≠ ascii "AUTH") :
    srv.comparedPassword argv = none := by
  unfold Server.comparedPassword
  split
  · simp [h]
  · rfl

/-- AUTH changes the accounts by its comparison.
SOURCE: commands/connection_cmds.py:40-48 -/
theorem accounts_cmdAuth (h : upperName argv = ascii "AUTH") :
    accounts (srv.cmdAuth conn argv).2 = accountsAfter srv conn argv := by
  unfold Server.cmdAuth accountsAfter Server.comparedPassword
  rcases argv with _ | ⟨name, _ | ⟨p, _ | ⟨q, rest⟩⟩⟩
  · rfl
  · rfl
  · cases hreq : srv.config.requirepass with
    | none => simp
    | some password =>
      simp only [h, Option.isNone_some, Option.isSome_some, decide_true, Bool.and_self,
        if_true, Bool.false_eq_true, if_false]
      rcases srv.authenticate conn p with ⟨_ | _, srv'⟩ <;> rfl
  · rfl

/-- SOURCE: replication/master.py:126-204 -/
theorem accounts_fullResync (srv : Server) (now : ℤ) (conn : ℕ) :
    accounts (srv.fullResync now conn).2 = accounts srv := by
  unfold Server.fullResync
  simp only
  cases dumpRdbEntries (srv.store.snapshot now).1 <;> rfl

/-- The other handlers leave the accounts alone.
SOURCE: commands/registry.py:60-98 -/
theorem accounts_handle (srv : Server) (env : Env) (conn : ℕ) (argv : Command) {c : CommandName}
    (hc : c ≠ .auth) : accounts (srv.handle env conn argv c).2 = accounts srv := by
  cases c with
  | auth => exact absurd rfl hc
  | info =>
    simp only [Server.handle, Server.cmdInfo]
    split_ifs <;> rfl
  | save =>
    simp only [Server.handle, Server.cmdSave]
    split_ifs
    · rfl
    · split
      · rfl
      · split <;> rfl
  | bgsave =>
    simp only [Server.handle, Server.cmdBgsave]
    split_ifs <;> rfl
  | bgrewriteaof =>
    simp only [Server.handle, Server.cmdBgrewriteaof]
    split_ifs <;> rfl
  | psync =>
    have hsame := accounts_fullResync srv env.now conn
    simp only [Server.handle, Server.cmdPsync]
    split_ifs
    · rfl
    · rcases hr : srv.fullResync env.now conn with ⟨_ | _, srv'⟩ <;>
      · rw [hr] at hsame
        exact hsame
    · rfl
  | _ => rfl

/-- SOURCE: commands/registry.py:37-58 -/
theorem accounts_dispatch (srv : Server) (env : Env) (flags : Flags) (conn : ℕ)
    (argv : Command) :
    accounts (srv.dispatch env flags conn argv).2 = accountsAfter srv conn argv := by
  cases argv with
  | nil => rfl
  | cons name args =>
    by_cases hauth : upperName (name :: args) = ascii "AUTH"
    · have hlookup : CommandName.lookup name = some .auth := by
        have hl : CommandName.lookup name =
            CommandName.registered.find? fun c => decide (c.text = upper name) := rfl
        rw [show upper name = ascii "AUTH" from hauth] at hl
        exact hl
      simp only [Server.dispatch, hlookup, isWrite_auth hauth, Bool.and_false, Bool.false_and,
        Bool.false_eq_true, if_false]
      exact accounts_cmdAuth hauth
    · rw [accountsAfter, comparedPassword_of_ne hauth]
      cases hl : CommandName.lookup name with
      | none =>
        simp only [Server.dispatch, hl]
      | some c =>
        have hc : c ≠ .auth := by
          rintro rfl
          exact hauth (text_of_lookup hl).symm
        simp only [Server.dispatch, hl]
        split_ifs
        · rfl
        · exact accounts_handle srv env conn _ hc

/-- The memory limit and the hooks leave the accounts alone. -/
theorem accounts_settle (srv : Server) (env : Env) (flags : Flags) (argv : Command)
    (before : Entries) (result : Option PyValue) :
    accounts (srv.settle env flags argv before result).2 = accounts srv := by
  unfold Server.settle
  simp only
  generalize (if isWrite argv then srv.store.enforceMemoryLimit env.now
    else (some [], srv.store)) = limited
  rcases limited with ⟨_ | evicted, store⟩
  · rfl
  · cases result <;> rfl

/-- What the synchronous part of a command does to the accounts. The gate on unauthenticated
connections lets AUTH through, and the gate on the AOF holds back writes only.
SOURCE: server.py:436-498 -/
theorem accounts_prepare (srv : Server) (env : Env) (flags : Flags) (conn : ℕ)
    (argv : Command) :
    accounts (srv.prepare env flags conn argv).2 = accountsAfter srv conn argv := by
  have hnone : upperName argv ≠ ascii "AUTH" → accountsAfter srv conn argv = accounts srv := by
    intro hauth
    rw [accountsAfter, comparedPassword_of_ne hauth]
  unfold Server.prepare
  by_cases hno : srv.noauth flags conn argv = true
  · have hauth : upperName argv ≠ ascii "AUTH" := by
      intro h
      simp [Server.noauth, h] at hno
    rw [if_pos hno, hnone hauth]
    rfl
  · rw [if_neg hno]
    by_cases hmis : srv.misconf flags argv = true
    · have hauth : upperName argv ≠ ascii "AUTH" := by
        intro h
        simp [Server.misconf, isWrite_auth h] at hmis
      rw [if_pos hmis, hnone hauth]
      rfl
    · rw [if_neg hmis]
      simp only
      generalize hpurged : (if isWrite argv = true then
        { srv with store := srv.store.purge env.now } else srv) = purged
      have hafter : accountsAfter purged conn argv = accountsAfter srv conn argv := by
        rw [← hpurged]
        split_ifs with hw
        · have hauth : upperName argv ≠ ascii "AUTH" := by
            intro h
            rw [isWrite_auth h] at hw
            cases hw
          rw [hnone hauth, accountsAfter, comparedPassword_of_ne hauth]
          rfl
        · rfl
      have hdispatch := accounts_dispatch purged env flags conn argv
      rw [hafter] at hdispatch
      rw [← hdispatch]
      generalize purged.dispatch env flags conn argv = r
      obtain ⟨handled, srv'⟩ := r
      cases handled with
      | value v => exact accounts_settle srv' env flags argv _ _
      | noReply => exact accounts_settle srv' env flags argv _ _
      | error message => rfl
      | internal => rfl

/-- So do the records. -/
theorem accounts_commitAll (p : Bool) (cs : List Command) (ios : List RecordIO) (srv : Server) :
    accounts (Server.commitAll p cs ios srv).2.2 = accounts srv := by
  induction cs generalizing ios srv with
  | nil => rfl
  | cons c cs ih =>
    have hcommit : accounts (srv.commit p c (ios.headD {})).2 = accounts srv := by
      unfold Server.commit
      split
      · rfl
      · cases p <;> rfl
    rw [Server.commitAll]
    rcases hc : srv.commit p c (ios.headD {}) with ⟨_ | _, srv'⟩
    · rw [hc] at hcommit
      exact hcommit
    · rw [hc] at hcommit
      exact (ih ios.tail srv').trans hcommit

/-- **A command changes the accounts by the comparison it leads to, and not otherwise.**
SOURCE: server.py:409-535 -/
theorem accounts_execute (srv : Server) (env : Env) (flags : Flags) (conn : ℕ) (argv : Command)
    (ios : List RecordIO) :
    accounts (srv.execute env flags conn argv ios).server = accountsAfter srv conn argv := by
  rw [← accounts_prepare srv env flags conn argv]
  unfold Server.execute
  rcases srv.prepare env flags conn argv with ⟨reply | ⟨cs, p, reply⟩, srv'⟩
  · rfl
  · have hcommit := accounts_commitAll p cs ios srv'
    rcases hc : Server.commitAll p cs ios srv' with ⟨_ | text, committed, srv''⟩ <;>
    · rw [hc] at hcommit
      simp only [hc]
      exact hcommit

/-! ## What a connection has done -/

/-- What a connection's own events since it was opened amount to: whether it has presented the
password, and the wrong passwords since. -/
structure Account where
  loggedIn : Bool := false
  failures : ℕ := 0
  deriving DecidableEq

/-- One event. -/
def Account.observe (password : Bytes) (conn : ℕ) (a : Account) : AuthEvent → Account
  | .opened c => if c = conn then {} else a
  | .compared c p =>
    if c = conn then
      if p = password then { loggedIn := true } else { a with failures := a.failures + 1 }
    else a
  | .closed c => if c = conn then {} else a
  | _ => a

/-- What the events say about a connection. -/
def account (password : Bytes) (conn : ℕ) (evs : List AuthEvent) : Account :=
  evs.foldl (Account.observe password conn) {}

/-- The events since the connection was opened. -/
def sinceOpened (conn : ℕ) (evs : List AuthEvent) : List AuthEvent :=
  (evs.reverse.takeWhile fun e => e ≠ .opened conn).reverse

/-- The connection has sent AUTH with the password since it was opened. -/
def SentPassword (password : Bytes) (conn : ℕ) (evs : List AuthEvent) : Prop :=
  ∃ name, upper name = ascii "AUTH" ∧ .sent conn [name, password] ∈ sinceOpened conn evs

/-- The passwords compared for a connection. -/
def guesses (conn : ℕ) (evs : List AuthEvent) : List Bytes :=
  evs.filterMap fun e =>
    match e with
    | .compared c p => if c = conn then some p else none
    | _ => none

/-- The connection an event is about. -/
def about : AuthEvent → ℕ
  | .opened c => c
  | .sent c _ => c
  | .dispatched c _ => c
  | .compared c _ => c
  | .closed c => c

section

variable {password : Bytes} {evs es : List AuthEvent}

/-- The account of two stretches. -/
theorem account_append (password : Bytes) (conn : ℕ) (evs es : List AuthEvent) :
    account password conn (evs ++ es) =
      es.foldl (Account.observe password conn) (account password conn evs) :=
  List.foldl_append

/-- The guesses of two stretches. -/
theorem guesses_append (conn : ℕ) (evs es : List AuthEvent) :
    guesses conn (evs ++ es) = guesses conn evs ++ guesses conn es :=
  List.filterMap_append

/-- The events of other connections do not count. -/
theorem account_of_others (h : ∀ e ∈ es, about e ≠ conn) :
    account password conn (evs ++ es) = account password conn evs := by
  rw [account_append]
  generalize account password conn evs = a
  induction es with
  | nil => rfl
  | cons e es ih =>
    have he : a.observe password conn e = a := by
      have hne := h e List.mem_cons_self
      cases e with
      | opened c => exact if_neg hne
      | sent c argv => rfl
      | dispatched c argv => rfl
      | compared c p => exact if_neg hne
      | closed c => exact if_neg hne
    rw [List.foldl_cons, he]
    exact ih fun e' he' => h e' (List.mem_cons_of_mem _ he')

/-- Other connections do not guess for this one. -/
theorem guesses_of_others (h : ∀ e ∈ es, about e ≠ conn) : guesses conn es = [] := by
  apply List.filterMap_eq_nil_iff.mpr
  intro e he
  cases e with
  | compared c p => exact if_neg (h _ he)
  | opened c => rfl
  | sent c argv => rfl
  | dispatched c argv => rfl
  | closed c => rfl

/-- Since its opening, for a connection that is not opened again. -/
theorem sinceOpened_append (h : .opened conn ∉ es) :
    sinceOpened conn (evs ++ es) = sinceOpened conn evs ++ es := by
  have hall : ∀ e ∈ es.reverse, decide (e ≠ AuthEvent.opened conn) = true := by
    intro e he
    rw [decide_eq_true_eq]
    rintro rfl
    exact h (List.mem_reverse.mp he)
  rw [sinceOpened, List.reverse_append, List.takeWhile_append_of_pos hall, List.reverse_append,
    List.reverse_reverse]
  rfl

/-- A password that was sent stays sent until the connection is opened again. -/
theorem SentPassword.append (h : SentPassword password conn evs) (hes : .opened conn ∉ es) :
    SentPassword password conn (evs ++ es) := by
  obtain ⟨name, hname, hsent⟩ := h
  refine ⟨name, hname, ?_⟩
  rw [sinceOpened_append hes]
  exact List.mem_append_left _ hsent

end

/-! ## The entry of a connection -/

/-- How many wrong passwords a running task may have on its account: the last one is counted
before the loop looks. -/
def Spare (limit failures : ℕ) : Stage → Prop
  | .replied argv => failures < limit ∨ upperName argv = ascii "AUTH"
  | _ => failures < limit

/-- What the server knows of a connection, and its task. -/
structure Entry (limit : ℕ) (password : Bytes) (conn : ℕ) (evs : List AuthEvent) (srv : Server)
    (task : Option ClientTask) : Prop where
  loggedIn : conn ∈ srv.authenticated ↔ (account password conn evs).loggedIn = true
  failures : (srv.authFailures.get? conn).getD 0 = (account password conn evs).failures
  sworn : (account password conn evs).loggedIn = true → SentPassword password conn evs
  few : password ∉ guesses conn evs → (guesses conn evs).length ≤ limit
  running : ∀ t, task = some t → t.client.phase ≠ .closed → password ∉ guesses conn evs →
    (guesses conn evs).length = (account password conn evs).failures ∧
      Spare limit (account password conn evs).failures t.stage

section

variable {limit : ℕ} {password : Bytes} {evs es : List AuthEvent} {srv' : Server}
  {task : Option ClientTask} {t : ClientTask}

/-- Steps that leave the accounts and the task alone. -/
theorem Entry.frame (h : Entry limit password conn evs srv task)
    (hauth : conn ∈ srv'.authenticated ↔ conn ∈ srv.authenticated)
    (hfail : srv'.authFailures.get? conn = srv.authFailures.get? conn)
    (hes : ∀ e ∈ es, about e ≠ conn) : Entry limit password conn (evs ++ es) srv' task := by
  have hopened : .opened conn ∉ es := fun hmem => hes _ hmem rfl
  have haccount : account password conn (evs ++ es) = account password conn evs :=
    account_of_others hes
  have hguesses : guesses conn (evs ++ es) = guesses conn evs := by
    rw [guesses_append, guesses_of_others hes, List.append_nil]
  constructor
  · rw [hauth, haccount]
    exact h.loggedIn
  · rw [hfail, haccount]
    exact h.failures
  · rw [haccount]
    exact fun hlogged => (h.sworn hlogged).append hopened
  · rw [hguesses]
    exact h.few
  · rw [hguesses, haccount]
    exact h.running

/-- The task goes on without an event. -/
theorem Entry.go (h : Entry limit password conn evs srv (some t)) (ht : t.client.phase ≠ .closed)
    (hsame : accounts srv' = accounts srv) {t' : ClientTask}
    (hspare : Spare limit (account password conn evs).failures t.stage →
      Spare limit (account password conn evs).failures t'.stage) :
    Entry limit password conn evs srv' (some t') := by
  have hauth : srv'.authenticated = srv.authenticated := congrArg (fun a => a.2.1) hsame
  have hfail : srv'.authFailures = srv.authFailures := congrArg (fun a => a.2.2) hsame
  refine ⟨by rw [hauth]; exact h.loggedIn, by rw [hfail]; exact h.failures, h.sworn, h.few, ?_⟩
  intro t'' heq hphase hhonest
  cases heq
  obtain ⟨hlen, hold⟩ := h.running t rfl ht hhonest
  exact ⟨hlen, hspare hold⟩

/-- The task ends.
SOURCE: server.py:366-381 -/
theorem Entry.close (h : Entry limit password conn evs srv task) {t' : ClientTask}
    (ht : t'.client.phase = .closed) :
    Entry limit password conn (evs ++ [.closed conn]) (srv.closeConnection conn) (some t') := by
  have haccount : account password conn (evs ++ [.closed conn]) = {} := by
    rw [account_append]
    exact if_pos rfl
  have hguesses : guesses conn (evs ++ [.closed conn]) = guesses conn evs := by
    rw [guesses_append]
    exact List.append_nil _
  constructor
  · rw [haccount]
    simp [Server.closeConnection]
  · rw [haccount]
    show ((srv.authFailures.erase conn).get? conn).getD 0 = 0
    rw [Dict.get?_erase_self]
    rfl
  · rw [haccount]
    simp
  · rw [hguesses]
    exact h.few
  · intro t heq hphase
    cases heq
    exact absurd ht hphase

/-- A connection is opened under a number that was not used before.
SOURCE: server.py:263-280 -/
theorem Entry.opened (h : Entry limit password conn evs srv none) (hlimit : 0 < limit)
    (hunused : ∀ e ∈ evs, about e ≠ conn) {t : ClientTask} (ht : t.stage = .reading) :
    Entry limit password conn (evs ++ [.opened conn]) (srv.openConnection conn) (some t) := by
  have hempty : account password conn evs = {} := by
    have hothers : account password conn ([] ++ evs) = account password conn [] :=
      account_of_others hunused
    exact hothers
  have haccount : account password conn (evs ++ [.opened conn]) = {} := by
    rw [account_append]
    exact if_pos rfl
  have hguesses : guesses conn (evs ++ [.opened conn]) = [] := by
    rw [guesses_append, guesses_of_others hunused]
    rfl
  constructor
  · rw [haccount, ← hempty]
    exact h.loggedIn
  · rw [haccount, ← hempty]
    exact h.failures
  · rw [haccount]
    simp
  · rw [hguesses]
    exact fun _ => Nat.zero_le _
  · intro t' heq hphase hhonest
    cases heq
    rw [hguesses, haccount, ht]
    exact ⟨rfl, hlimit⟩

/-- A command without a comparison.
SOURCE: server.py:436-455, 475-477 -/
theorem executed_of_none (conn : ℕ) (h : srv.comparedPassword argv = none) :
    Connections.executed srv conn argv = [.sent conn argv] ∨
      Connections.executed srv conn argv = [.sent conn argv, .dispatched conn argv] := by
  unfold Connections.executed
  rw [h]
  split_ifs
  · exact Or.inl rfl
  · exact Or.inr rfl

/-- AUTH with one argument passes the gates, and its argument is compared.
SOURCE: server.py:436-455, 537-543 -/
theorem executed_of_some (conn : ℕ) {p : Bytes} (h : srv.comparedPassword argv = some p) :
    ∃ name, upper name = ascii "AUTH" ∧ argv = [name, p] ∧
      Connections.executed srv conn argv =
        [.sent conn argv, .dispatched conn argv, .compared conn p] := by
  unfold Server.comparedPassword at h
  split at h
  · rename_i name p'
    split_ifs at h with hauth
    cases h
    have hname : upperName [name, p] = ascii "AUTH" := by
      simp only [Bool.and_eq_true, decide_eq_true_eq] at hauth
      exact hauth.1
    have hcompared : srv.comparedPassword [name, p] = some p := if_pos hauth
    have hno : srv.noauth .client conn [name, p] = false := by simp [Server.noauth, hname]
    have hmis : srv.misconf .client [name, p] = false := by
      simp [Server.misconf, isWrite_auth hname]
    refine ⟨name, hname, rfl, ?_⟩
    rw [Connections.executed, hno, hmis, hcompared]
    rfl
  · cases h

/-- **A command of the task.** Without a comparison nothing changes; the password clears the
account, and another one is counted.
SOURCE: server.py:409-535, 537-550 -/
theorem Entry.command (h : Entry limit password conn evs srv (some t))
    (ht : t.client.phase ≠ .closed) (hstage : t.stage = .waiting argv) {configured : Str}
    (hreq : srv.config.requirepass = some configured) (hpass : encodeUtf8 configured = password)
    (hacc : accounts srv' = accountsAfter srv conn argv) {t' : ClientTask}
    (ht' : t'.stage = .replied argv) :
    Entry limit password conn (evs ++ Connections.executed srv conn argv) srv' (some t') := by
  have hspare : password ∉ guesses conn evs →
      (guesses conn evs).length = (account password conn evs).failures ∧
        (account password conn evs).failures < limit := by
    intro hhonest
    obtain ⟨hlen, hold⟩ := h.running t rfl ht hhonest
    rw [hstage] at hold
    exact ⟨hlen, hold⟩
  cases hcompared : srv.comparedPassword argv with
  | none =>
    rw [accountsAfter, hcompared] at hacc
    have hquiet : account password conn (evs ++ Connections.executed srv conn argv) =
        account password conn evs ∧ guesses conn (evs ++ Connections.executed srv conn argv) =
        guesses conn evs ∧ .opened conn ∉ Connections.executed srv conn argv := by
      rw [account_append, guesses_append]
      rcases executed_of_none conn hcompared with hes | hes <;> rw [hes] <;>
        exact ⟨rfl, List.append_nil _, by simp⟩
    obtain ⟨haccount, hguesses, hopened⟩ := hquiet
    have hauth : srv'.authenticated = srv.authenticated := congrArg (fun a => a.2.1) hacc
    have hfail : srv'.authFailures = srv.authFailures := congrArg (fun a => a.2.2) hacc
    constructor
    · rw [haccount, hauth]
      exact h.loggedIn
    · rw [haccount, hfail]
      exact h.failures
    · rw [haccount]
      exact fun hlogged => (h.sworn hlogged).append hopened
    · rw [hguesses]
      exact h.few
    · intro t'' heq _ hhonest
      cases heq
      rw [hguesses] at hhonest
      rw [haccount, hguesses, ht']
      exact ⟨(hspare hhonest).1, Or.inl (hspare hhonest).2⟩
  | some p =>
    obtain ⟨name, hname, rfl, hes⟩ := executed_of_some conn hcompared
    rw [accountsAfter, hcompared] at hacc
    have hguesses : guesses conn (evs ++ Connections.executed srv conn [name, p]) =
        guesses conn evs ++ [p] := by
      rw [guesses_append, hes]
      simp [guesses]
    have hopened : .opened conn ∉ Connections.executed srv conn [name, p] := by
      rw [hes]
      simp
    have haccount : account password conn (evs ++ Connections.executed srv conn [name, p]) =
        if p = password then { loggedIn := true }
        else { account password conn evs with
          failures := (account password conn evs).failures + 1 } := by
      rw [account_append, hes]
      simp [Account.observe]
    by_cases hp : p = password
    · subst hp
      rw [if_pos rfl] at haccount
      have hauth : srv'.authenticated = if conn ∈ srv.authenticated then srv.authenticated
          else srv.authenticated ++ [conn] := by
        have heq := congrArg (fun a => a.2.1) hacc
        simpa only [accounts, Server.authenticate, hreq, hpass, ne_eq, not_true_eq_false,
          if_false] using heq
      have hfail : srv'.authFailures = srv.authFailures.erase conn := by
        have heq := congrArg (fun a => a.2.2) hacc
        simpa only [accounts, Server.authenticate, hreq, hpass, ne_eq, not_true_eq_false,
          if_false] using heq
      have hguessed : p ∈ guesses conn (evs ++ Connections.executed srv conn [name, p]) := by
        rw [hguesses]
        simp
      constructor
      · rw [haccount, hauth]
        split_ifs with hmem <;> simp [hmem]
      · rw [haccount, hfail, Dict.get?_erase_self]
        rfl
      · intro _
        refine ⟨name, hname, ?_⟩
        rw [sinceOpened_append hopened, hes]
        simp
      · exact fun hhonest => absurd hguessed hhonest
      · exact fun _ _ _ hhonest => absurd hguessed hhonest
    · rw [if_neg hp] at haccount
      have hne : encodeUtf8 configured ≠ p := by
        rw [hpass]
        exact fun heq => hp heq.symm
      have hauth : srv'.authenticated = srv.authenticated := by
        have heq := congrArg (fun a => a.2.1) hacc
        simpa only [accounts, Server.authenticate, hreq, if_pos hne] using heq
      have hfail : srv'.authFailures =
          srv.authFailures.insert conn ((srv.authFailures.get? conn).getD 0 + 1) := by
        have heq := congrArg (fun a => a.2.2) hacc
        simpa only [accounts, Server.authenticate, hreq, if_pos hne] using heq
      have hless : password ∉ guesses conn (evs ++ Connections.executed srv conn [name, p]) →
          password ∉ guesses conn evs := by
        intro hhonest hmem
        rw [hguesses] at hhonest
        exact hhonest (List.mem_append_left _ hmem)
      constructor
      · rw [haccount, hauth]
        exact h.loggedIn
      · rw [haccount, hfail, Dict.get?_insert_self, Option.getD_some, h.failures]
      · rw [haccount]
        exact fun hlogged => (h.sworn hlogged).append hopened
      · intro hhonest
        obtain ⟨hlen, hlt⟩ := hspare (hless hhonest)
        rw [hguesses, List.length_append, List.length_singleton, hlen]
        exact hlt
      · intro t'' heq _ hhonest
        cases heq
        obtain ⟨hlen, -⟩ := hspare (hless hhonest)
        rw [haccount, hguesses, ht', List.length_append, List.length_singleton, hlen]
        exact ⟨rfl, Or.inr hname⟩

end

/-! ## Steps of the tasks -/

/-- A message that is handled without another task in between.
SOURCE: server.py:318-381 -/
theorem handleMessage_eq_steps (env : Env) (ios : List RecordIO) {c : Client}
    (hc : c.phase ≠ .closed) (msg : RespValue) :
    Client.handleMessage srv env ios conn c msg =
      match Connections.take srv env conn c msg with
      | (x, .waiting argv) =>
        let y := Connections.execute x.1 env ios conn x.2 argv
        if y.2.phase = .closed then y else Connections.resume y.1 conn y.2 argv
      | (x, _) => x := by
  unfold Client.handleMessage Connections.take
  simp only
  cases normalizeArgv msg with
  | error e => rfl
  | ok argv =>
    cases argv with
    | nil => rfl
    | cons name args =>
      by_cases hpsync : upperName (name :: args) = ascii "PSYNC" ∧ srv.config.isReplica = false
      · simp only [if_pos hpsync]
      · simp only [if_neg hpsync]
        generalize { srv with totalCommandsProcessed := srv.totalCommandsProcessed + 1 } = s
        simp only [Connections.execute]
        by_cases hraises : Client.encodeRaises s env conn (name :: args) = true
        · simp only [hraises, if_true, Client.close]
        · have hopen : (c.write ((s.execute env .client conn (name :: args) ios).reply.getD
              [])).phase ≠ .closed := hc
          simp only [hraises, if_false, if_neg hopen, Connections.resume, Bool.false_eq_true]

/-- A step of a task leaves the accounts alone, or closes the connection. -/
def LeftBy (srv : Server) (conn : ℕ) (x : Server × Client) : Prop :=
  (accounts x.1 = accounts srv ∧ x.2.phase ≠ .closed) ∨
    ∃ s, accounts s = accounts srv ∧ x.1 = s.closeConnection conn ∧ x.2.phase = .closed

/-- Closing is one of the ways to leave a connection. -/
theorem leftBy_close {s : Server} (h : accounts s = accounts srv) (conn : ℕ) (c : Client) :
    LeftBy srv conn (Client.close s conn c) :=
  Or.inr ⟨s, h, rfl, rfl⟩

/-- Chunks, timeouts and the loss of the connection.
SOURCE: server.py:282-316, 358-391 -/
theorem leftBy_step {ios : List RecordIO} {c : Client} {i : Input} {x : Server × Client}
    (hi : i ≠ .next) (h : Client.step srv env ios conn c i = some x) :
    c.phase ≠ .closed ∧ LeftBy srv conn x := by
  cases i with
  | next => exact absurd rfl hi
  | recv chunk =>
    simp only [Client.step] at h
    split at h
    · rename_i hphase _
      cases h
      refine ⟨by simp [hphase], ?_⟩
      unfold Client.receive
      split_ifs
      · exact leftBy_close rfl conn c
      · cases c.parser.feed chunk with
        | error e => exact leftBy_close rfl conn _
        | ok r => exact Or.inl ⟨rfl, by simp [hphase]⟩
    · rename_i hphase
      cases h
      refine ⟨by simp [hphase], ?_⟩
      split_ifs
      · exact leftBy_close rfl conn c
      · exact Or.inl ⟨rfl, by simp [hphase]⟩
    · cases h
  | timeout =>
    simp only [Client.step] at h
    split at h
    · rename_i hphase _
      cases h
      refine ⟨by simp [hphase], ?_⟩
      unfold Client.expire
      split_ifs
      · exact leftBy_close rfl conn c
      · exact leftBy_close rfl conn _
    · cases h
  | lost =>
    simp only [Client.step] at h
    split_ifs at h with hphase
    cases h
    exact ⟨hphase, leftBy_close rfl conn c⟩

/-- Taking a message.
SOURCE: server.py:318-347 -/
theorem leftBy_take {c : Client} (hc : c.phase = .serving) (msg : RespValue) :
    LeftBy srv conn (Connections.take srv env conn c msg).1 := by
  have hstay : ∀ {s : Server} {c' : Client}, accounts s = accounts srv → c'.phase = c.phase →
      LeftBy srv conn (s, c') := by
    intro s c' hs hphase
    refine Or.inl ⟨hs, ?_⟩
    simp only [hphase, hc]
    simp
  unfold Connections.take
  simp only
  split
  · exact hstay rfl rfl
  · exact hstay rfl rfl
  · split_ifs
    · have hsame := accounts_fullResync
        { srv with totalCommandsProcessed := srv.totalCommandsProcessed + 1 } env.now conn
      simp only [Client.psync]
      generalize Server.fullResync _ env.now conn = r at hsame ⊢
      obtain ⟨_ | _, s⟩ := r
      · exact leftBy_close hsame conn _
      · exact Or.inl ⟨hsame, by simp⟩
    · exact hstay rfl rfl

/-- The stage after taking a message has not been counted yet. -/
theorem stage_take (srv : Server) (env : Env) (conn : ℕ) (c : Client) (msg : RespValue)
    (limit n : ℕ) (h : n < limit) :
    Spare limit n (Connections.take srv env conn c msg).2 := by
  unfold Connections.take
  simp only
  split
  · exact h
  · exact h
  · split_ifs <;> exact h

/-- Executing a command is another. -/
theorem leftBy_execute (srv : Server) (env : Env) (ios : List RecordIO) (conn : ℕ)
    (argv : Command) {c : Client} (hc : c.phase ≠ .closed) :
    LeftBy (srv.execute env .client conn argv ios).server conn
      (Connections.execute srv env ios conn c argv) := by
  unfold Connections.execute
  simp only
  split_ifs
  · exact leftBy_close rfl conn c
  · exact Or.inl ⟨rfl, hc⟩

/-- SOURCE: server.py:350-357 -/
theorem leftBy_resume {c : Client} (hc : c.phase ≠ .closed) :
    LeftBy srv conn (Connections.resume srv conn c argv) := by
  unfold Connections.resume
  split_ifs
  · exact leftBy_close rfl conn c
  · exact Or.inl ⟨rfl, hc⟩

/-- The loop goes on only while the account has room for another wrong password.
SOURCE: server.py:350-357 -/
theorem room_of_resume {c : Client} {limit : ℕ} (hlimit : srv.config.maxAuthFailures = limit)
    (hopen : (Connections.resume srv conn c argv).2.phase ≠ .closed)
    (hspare : Spare limit ((srv.authFailures.get? conn).getD 0) (.replied argv)) :
    (srv.authFailures.get? conn).getD 0 < limit := by
  rcases hspare with hlt | hauth
  · exact hlt
  · by_contra hge
    have hmany : Client.tooManyFailures srv conn argv = true := by
      rw [Client.tooManyFailures, hlimit]
      simp only [Bool.and_eq_true, decide_eq_true_eq]
      exact ⟨hauth, not_lt.mp hge⟩
    rw [Connections.resume, if_pos hmany] at hopen
    exact hopen rfl

/-! ## Other connections -/

/-- What the server knows of the connections other than `conn` is the same. -/
def OthersKept (conn : ℕ) (srv srv' : Server) : Prop :=
  srv'.config = srv.config ∧ ∀ c, c ≠ conn →
    (c ∈ srv'.authenticated ↔ c ∈ srv.authenticated) ∧
      srv'.authFailures.get? c = srv.authFailures.get? c

/-- The others are kept through one step after another. -/
theorem OthersKept.trans {s s' s'' : Server} (h : OthersKept conn s s')
    (h' : OthersKept conn s' s'') : OthersKept conn s s'' := by
  refine ⟨h'.1.trans h.1, fun c hc => ⟨?_, ?_⟩⟩
  · exact (h'.2 c hc).1.trans (h.2 c hc).1
  · exact (h'.2 c hc).2.trans (h.2 c hc).2

/-- They are where no account changes. -/
theorem othersKept_of_accounts {srv' : Server} (h : accounts srv' = accounts srv) :
    OthersKept conn srv srv' := by
  have hauth : srv'.authenticated = srv.authenticated := congrArg (fun a => a.2.1) h
  have hfail : srv'.authFailures = srv.authFailures := congrArg (fun a => a.2.2) h
  refine ⟨congrArg Prod.fst h, fun c _ => ?_⟩
  rw [hauth, hfail]
  exact ⟨Iff.rfl, rfl⟩

/-- They are when a connection is closed. -/
theorem othersKept_close (srv : Server) (conn : ℕ) :
    OthersKept conn srv (srv.closeConnection conn) := by
  refine ⟨rfl, fun c hc => ⟨?_, Dict.get?_erase_of_ne srv.authFailures hc⟩⟩
  simp [Server.closeConnection, hc]

/-- They are when a password is compared. -/
theorem othersKept_authenticate (srv : Server) (conn : ℕ) (password : Bytes) :
    OthersKept conn srv (srv.authenticate conn password).2 := by
  unfold Server.authenticate
  cases srv.config.requirepass with
  | none => exact othersKept_of_accounts rfl
  | some configured =>
    simp only
    split_ifs
    · refine ⟨rfl, fun c hc => ⟨Iff.rfl, ?_⟩⟩
      exact Dict.get?_insert_of_ne srv.authFailures _ hc
    · exact ⟨rfl, fun c hc => ⟨Iff.rfl, Dict.get?_erase_of_ne srv.authFailures hc⟩⟩
    · refine ⟨rfl, fun c hc => ⟨?_, Dict.get?_erase_of_ne srv.authFailures hc⟩⟩
      simp [hc]

/-- A command touches the account of its own connection only. -/
theorem othersKept_execute (srv : Server) (env : Env) (flags : Flags) (conn : ℕ) (argv : Command)
    (ios : List RecordIO) :
    OthersKept conn srv (srv.execute env flags conn argv ios).server := by
  have hacc := accounts_execute srv env flags conn argv ios
  unfold accountsAfter at hacc
  cases hcompared : srv.comparedPassword argv with
  | none =>
    rw [hcompared] at hacc
    exact othersKept_of_accounts hacc
  | some password =>
    rw [hcompared] at hacc
    exact (othersKept_authenticate srv conn password).trans (othersKept_of_accounts hacc)

/-- They are however a connection is left. -/
theorem LeftBy.othersKept {x : Server × Client} (h : LeftBy srv conn x) :
    OthersKept conn srv x.1 := by
  rcases h with ⟨hsame, -⟩ | ⟨s, hsame, hx, -⟩
  · exact othersKept_of_accounts hsame
  · rw [hx]
    exact (othersKept_of_accounts hsame).trans (othersKept_close s conn)

/-- The entry of the connection itself, from what holds while it is open. -/
theorem LeftBy.entry {x : Server × Client} (h : LeftBy srv conn x) {limit : ℕ} {password : Bytes}
    {evs : List AuthEvent} {t : ClientTask} {stage : Stage}
    (hold : ∀ s, accounts s = accounts srv → Entry limit password conn evs s (some t))
    (hopen : ∀ s, accounts s = accounts srv → x.2.phase ≠ .closed →
      Entry limit password conn evs s (some { client := x.2, stage := stage })) :
    Entry limit password conn (evs ++ if x.2.phase = .closed then [.closed conn] else []) x.1
      (some { client := x.2, stage := stage }) := by
  rcases h with ⟨hsame, hphase⟩ | ⟨s, hsame, hx, hphase⟩
  · rw [if_neg hphase, List.append_nil]
    exact hopen x.1 hsame hphase
  · rw [if_pos hphase, hx]
    exact (hold s hsame).close hphase

/-! ## The books of the server -/

/-- A command other than AUTH is dispatched for a connection that has sent the password. -/
def Gated (password : Bytes) (evs : List AuthEvent) : Prop :=
  AtEach (fun before e => ∀ c argv, e = .dispatched c argv → upperName argv ≠ ascii "AUTH" →
    SentPassword password c before) evs

/-- The gate of a longer run, by what was dispatched last. -/
theorem Gated.append {password : Bytes} {evs es : List AuthEvent} (h : Gated password evs)
    (hes : ∀ c argv, .dispatched c argv ∈ es → upperName argv ≠ ascii "AUTH" →
      SentPassword password c evs ∧ .opened c ∉ es) : Gated password (evs ++ es) := by
  apply AtEach.append h
  rintro before e after rfl c argv rfl hauth
  obtain ⟨hsent, hopened⟩ := hes c argv (List.mem_append_right _ List.mem_cons_self) hauth
  exact hsent.append fun hin => hopened (List.mem_append_left _ hin)

/-- What holds along a run. The number 0 is that of the link to the master. -/
structure Books (cfg : Config) (password : Bytes) (evs : List AuthEvent) (st : Connections) :
    Prop where
  config : st.server.config = cfg
  entry : ∀ c, c ≠ 0 →
    Entry cfg.maxAuthFailures password c evs st.server (st.tasks.get? c)
  unused : ∀ c, c = 0 ∨ st.connSeq < c → st.tasks.get? c = none ∧ ∀ e ∈ evs, about e ≠ c
  gated : Gated password evs

section

variable {cfg : Config} {password : Bytes} {evs es out : List AuthEvent} {st st' : Connections}
  {t : ClientTask} {x : Server × Client} {stage : Stage}

/-- A task has the number of a connection that was opened. -/
theorem Books.used (h : Books cfg password evs st) (ht : st.tasks.get? conn = some t) :
    conn ≠ 0 ∧ conn ≤ st.connSeq := by
  constructor
  · rintro rfl
    rw [(h.unused 0 (Or.inl rfl)).1] at ht
    cases ht
  · by_contra hlt
    rw [(h.unused conn (Or.inr (not_le.mp hlt))).1] at ht
    cases ht

/-- The entry of a task. -/
theorem Books.entryOf (h : Books cfg password evs st) (ht : st.tasks.get? conn = some t) :
    Entry cfg.maxAuthFailures password conn evs st.server (some t) := by
  rw [← ht]
  exact h.entry conn (h.used ht).1

/-- The end of a step of a task: its own entry has been seen to, and the others stay. -/
theorem Books.finish (h : Books cfg password evs st) (ht : st.tasks.get? conn = some t)
    (hes : ∀ e ∈ es, about e = conn)
    (hgated : ∀ argv, .dispatched conn argv ∈ es → upperName argv ≠ ascii "AUTH" →
      SentPassword password conn evs ∧ .opened conn ∉ es)
    (hothers : OthersKept conn st.server x.1)
    (hentry : Entry cfg.maxAuthFailures password conn
      (evs ++ es ++ if x.2.phase = .closed then [.closed conn] else []) x.1
      (some { client := x.2, stage := stage }))
    (hfin : st.finish conn x stage es = some (st', out)) : Books cfg password (evs ++ out) st' := by
  obtain ⟨hne, hle⟩ := h.used ht
  cases hfin
  have hown : ∀ e ∈ es ++ (if x.2.phase = .closed then [AuthEvent.closed conn] else []),
      about e = conn := by
    intro e he
    rcases List.mem_append.mp he with he | he
    · exact hes e he
    · split_ifs at he
      · rw [List.mem_singleton.mp he]
        rfl
      · cases he
  constructor
  · exact hothers.1.trans h.config
  · intro c hc
    by_cases hself : c = conn
    · subst hself
      rw [Dict.get?_insert_self, ← List.append_assoc]
      exact hentry
    · simp only [Dict.get?_insert_of_ne _ _ hself]
      apply (h.entry c hc).frame (hothers.2 c hself).1 (hothers.2 c hself).2
      intro e he heq
      exact hself (heq.symm.trans (hown e he))
  · intro c hc
    have hself : c ≠ conn := by
      rintro rfl
      rcases hc with hzero | hlt
      · exact hne hzero
      · exact absurd hlt (not_lt.mpr hle)
    obtain ⟨hnone, hold⟩ := h.unused c hc
    refine ⟨?_, fun e he => ?_⟩
    · simp only [Dict.get?_insert_of_ne _ _ hself]
      exact hnone
    · rcases List.mem_append.mp he with he | he
      · exact hold e he
      · intro heq
        exact hself (heq.symm.trans (hown e he))
  · apply h.gated.append
    intro c argv hmem hauth
    have hc : c = conn := hown _ hmem
    subst hc
    have hin : .dispatched c argv ∈ es := by
      rcases List.mem_append.mp hmem with he | he
      · exact he
      · split_ifs at he
        · cases List.mem_singleton.mp he
        · cases he
    obtain ⟨hsent, hopened⟩ := hgated argv hin hauth
    refine ⟨hsent, fun hopen => ?_⟩
    rcases List.mem_append.mp hopen with he | he
    · exact hopened he
    · split_ifs at he
      · cases List.mem_singleton.mp he
      · cases he

/-- A step that changes no account and no task. -/
theorem Books.frame (h : Books cfg password evs st) {srv' : Server}
    (hothers : OthersKept 0 st.server srv') :
    Books cfg password (evs ++ []) { st with server := srv' } := by
  rw [List.append_nil]
  constructor
  · exact hothers.1.trans h.config
  · intro c hc
    have hframe : Entry cfg.maxAuthFailures password c (evs ++ []) srv' (st.tasks.get? c) :=
      (h.entry c hc).frame (hothers.2 c hc).1 (hothers.2 c hc).2 (by simp)
    rw [List.append_nil] at hframe
    exact hframe
  · exact h.unused
  · exact h.gated

/-- SOURCE: server.py:249-280 -/
theorem Books.accept (h : Books cfg password evs st) (hlimit : 0 < cfg.maxAuthFailures) :
    Books cfg password (evs ++ st.accept.2) st.accept.1 := by
  unfold Connections.accept
  simp only
  split_ifs
  · exact h.frame (othersKept_of_accounts rfl)
  · have hnew := h.unused (st.connSeq + 1) (Or.inr (Nat.lt_succ_self _))
    have hother : ∀ c, c ≠ st.connSeq + 1 →
        ∀ e ∈ [AuthEvent.opened (st.connSeq + 1)], about e ≠ c := by
      intro c hc e he heq
      rw [List.mem_singleton.mp he] at heq
      exact hc heq.symm
    constructor
    · exact h.config
    · intro c hc
      by_cases hself : c = st.connSeq + 1
      · subst hself
        rw [Dict.get?_insert_self]
        have hentry := h.entry (st.connSeq + 1) hc
        rw [hnew.1] at hentry
        exact hentry.opened hlimit hnew.2 rfl
      · simp only [Dict.get?_insert_of_ne _ _ hself]
        exact (h.entry c hc).frame Iff.rfl rfl (hother c hself)
    · intro c hc
      have hself : c ≠ st.connSeq + 1 := by
        rintro rfl
        rcases hc with hzero | hlt
        · cases hzero
        · exact lt_irrefl _ hlt
      have hold : c = 0 ∨ st.connSeq < c := hc.imp_right Nat.lt_of_succ_lt
      refine ⟨?_, fun e he => ?_⟩
      · simp only [Dict.get?_insert_of_ne _ _ hself]
        exact (h.unused c hold).1
      · rcases List.mem_append.mp he with he | he
        · exact (h.unused c hold).2 e he
        · exact hother c hself e he
    · apply h.gated.append
      intro c argv hmem
      cases List.mem_singleton.mp hmem

/-- A step of a task that leads to no event of its own. -/
theorem Books.quiet (h : Books cfg password evs st) (ht : st.tasks.get? conn = some t)
    (hphase : t.client.phase ≠ .closed) (hleft : LeftBy st.server conn x)
    (hspare : x.2.phase ≠ .closed →
      Spare cfg.maxAuthFailures ((st.server.authFailures.get? conn).getD 0) t.stage →
        Spare cfg.maxAuthFailures ((st.server.authFailures.get? conn).getD 0) stage)
    (hfin : st.finish conn x stage [] = some (st', out)) :
    Books cfg password (evs ++ out) st' := by
  have hentry := h.entryOf ht
  rw [hentry.failures] at hspare
  apply h.finish ht (by simp) (by simp) hleft.othersKept _ hfin
  rw [List.append_nil]
  apply hleft.entry
  · intro s hsame
    exact hentry.go hphase hsame id
  · intro s hsame hopen
    exact hentry.go hphase hsame (hspare hopen)

/-- A command of a task. It passes the gate on a connection that has logged in, which has
sent the password itself, or else it is AUTH.
SOURCE: server.py:409-535 -/
theorem Books.command (h : Books cfg password evs st) {configured : Str}
    (hreq : cfg.requirepass = some configured) (hpass : encodeUtf8 configured = password)
    {c : Client} (ht : st.tasks.get? conn = some ⟨c, .waiting argv⟩) (hphase : c.phase ≠ .closed)
    {env : Env} {ios : List RecordIO}
    (hfin : st.finish conn (Connections.execute st.server env ios conn c argv) (.replied argv)
      (Connections.executed st.server conn argv) = some (st', out)) :
    Books cfg password (evs ++ out) st' := by
  have hentry := h.entryOf ht
  have hreq' : st.server.config.requirepass = some configured := by
    rw [h.config]
    exact hreq
  have hacc := accounts_execute st.server env .client conn argv ios
  have hleft := leftBy_execute st.server env ios conn argv hphase
  have hcommand : ∀ c' s,
      accounts s = accounts (st.server.execute env .client conn argv ios).server →
      Entry cfg.maxAuthFailures password conn (evs ++ Connections.executed st.server conn argv) s
        (some ⟨c', .replied argv⟩) := by
    intro c' s hsame
    exact hentry.command hphase rfl hreq' hpass (hsame.trans hacc) rfl
  have hshape : ∀ e ∈ Connections.executed st.server conn argv,
      about e = conn ∧ e ≠ .opened conn := by
    intro e he
    unfold Connections.executed at he
    rcases List.mem_cons.mp he with rfl | he
    · exact ⟨rfl, by simp⟩
    · split_ifs at he
      · cases he
      · rcases List.mem_cons.mp he with rfl | he
        · exact ⟨rfl, by simp⟩
        · obtain ⟨p, -, rfl⟩ := List.mem_map.mp he
          exact ⟨rfl, by simp⟩
  apply h.finish ht (fun e he => (hshape e he).1) _ _ _ hfin
  · intro argv' hmem hauth
    refine ⟨?_, fun hopened => (hshape _ hopened).2 rfl⟩
    unfold Connections.executed at hmem
    split_ifs at hmem with hgates
    · cases List.mem_singleton.mp hmem
    · have heq : argv' = argv := by
        rcases List.mem_cons.mp hmem with heq | hmem
        · cases heq
        · rcases List.mem_cons.mp hmem with heq | hmem
          · cases heq
            rfl
          · obtain ⟨p, -, heq⟩ := List.mem_map.mp hmem
            cases heq
      subst heq
      apply hentry.sworn
      rw [← hentry.loggedIn]
      by_contra hout
      apply hgates
      simp [Server.noauth, hreq', hout, hauth, Flags.client]
  · exact (othersKept_execute st.server env .client conn argv ios).trans hleft.othersKept
  · apply hleft.entry
    · exact fun s hsame => hcommand c s hsame
    · exact fun s hsame _ => hcommand _ s hsame

/-- **One step keeps the books.** -/
theorem Books.step (h : Books cfg password evs st) {configured : Str}
    (hreq : cfg.requirepass = some configured) (hpass : encodeUtf8 configured = password)
    (hlimit : 0 < cfg.maxAuthFailures) {m : Move} (hstep : st.step m = some (st', out)) :
    Books cfg password (evs ++ out) st' := by
  cases m with
  | accept =>
    obtain ⟨rfl, rfl⟩ := Prod.mk.inj (Option.some.inj hstep)
    exact h.accept hlimit
  | input conn i =>
    simp only [Connections.step] at hstep
    split at hstep
    · rename_i c stage ht
      obtain ⟨x, hx, hfin⟩ := Option.bind_eq_some_iff.mp hstep
      obtain ⟨hphase, hleft⟩ := leftBy_step (by simp) hx
      apply h.quiet ht hphase hleft _ hfin
      intro hopen
      rw [Client.step, if_neg hphase] at hx
      cases hx
      exact absurd rfl hopen
    · cases hstep
    · rename_i c ht _ hnext
      obtain ⟨x, hx, hfin⟩ := Option.bind_eq_some_iff.mp hstep
      obtain ⟨hphase, hleft⟩ := leftBy_step hnext hx
      exact h.quiet ht hphase hleft (fun _ => id) hfin
    · cases hstep
  | take conn env =>
    simp only [Connections.step] at hstep
    split at hstep
    · rename_i c ht
      split at hstep
      · rename_i msg rest hphase hpending
        have hserving : ({ c with pending := rest } : Client).phase = .serving := hphase
        apply h.quiet ht _ (leftBy_take hserving msg) _ hstep
        · simp only [hphase]
          simp
        · intro _ hlt
          exact stage_take st.server env conn _ msg _ _ hlt
      · cases hstep
    · cases hstep
  | execute conn env ios =>
    simp only [Connections.step] at hstep
    split at hstep
    · rename_i c argv ht
      split_ifs at hstep with hphase
      exact h.command hreq hpass ht hphase hstep
    · cases hstep
  | resume conn =>
    simp only [Connections.step] at hstep
    split at hstep
    · rename_i c argv ht
      split_ifs at hstep with hphase
      apply h.quiet ht hphase (leftBy_resume hphase) _ hstep
      intro hopen hspare
      exact room_of_resume (congrArg Config.maxAuthFailures h.config) hopen hspare
    · cases hstep
  | applied argv env ios =>
    obtain ⟨rfl, rfl⟩ := Prod.mk.inj (Option.some.inj hstep)
    exact h.frame (othersKept_execute st.server env .replicated 0 argv ios)
  | others srv =>
    obtain ⟨rfl, rfl⟩ := Prod.mk.inj (Option.some.inj hstep)
    exact h.frame (othersKept_of_accounts rfl)

end

/-! ## Whole runs -/

/-- The replay of the AOF acts under the number 0. -/
theorem othersKept_replayAof (clock : ℕ → ℤ) (cs : List Command) (srv : Server) :
    OthersKept 0 srv (Server.replayAof clock cs srv) := by
  induction cs generalizing clock srv with
  | nil => exact othersKept_of_accounts rfl
  | cons argv cs ih =>
    have hone : OthersKept 0 srv (srv.replayOne (clock 0) argv) :=
      othersKept_execute srv { now := clock 0 } .loading 0 argv []
    exact hone.trans (ih _ _)

/-- SOURCE: server.py:125-135, 226-248 -/
theorem othersKept_start {cfg : Config} {replid : Replid} {aofFile rdbFile : Option Bytes}
    {clock : ℕ → ℤ} (h : Server.start cfg replid aofFile rdbFile clock = .ok srv) :
    OthersKept 0 (Server.init cfg replid aofFile rdbFile) srv := by
  have hload : ∀ s, (Server.init cfg replid aofFile rdbFile).loadPersistence clock = .ok s →
      OthersKept 0 (Server.init cfg replid aofFile rdbFile) s := by
    intro s hs
    unfold Server.loadPersistence at hs
    simp only at hs
    split_ifs at hs
    · split at hs
      · cases hs
      · cases hs
        exact othersKept_replayAof clock _ _
    · split at hs
      · cases hs
      · cases hs
        exact othersKept_of_accounts rfl
    · cases hs
      exact othersKept_of_accounts rfl
  unfold Server.start at h
  cases hs : (Server.init cfg replid aofFile rdbFile).loadPersistence clock with
  | error e =>
    rw [hs] at h
    cases h
  | ok s =>
    rw [hs] at h
    cases h
    exact (hload s hs).trans (othersKept_of_accounts rfl)

/-- The books of a server that has just started are empty. -/
theorem books_start {cfg : Config} {replid : Replid} {aofFile rdbFile : Option Bytes}
    {clock : ℕ → ℤ} (h : Server.start cfg replid aofFile rdbFile clock = .ok srv)
    (password : Bytes) : Books cfg password [] (Connections.start srv) := by
  obtain ⟨hconfig, hothers⟩ := othersKept_start h
  constructor
  · exact hconfig
  · intro c hc
    obtain ⟨hauth, hfail⟩ := hothers c hc
    constructor
    · refine (hauth.trans ?_ : c ∈ srv.authenticated ↔ _)
      simp [Server.init, account]
    · show (srv.authFailures.get? c).getD 0 = 0
      rw [hfail]
      rfl
    · intro hlogged
      cases hlogged
    · exact fun _ => Nat.zero_le _
    · intro t ht
      cases ht
  · exact fun _ _ => ⟨rfl, by simp⟩
  · exact AtEach.nil _

/-- **Authentication is per connection, and guesses are bounded.** In every interleaving of
the connections: a command other than AUTH is dispatched only for a connection that has sent
the password itself since it was opened; what the server holds against a connection is what
that connection has done since; and one for which no comparison succeeded has had no more
than `max_auth_failures` of them. The configuration checks that this is positive.
SOURCE: server.py:249-391, 436-455, 537-550 -/
theorem authentication_of_connections {cfg : Config} {replid : Replid}
    {aofFile rdbFile : Option Bytes} {clock : ℕ → ℤ} {srv : Server}
    (hstart : Server.start cfg replid aofFile rdbFile clock = .ok srv) {configured : Str}
    (hreq : cfg.requirepass = some configured) (hlimit : 0 < cfg.maxAuthFailures)
    {evs : List AuthEvent} {st : Connections}
    (hrun : Runs Connections.step (fun _ _ => True) (Connections.start srv) evs st) :
    Gated (encodeUtf8 configured) evs ∧
      (∀ c, c ≠ 0 →
        (c ∈ st.server.authenticated ↔
          (account (encodeUtf8 configured) c evs).loggedIn = true) ∧
        (st.server.authFailures.get? c).getD 0 =
          (account (encodeUtf8 configured) c evs).failures) ∧
      ∀ c, encodeUtf8 configured ∉ guesses c evs →
        (guesses c evs).length ≤ cfg.maxAuthFailures := by
  have hbooks : Books cfg (encodeUtf8 configured) evs st := by
    apply hrun.invariant (books_start hstart _)
    intro evs es s s' m hold _ hstep
    exact hold.step hreq rfl hlimit hstep
  refine ⟨hbooks.gated, fun c hc => ?_, fun c hhonest => ?_⟩
  · exact ⟨(hbooks.entry c hc).loggedIn, (hbooks.entry c hc).failures⟩
  · by_cases hc : c = 0
    · rw [guesses_of_others (hbooks.unused c (Or.inl hc)).2]
      exact Nat.zero_le _
    · exact (hbooks.entry c hc).few hhonest

/-- A server with a password that allows two failures. -/
def lockedConfig : Config :=
  { requirepass := some "secret".toList, maxAuthFailures := 2, aofEnabled := false }

/-- An AUTH with a password that is already framed. -/
def sendAuth (frame : String) : Bytes := ascii ("*2\r\n$4\r\nAUTH\r\n" ++ frame)

/-- A task handles a message without another one in between. -/
def turn (conn : ℕ) : List Move := [.take conn {}, .execute conn {} [], .resume conn]

/-- One connection guesses twice, and sends a PING after its first guess; another one logs in
while that PING waits. -/
def twoConnections : List Move :=
  [.accept, .accept,
    .input 1 (.recv (sendAuth "$5\r\nguess\r\n" ++ ascii "*1\r\n$4\r\nPING\r\n")),
    .input 2 (.recv (sendAuth "$6\r\nsecret\r\n" ++ ascii "*1\r\n$4\r\nPING\r\n"))] ++
  turn 1 ++
  [.take 2 {}, .take 1 {}, .execute 2 {} [], .execute 1 {} [], .resume 2, .resume 1] ++
  turn 2 ++ [.input 1 (.recv (sendAuth "$5\r\nother\r\n"))] ++ turn 1

/-- What is seen of them. -/
def twoConnectionsSeen : List AuthEvent :=
  [.opened 1, .opened 2,
    .sent 1 [ascii "AUTH", ascii "guess"], .dispatched 1 [ascii "AUTH", ascii "guess"],
    .compared 1 (ascii "guess"),
    .sent 2 [ascii "AUTH", ascii "secret"], .dispatched 2 [ascii "AUTH", ascii "secret"],
    .compared 2 (ascii "secret"),
    .sent 1 [ascii "PING"],
    .sent 2 [ascii "PING"], .dispatched 2 [ascii "PING"],
    .sent 1 [ascii "AUTH", ascii "other"], .dispatched 1 [ascii "AUTH", ascii "other"],
    .compared 1 (ascii "other"), .closed 1]

/-- The first connection is closed after its second wrong guess, and the second is logged in. -/
theorem authentication_of_connections_two :
    ∃ srv st, Server.start lockedConfig default none none (fun _ => 0) = .ok srv ∧
      Runs Connections.step (fun _ _ => True) (Connections.start srv) twoConnectionsSeen st ∧
      Gated (ascii "secret") twoConnectionsSeen ∧
      (2 ∈ st.server.authenticated ↔
        (account (ascii "secret") 2 twoConnectionsSeen).loggedIn = true) ∧
      (guesses 1 twoConnectionsSeen).length ≤ 2 := by
  have hstart : Server.start lockedConfig default none none (fun _ => 0) =
      .ok (Server.init lockedConfig default none none) := by
    rfl
  have hran : (runAll Connections.step (fun _ _ => True) twoConnections
      (Connections.start (Server.init lockedConfig default none none))).map
        (fun q => (q.1, q.2.server.authenticated)) = some (twoConnectionsSeen, [2]) := by
    decide +kernel
  obtain ⟨st, hrun, -⟩ := exists_runs (fun st : Connections => st.server.authenticated) hran
  have hpass : encodeUtf8 "secret".toList = ascii "secret" := by
    decide +kernel
  have hlimit : 0 < lockedConfig.maxAuthFailures := by
    decide
  have hall := authentication_of_connections hstart rfl hlimit hrun
  rw [hpass] at hall
  obtain ⟨hgated, haccounts, hfew⟩ := hall
  refine ⟨_, st, hstart, hrun, hgated, (haccounts 2 (by decide)).1, hfew 1 ?_⟩
  decide +kernel

end ByoRedis.Analysis
