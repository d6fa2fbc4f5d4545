import ByoRedis.Analysis.Answers
import ByoRedis.Analysis.LogReplay

/-!
# One reply for each command

A command is answered with an error or with what its handler returned (`execute_reply`), and
either is one frame. The exception is a TTL of more than 4300 digits, which `encode_value`
does not print: the exception ends the connection (`encodeRaises_iff`). So each message that
is not an empty array gets exactly one frame unless it is such a TTL (`replies_iff`).
-/

set_option autoImplicit false

namespace ByoRedis.Analysis

open ByoRedis.Model ByoRedis.Lib ByoRedis.Lib.Framing

/-! ## Replies -/

/-- A reply of `_execute`: an error, or the encoding of what the handler returned. -/
inductive Reply (srv : Server) (env : Env) (conn : ℕ) (argv : Command) : Bytes → Prop where
  | error (m : Str) : Reply srv env conn argv (encodeError m)
  | value (v : PyValue) (h : Answer maxCount v) : Reply srv env conn argv (encodeValue v)
  | ttl (key : Bytes) (hauth : srv.noauth .client conn argv = false) (h : IsTtl argv key) :
      Reply srv env conn argv (encodeInteger (srv.store.ttl env.now key).1)

/-- The reply that is sent when every record is taken. -/
def planned : Server.Prepared → Option Bytes
  | .done reply => reply
  | .records _ _ reply => some reply

/-- The reply that is planned is the result. -/
theorem planned_hooks (srv : Server) (flags : Flags) (argv : Command) (evicted : List Bytes)
    (v : PyValue) : planned (srv.hooks flags argv evicted v) = some (encodeValue v) := by
  unfold Server.hooks
  split_ifs <;> rfl

/-- TTL is not a write. -/
theorem isWrite_of_isTtl {argv : Command} {key : Bytes} (h : IsTtl argv key) :
    isWrite argv = false := by
  obtain ⟨name, rfl, hl⟩ := h
  have htext := List.find?_some hl
  simp only [decide_eq_true_eq] at htext
  simp only [isWrite, upperName, ← htext]
  decide

/-- SOURCE: server.py:475-535 -/
theorem planned_settle (srv : Server) (env : Env) (flags : Flags) (argv : Command)
    (before : Entries) (v : PyValue) :
    (∃ m, planned (srv.settle env flags argv before (some v)).1 = some (encodeError m)) ∨
      planned (srv.settle env flags argv before (some v)).1 = some (encodeValue v) := by
  unfold Server.settle
  dsimp only
  split
  · exact Or.inl ⟨_, rfl⟩
  · exact Or.inr (planned_hooks _ _ _ _ _)

/-- SOURCE: server.py:436-535 -/
theorem planned_prepare (srv : Server) (env : Env) (conn : ℕ) {argv : Command}
    (hps : upperName argv ≠ ascii "PSYNC") (hmem : InMemory srv.store argv) :
    ∃ r, planned (srv.prepare env .client conn argv).1 = some r ∧ Reply srv env conn argv r := by
  by_cases hgate : srv.noauth .client conn argv = true ∨ srv.misconf .client argv = true
  · obtain ⟨m, hm⟩ := prepare_gated env hgate
    rw [hm]
    exact ⟨_, rfl, .error m⟩
  rw [not_or, Bool.not_eq_true, Bool.not_eq_true] at hgate
  have hanswers : Answers ((if isWrite argv = true then
        { srv with store := srv.store.purge env.now } else srv).dispatch env .client conn argv).1 ∨
      ∃ key, IsTtl argv key ∧ ((if isWrite argv = true then
        { srv with store := srv.store.purge env.now } else srv).dispatch env .client conn argv).1 =
          .value (.int (srv.store.ttl env.now key).1) := by
    cases hw : isWrite argv with
    | false => exact dispatch_answers srv env .client conn hps hmem
    | true =>
      obtain h | ⟨key, httl, -⟩ := dispatch_answers
        { srv with store := srv.store.purge env.now } env .client conn hps (hmem.purge env.now)
      · exact Or.inl h
      · rw [isWrite_of_isTtl httl] at hw
        cases hw
  unfold Server.prepare
  rw [hgate.1, hgate.2]
  simp only [Bool.false_eq_true, if_false]
  generalize Server.dispatch _ env .client conn argv = x at hanswers ⊢
  obtain ⟨r, srv'⟩ := x
  obtain h | ⟨key, httl, rfl⟩ := hanswers
  · cases h with
    | error m => exact ⟨_, rfl, .error _⟩
    | internal => exact ⟨_, rfl, .error _⟩
    | value hv =>
      obtain ⟨m, hm⟩ | hm := planned_settle srv' env .client argv (srv.store.live env.now) _
      · exact ⟨_, hm, .error m⟩
      · exact ⟨_, hm, .value _ hv⟩
  · obtain ⟨m, hm⟩ | hm := planned_settle srv' env .client argv (srv.store.live env.now)
      (.int (srv.store.ttl env.now key).1)
    · exact ⟨_, hm, .error m⟩
    · exact ⟨_, hm, .ttl key hgate.1 httl⟩

/-- **Every command is answered.** The synchronous part chooses the reply, and only a failed
append replaces it.
SOURCE: server.py:436-535 -/
theorem execute_reply (srv : Server) (env : Env) (conn : ℕ) {argv : Command}
    (ios : List RecordIO) (hps : upperName argv ≠ ascii "PSYNC")
    (hmem : InMemory srv.store argv) :
    ∃ r, (srv.execute env .client conn argv ios).reply = some r ∧ Reply srv env conn argv r := by
  obtain ⟨r, hr, hreply⟩ := planned_prepare srv env conn hps hmem
  unfold Server.execute
  generalize srv.prepare env .client conn argv = x at hr
  obtain ⟨p, srv'⟩ := x
  cases p with
  | done reply => exact ⟨r, hr, hreply⟩
  | records cs propagates reply =>
    dsimp only
    split
    · exact ⟨r, hr, hreply⟩
    · exact ⟨_, rfl, .error _⟩

/-! ## The TTL that cannot be printed -/

/-- TTL of a key that lives for `10 ^ 4300` seconds or more, on a connection that may ask. -/
def LongTtl (srv : Server) (env : Env) (conn : ℕ) (argv : Command) : Prop :=
  srv.noauth .client conn argv = false ∧ ∃ key e d, IsTtl argv key ∧
    srv.store.entries.get? key = some e ∧ e.expireAtMs = some d ∧
    10 ^ maxStrDigits * 1000 ≤ d - env.now

/-- The number of digits is within the limit when the number is below the power of ten. -/
theorem length_natText_le_iff (n : ℕ) :
    (natText n).length ≤ maxStrDigits ↔ n < 10 ^ maxStrDigits := by
  rw [natText, Nat.length_toDigits_le_iff (by decide) (by decide)]

/-- SOURCE: storage/store.py:114-122, storage/expiry.py:20-31 -/
theorem ttl_lt_iff (s : Store) (now : ℤ) (key : Bytes) :
    (s.ttl now key).1.natAbs < 10 ^ maxStrDigits ↔
      ∀ e d, s.entries.get? key = some e → e.expireAtMs = some d →
        d - now < 10 ^ maxStrDigits * 1000 := by
  have hpos : (0 : ℤ) < 10 ^ maxStrDigits := by positivity
  have hbig : (2 : ℤ) < 10 ^ maxStrDigits :=
    lt_of_lt_of_le (by norm_num : (2 : ℤ) < 10 ^ 1) (pow_le_pow_right₀ (by norm_num) (by decide))
  have habs : ∀ i : ℤ, i.natAbs < 10 ^ maxStrDigits ↔ |i| < 10 ^ maxStrDigits := by
    intro i
    rw [Int.abs_eq_natAbs]
    exact_mod_cast Iff.rfl
  rw [habs]
  generalize (10 : ℤ) ^ maxStrDigits = m at hpos hbig
  unfold Store.ttl
  cases hk : s.entries.get? key with
  | none =>
    constructor
    · intro _ e d he
      cases he
    · intro _
      simpa using hbig
  | some e =>
    simp only [Option.some.injEq]
    cases hd : e.expireAtMs with
    | none =>
      constructor
      · intro _ e' d he hd'
        rw [← he, hd] at hd'
        cases hd'
      · intro _
        simp only [isExpired, Bool.false_eq_true, if_false, ttlSeconds, abs_neg, abs_one]
        omega
    | some d =>
      have hall : (∀ e' d', e = e' → e'.expireAtMs = some d' → d' - now < m * 1000) ↔
          d - now < m * 1000 := by
        constructor
        · intro h
          exact h e d rfl hd
        · rintro h e' d' rfl hd'
          rw [hd] at hd'
          cases hd'
          exact h
      rw [hall]
      by_cases hx : isExpired (some d) now = true
      · have hle : d ≤ now := by simpa [isExpired] using hx
        rw [if_pos hx, abs_neg, abs_two]
        omega
      · have hlt : now < d := by simpa [isExpired] using hx
        rw [if_neg hx]
        simp only [ttlSeconds]
        rw [if_neg (by omega)]
        split_ifs with hsecs
        · rw [abs_of_pos hsecs]
          omega
        · rw [abs_zero]
          omega

/-- SOURCE: commands/string_cmds.py:59-62 -/
theorem dispatch_ttl (srv : Server) (env : Env) (flags : Flags) (conn : ℕ) {argv : Command}
    {key : Bytes} (h : IsTtl argv key) :
    (srv.dispatch env flags conn argv).1 = .value (.int (srv.store.ttl env.now key).1) := by
  have hwrite := isWrite_of_isTtl h
  obtain ⟨name, rfl, hl⟩ := h
  simp only [Server.dispatch, hl, hwrite, Bool.and_false, Bool.false_and, Bool.false_eq_true,
    if_false]
  rfl

/-- SOURCE: server.py:531-535 -/
theorem encodeRaises_iff (srv : Server) (env : Env) (conn : ℕ) {argv : Command}
    (hps : upperName argv ≠ ascii "PSYNC") (hmem : InMemory srv.store argv) :
    Client.encodeRaises srv env conn argv = true ↔ LongTtl srv env conn argv := by
  have hlong : ∀ n : ℕ, maxStrDigits < (natText n).length ↔ ¬ n < 10 ^ maxStrDigits := by
    intro n
    rw [← length_natText_le_iff, Nat.not_le]
  unfold Client.encodeRaises LongTtl
  rw [Bool.and_eq_true, Bool.and_eq_true, Bool.not_eq_true', Bool.not_eq_true']
  have hanswers := dispatch_answers srv env .client conn hps hmem
  constructor
  · rintro ⟨⟨hauth, hread⟩, hlarge⟩
    obtain h | ⟨key, httl, hvalue⟩ := hanswers
    · -- no other integer is that large
      generalize (srv.dispatch env .client conn argv).1 = r at h hlarge
      cases h with
      | error m => cases hlarge
      | internal => cases hlarge
      | value hv =>
        cases hv with
        | int i hi =>
          simp only [decide_eq_true_eq, hlong] at hlarge
          exact absurd (hi.trans_lt maxCount_lt) hlarge
        | simple s => cases hlarge
        | null => cases hlarge
        | bytes b => cases hlarge
        | list items => cases hlarge
    · rw [hvalue] at hlarge
      simp only [decide_eq_true_eq, hlong, ttl_lt_iff, not_forall, not_lt] at hlarge
      obtain ⟨e, d, he, hd, hle⟩ := hlarge
      exact ⟨hauth, key, e, d, httl, he, hd, hle⟩
  · rintro ⟨hauth, key, e, d, httl, he, hd, hle⟩
    refine ⟨⟨hauth, isWrite_of_isTtl httl⟩, ?_⟩
    have hdispatch := dispatch_ttl srv env .client conn httl
    rw [hdispatch]
    simp only [decide_eq_true_eq, hlong, ttl_lt_iff, not_forall, not_lt]
    exact ⟨e, d, he, hd, hle⟩

/-! ## A connection -/

/-- A message that is handled: the server as it is then, what the environment decides, and the
message. Other tasks may have run since the last one. -/
structure Exchange where
  srv : Server
  env : Env := {}
  ios : List RecordIO := []
  msg : RespValue

namespace Exchange

variable (conn : ℕ)

/-- The server when the command is executed. -/
def counted (t : Exchange) : Server :=
  { t.srv with totalCommandsProcessed := t.srv.totalCommandsProcessed + 1 }

/-- The client after the message was handled. -/
def handle (t : Exchange) (c : Client) : Client := (c.handleMessage t.srv t.env t.ios conn t.msg).2

/-- What is written for the message. -/
def reply (t : Exchange) : Bytes := (t.handle conn { parser := { limits := {} } }).out

/-- The message is not an empty array. -/
def expects (t : Exchange) : Bool :=
  match t.msg with
  | .array [] => false
  | _ => true

/-- The message is a TTL that cannot be printed. -/
def Long (t : Exchange) : Prop :=
  ∃ argv, normalizeArgv t.msg = .ok argv ∧ LongTtl t.srv t.env conn argv

/-- The message is not PSYNC and does not close the connection for failed AUTHs; what it
works on is in memory. -/
structure Ordinary (t : Exchange) : Prop where
  psync : ∀ argv, normalizeArgv t.msg = .ok argv → upperName argv ≠ ascii "PSYNC"
  auth : ∀ argv, normalizeArgv t.msg = .ok argv → Client.tooManyFailures
    (t.counted.execute t.env .client conn argv t.ios).server conn argv = false
  memory : ∀ argv, normalizeArgv t.msg = .ok argv → InMemory t.srv.store argv
  object : (t.reply conn).length ≤ maxSize

end Exchange

/-- The loop over the messages, until the connection is closed.
SOURCE: server.py:318-357 -/
def handleAll (conn : ℕ) : List Exchange → Client → Client
  | [], c => c
  | t :: ts, c => if c.phase = .serving then handleAll conn ts (t.handle conn c) else c

variable {conn : ℕ} {t : Exchange}

/-- The empty command is the empty array. -/
theorem normalizeArgv_eq_nil_iff {msg : RespValue} :
    normalizeArgv msg = .ok [] ↔ msg = .array [] := by
  constructor
  · intro h
    cases msg with
    | array items =>
      cases items with
      | nil => rfl
      | cons item items =>
        simp only [normalizeArgv, List.mapM_cons, bind, Except.bind, pure, Except.pure] at h
        split at h
        · cases h
        · split at h <;> cases h
    | null => cases h
    | int i => cases h
    | bulk b => cases h
    | str s => cases h
    | err m => cases h
  · rintro rfl
    rfl

/-- No reply is expected for the empty command only. -/
theorem Exchange.expects_eq_false_iff : t.expects = false ↔ normalizeArgv t.msg = .ok [] := by
  rw [normalizeArgv_eq_nil_iff]
  unfold Exchange.expects
  split
  · rename_i h
    simp [h]
  · rename_i h
    simpa using h

/-- A command that is executed. -/
theorem Exchange.handle_command {name : Bytes} {args : Command}
    (hn : normalizeArgv t.msg = .ok (name :: args))
    (hps : upperName (name :: args) ≠ ascii "PSYNC") (c : Client) :
    t.handle conn c =
      if Client.encodeRaises t.counted t.env conn (name :: args) then
        { c with pending := [], phase := .closed }
      else if Client.tooManyFailures
          (t.counted.execute t.env .client conn (name :: args) t.ios).server conn
          (name :: args) then
        { c.write ((t.counted.execute t.env .client conn (name :: args) t.ios).reply.getD []) with
          pending := [], phase := .closed }
      else c.write ((t.counted.execute t.env .client conn (name :: args) t.ios).reply.getD []) := by
  have hcounted : t.counted =
      { t.srv with totalCommandsProcessed := t.srv.totalCommandsProcessed + 1 } := rfl
  unfold Exchange.handle Client.handleMessage
  rw [← hcounted]
  simp only [hn, hps, false_and, if_false]
  split_ifs <;> rfl

/-- A reply that is too long is expected. -/
theorem Exchange.Long.expects (h : t.Long conn) : t.expects = true := by
  obtain ⟨argv, hn, -, key, -, -, ⟨name, rfl, -⟩, -⟩ := h
  rw [← Bool.not_eq_false, Exchange.expects_eq_false_iff, hn]
  simp

/-- What handling a message comes to.
SOURCE: server.py:318-357 -/
theorem Exchange.Ordinary.cases (h : t.Ordinary conn) :
    (t.expects = false ∧ ∀ c, t.handle conn c = c) ∨
    (t.expects = true ∧ t.Long conn ∧
      ∀ c, (t.handle conn c).out = c.out ∧ (t.handle conn c).phase = .closed) ∨
    (t.expects = true ∧ ¬ t.Long conn ∧
      ∃ r, (∀ c, t.handle conn c = c.write r) ∧
        ((∃ m, r = encodeError m) ∨
          ∃ v, Answer (10 ^ maxStrDigits - 1) v ∧ r = encodeValue v)) := by
  have hexpects : ∀ r, normalizeArgv t.msg = r → r ≠ .ok [] → t.expects = true := by
    intro r hr hne
    rw [← Bool.not_eq_false, Exchange.expects_eq_false_iff, hr]
    exact hne
  cases hn : normalizeArgv t.msg with
  | error e =>
    refine Or.inr (Or.inr ⟨hexpects _ hn (by simp), ?_, Client.protocolError e, ?_,
      Or.inl ⟨_, rfl⟩⟩)
    · rintro ⟨argv, hargv, -⟩
      rw [hn] at hargv
      cases hargv
    · intro c
      simp only [Exchange.handle, Client.handleMessage, hn]
  | ok argv =>
    cases argv with
    | nil =>
      refine Or.inl ⟨Exchange.expects_eq_false_iff.mpr hn, ?_⟩
      intro c
      simp only [Exchange.handle, Client.handleMessage, hn]
    | cons name args =>
      have hps := h.psync _ hn
      have hmem := h.memory _ hn
      have hraise := encodeRaises_iff t.counted t.env conn hps hmem
      have hauth := h.auth _ hn
      have hlong : t.Long conn ↔ LongTtl t.counted t.env conn (name :: args) := by
        constructor
        · rintro ⟨argv, hargv, hl⟩
          rw [hn] at hargv
          cases hargv
          exact hl
        · exact fun hl => ⟨_, hn, hl⟩
      by_cases hl : LongTtl t.counted t.env conn (name :: args)
      · refine Or.inr (Or.inl ⟨hexpects _ hn (by simp), hlong.mpr hl, ?_⟩)
        intro c
        rw [Exchange.handle_command hn hps, if_pos (hraise.mpr hl)]
        exact ⟨rfl, rfl⟩
      · obtain ⟨r, hr, hreply⟩ := execute_reply t.counted t.env conn t.ios hps hmem
        refine Or.inr (Or.inr ⟨hexpects _ hn (by simp), fun hx => hl (hlong.mp hx), r, ?_, ?_⟩)
        · intro c
          rw [Exchange.handle_command hn hps, if_neg (fun hx => hl (hraise.mp hx)), hauth, hr]
          rfl
        · cases hreply with
          | error m => exact Or.inl ⟨m, rfl⟩
          | value v hv => exact Or.inr ⟨v, hv.mono (Nat.le_sub_one_of_lt maxCount_lt), rfl⟩
          | ttl key hallowed httl =>
            refine Or.inr ⟨_, .int _ (Nat.le_sub_one_of_lt ?_), rfl⟩
            rw [ttl_lt_iff]
            intro e d he hd
            by_contra hle
            exact hl ⟨hallowed, key, e, d, httl, he, hd, not_lt.mp hle⟩

/-- A message that expects a reply gets one frame, unless it is a TTL that cannot be
printed. -/
theorem Exchange.Ordinary.oneFrame_iff (h : t.Ordinary conn) (hexpects : t.expects = true) :
    OneFrame (t.reply conn) ↔ ¬ t.Long conn := by
  rcases h.cases with ⟨hno, -⟩ | ⟨-, hlong, hclosed⟩ | ⟨-, hshort, r, hr, hframe⟩
  · rw [hno] at hexpects
    cases hexpects
  · have hnil : t.reply conn = [] := (hclosed _).1
    rw [hnil]
    exact ⟨fun hf => absurd hf not_oneFrame_nil, fun hs => absurd hlong hs⟩
  · have hreply : t.reply conn = r := by
      rw [Exchange.reply, hr]
      rfl
    refine ⟨fun _ => hshort, fun _ => ?_⟩
    have hsize := h.object
    rw [hreply] at hsize ⊢
    rcases hframe with ⟨m, rfl⟩ | ⟨v, hv, rfl⟩
    · exact oneFrame_encodeError m
    · exact oneFrame_encodeValue hv (Nat.sub_lt (by positivity) (by decide)) hsize

/-- **One reply for each command, in order.** On a connection with any messages that are not
PSYNC and are not the last failed AUTH, in any states of the server: what is written is one
frame for each message that is not an empty array, in the order of the messages, exactly if
no message is a TTL of `10 ^ 4300` seconds or more.
SOURCE: server.py:317-357, 393-535, protocol/encoder.py:6-79 -/
theorem replies_iff {c : Client} (hc : c.phase = .serving) (exchanges : List Exchange)
    (h : ∀ t ∈ exchanges, t.Ordinary conn) :
    ((handleAll conn exchanges c).out =
        c.out ++ (exchanges.filter Exchange.expects).flatMap (Exchange.reply conn) ∧
      ∀ t ∈ exchanges.filter Exchange.expects, OneFrame (t.reply conn)) ↔
      ∀ t ∈ exchanges, ¬ t.Long conn := by
  constructor
  · rintro ⟨-, hframes⟩ t ht hlong
    have hord := h t ht
    have hexpects := hlong.expects
    exact (hord.oneFrame_iff hexpects).mp (hframes t (List.mem_filter.mpr ⟨ht, hexpects⟩)) hlong
  · intro hshort
    constructor
    · induction exchanges generalizing c with
      | nil => simp [handleAll]
      | cons t ts ih =>
        have hrest : ∀ {c : Client}, c.phase = .serving → (handleAll conn ts c).out =
            c.out ++ (ts.filter Exchange.expects).flatMap (Exchange.reply conn) := fun hc =>
          ih hc (fun t' ht' => h t' (List.mem_cons_of_mem _ ht'))
            (fun t' ht' => hshort t' (List.mem_cons_of_mem _ ht'))
        rw [handleAll, if_pos hc]
        rcases (h t List.mem_cons_self).cases with ⟨hno, hsame⟩ | ⟨-, hlong, -⟩ |
          ⟨hexpects, -, r, hr, -⟩
        · rw [hsame c, hrest hc, List.filter_cons, if_neg (by rw [hno]; decide)]
        · exact absurd hlong (hshort t List.mem_cons_self)
        · have hreply : t.reply conn = r := by
            rw [Exchange.reply, hr]
            rfl
          have hwritten : (c.write r).phase = .serving := hc
          rw [hr c, hrest hwritten, List.filter_cons, if_pos hexpects, List.flatMap_cons, hreply,
            ← List.append_assoc]
          rfl
    · intro t ht
      obtain ⟨ht, hexpects⟩ := List.mem_filter.mp ht
      exact ((h t ht).oneFrame_iff hexpects).mpr (hshort t ht)

/-! ## Strange messages, and a clock that is set back -/

/-- The messages of a client that tries to answer itself, with a null and an empty array. -/
def strangeExchanges : List Exchange :=
  [.array [.bulk (ascii "A\r\n+OK")], .null, .array [], .array [.bulk (ascii "TTL"), .bulk []]].map
    fun msg => { srv := started {} default, msg := msg }

/-- An empty server is in memory. -/
theorem inMemory_started {argv : Command} (h : argv.length ≤ maxSize) :
    InMemory (started {} default).store argv := by
  refine ⟨Nat.zero_le _, ?_, h⟩
  intro k e items hk
  cases hk

/-- The strange messages are ordinary. -/
theorem ordinary_strangeExchanges : ∀ t ∈ strangeExchanges, t.Ordinary 1 := by
  intro t ht
  simp only [strangeExchanges, List.map_cons, List.map_nil, List.mem_cons, List.not_mem_nil,
    or_false] at ht
  rcases ht with rfl | rfl | rfl | rfl
  all_goals
    refine ⟨?_, ?_, ?_, by decide +kernel⟩
    all_goals
      intro argv hargv
      cases hargv
  all_goals first | decide | exact inMemory_started (by decide)

/-- Each of them is answered by one frame. -/
theorem replies_iff_strange :
    (handleAll 1 strangeExchanges { parser := { limits := {} } }).out =
        (strangeExchanges.filter Exchange.expects).flatMap (Exchange.reply 1) ∧
      ∀ t ∈ strangeExchanges.filter Exchange.expects, OneFrame (t.reply 1) := by
  apply (replies_iff (c := { parser := { limits := {} } }) rfl strangeExchanges
    ordinary_strangeExchanges).mpr
  rintro t ht ⟨argv, hargv, -, key, e, d, -, he, -⟩
  have hsrv : t.srv = started {} default := by
    obtain ⟨msg, -, rfl⟩ := List.mem_map.mp ht
    rfl
  rw [hsrv] at he
  cases he

/-- SET of a key that expires. -/
def setFor (secs : Bytes) : Command := [ascii "SET", ascii "k", ascii "v", ascii "EX", secs]

/-- The entry of a string with a deadline. -/
def lastingEntry (d : ℤ) : KeyEntry :=
  { type := .string, value := .bytes (ascii "v"), expireAtMs := some d }

/-- SET with EX stores its value with the deadline. -/
theorem cmdSet_setFor {secs : Bytes} {n : ℤ} (hn : pyInt secs = some n) (hpos : 0 < n) (now : ℤ)
    (s : Store) : cmdSet now (setFor secs) s =
      (.ok, (s.put (ascii "k") (lastingEntry (now + n * 1000))).touchAccess (ascii "k")) := by
  have hopts : setOptions [ascii "EX", secs] none = .ok (some n) := by
    simp only [setOptions, hn]
    rw [if_pos (by decide), if_neg (not_le.mpr hpos)]
  unfold setFor cmdSet
  simp only [hopts, Store.setString, if_neg (not_le.mpr hpos)]
  rfl

/-- The message as a client sends it. -/
def commandExchange (srv : Server) (now : ℤ) (argv : Command) : Exchange :=
  { srv := srv, env := { now := now }, msg := commandValue argv }

/-- A command that is in memory is ordinary. -/
theorem ordinary_commandExchange {srv : Server} {now : ℤ} {argv : Command}
    (hps : upperName argv ≠ ascii "PSYNC") (hauth : upperName argv ≠ ascii "AUTH")
    (hmem : InMemory srv.store argv)
    (hobject : ((commandExchange srv now argv).reply 1).length ≤ maxSize) :
    (commandExchange srv now argv).Ordinary 1 := by
  have hn : ∀ argv', normalizeArgv (commandExchange srv now argv).msg = .ok argv' →
      argv = argv' := by
    intro argv' h
    exact Except.ok.inj ((normalizeArgv_commandValue argv).symm.trans h)
  refine ⟨?_, ?_, ?_, hobject⟩
  · intro argv' h
    rw [← hn argv' h]
    exact hps
  · intro argv' h
    rw [← hn argv' h]
    simp [Client.tooManyFailures, hauth]
  · intro argv' h
    rw [← hn argv' h]
    exact hmem

/-- The reply to a write on a server with the default settings. -/
theorem reply_commandExchange {srv : Server} {now : ℤ} {name : Bytes} {args : Command}
    (hps : upperName (name :: args) ≠ ascii "PSYNC")
    (hauth : upperName (name :: args) ≠ ascii "AUTH")
    (hwrite : isWrite (name :: args) = true) :
    (commandExchange srv now (name :: args)).reply 1 =
      ((commandExchange srv now (name :: args)).counted.execute { now := now } .client 1
        (name :: args) []).reply.getD [] := by
  have hraise : ∀ env, Client.encodeRaises (commandExchange srv now (name :: args)).counted env 1
      (name :: args) = false := by
    intro env
    simp [Client.encodeRaises, hwrite]
  have htoo : ∀ srv', Client.tooManyFailures srv' 1 (name :: args) = false := by
    intro srv'
    simp [Client.tooManyFailures, hauth]
  rw [Exchange.reply, Exchange.handle_command (normalizeArgv_commandValue _) hps, hraise, htoo]
  rfl

/-- SET at time 1000 on a server that has just started. -/
theorem execute_setFor {secs : Bytes} {n : ℤ} (hn : pyInt secs = some n) (hpos : 0 < n) :
    ∃ srv : Server, (commandExchange (started {} default) 1000 (setFor secs)).counted.execute
        { now := 1000 } .client 1 (setFor secs) [] = ⟨some (ascii "+OK\r\n"), [setFor secs], srv⟩ ∧
      srv.config = {} ∧
      srv.store.entries = Dict.empty.insert (ascii "k") (lastingEntry (1000 + n * 1000)) := by
  generalize hsrv : (commandExchange (started {} default) 1000 (setFor secs)).counted = srv
  have hdispatch : srv.dispatch { now := 1000 } .client 1 (setFor secs) =
      srv.onStore (cmdSet 1000 (setFor secs) srv.store) := by
    rw [← hsrv]
    rfl
  rw [cmdSet_setFor hn hpos] at hdispatch
  have hprep : srv.prepare { now := 1000 } .client 1 (setFor secs) =
      (.records [setFor secs] true (ascii "+OK\r\n"),
        (srv.onStore (cmdSet 1000 (setFor secs) srv.store)).2) := by
    rw [cmdSet_setFor hn hpos]
    have hpurge : ({ srv with store := srv.store.purge 1000 } : Server) = srv := by
      rw [← hsrv]
      rfl
    have hauth : srv.noauth .client 1 (setFor secs) = false := by rw [← hsrv]; rfl
    have haof : srv.misconf .client (setFor secs) = false := by rw [← hsrv]; rfl
    have hwrite : isWrite (setFor secs) = true := rfl
    simp only [Server.prepare, hauth, haof, hwrite, hpurge, hdispatch, Bool.false_eq_true, if_false,
      if_true]
    rw [← hsrv]
    rfl
  unfold Server.execute
  rw [hprep, cmdSet_setFor hn hpos, ← hsrv]
  exact ⟨_, rfl, rfl, rfl⟩

/-- 4300 nines, the largest number that `int()` converts. -/
def forever : ℕ := 10 ^ maxStrDigits - 1

/-- A number with the most digits is read. -/
theorem pyInt_forever : pyInt (natBytes forever) = some (forever : ℤ) :=
  pyInt_natBytes (convertible_of_lt (Nat.sub_lt (by positivity) (by decide)))

/-- `TTL k`. -/
def ttlExchange (srv : Server) : Exchange := commandExchange srv 0 [ascii "TTL", ascii "k"]

/-- The key lives for a second more than can be printed. -/
theorem long_ttlExchange {srv : Server} (hcfg : srv.config = {})
    (hent : srv.store.entries =
      Dict.empty.insert (ascii "k") (lastingEntry (1000 + (forever : ℤ) * 1000))) :
    LongTtl (ttlExchange srv).counted (ttlExchange srv).env 1 [ascii "TTL", ascii "k"] ∧
      InMemory srv.store [ascii "TTL", ascii "k"] := by
  refine ⟨⟨?_, ascii "k", lastingEntry (1000 + (forever : ℤ) * 1000),
    1000 + (forever : ℤ) * 1000, ⟨_, rfl, rfl⟩, ?_, rfl, ?_⟩, ?_, ?_, by decide⟩
  · simp [Server.noauth, ttlExchange, commandExchange, Exchange.counted, hcfg]
  · show srv.store.entries.get? (ascii "k") = _
    rw [hent, Dict.get?_insert_self]
  · have hforever : (forever : ℤ) + 1 = 10 ^ maxStrDigits := by
      have hpos : 1 ≤ 10 ^ maxStrDigits := Nat.one_le_pow _ _ (by decide)
      have hnat : forever + 1 = 10 ^ maxStrDigits := Nat.sub_add_cancel hpos
      exact_mod_cast hnat
    rw [← hforever]
    generalize (forever : ℤ) = n
    show _ ≤ 1000 + n * 1000 - 0
    omega
  · rw [hent]
    decide
  · intro k e items hk hv
    rw [hent, Dict.get?_insert] at hk
    split_ifs at hk
    · cases hk
      cases hv
    · cases hk

/-- SET, and TTL once the clock was set back. -/
def setBackExchanges (srv : Server) : List Exchange :=
  [commandExchange (started {} default) 1000 (setFor (natBytes forever)), ttlExchange srv]

/-- SET of a key for 4300 nines of seconds, then TTL after the clock was set back by a second:
the connection is closed without an answer to TTL. -/
theorem replies_iff_setBack :
    ∃ srv, (commandExchange (started {} default) 1000 (setFor (natBytes forever))).counted.execute
        { now := 1000 } .client 1 (setFor (natBytes forever)) [] =
          ⟨some (ascii "+OK\r\n"), [setFor (natBytes forever)], srv⟩ ∧
      (∀ t ∈ setBackExchanges srv, t.Ordinary 1) ∧
      ¬ ((handleAll 1 (setBackExchanges srv) { parser := { limits := {} } }).out =
          ((setBackExchanges srv).filter Exchange.expects).flatMap (Exchange.reply 1) ∧
        ∀ t ∈ (setBackExchanges srv).filter Exchange.expects, OneFrame (t.reply 1)) := by
  have hpos : (0 : ℤ) < forever := by
    have hlt : 1 < 10 ^ maxStrDigits := Nat.one_lt_pow (by decide) (by decide)
    exact_mod_cast Nat.sub_pos_of_lt hlt
  obtain ⟨srv, hx, hcfg, hent⟩ := execute_setFor pyInt_forever hpos
  obtain ⟨hlong, hmem⟩ := long_ttlExchange hcfg hent
  have hraise := (encodeRaises_iff (ttlExchange srv).counted (ttlExchange srv).env 1 (by decide)
    hmem).mpr hlong
  have hsilent : (ttlExchange srv).reply 1 = [] := by
    rw [Exchange.reply, @Exchange.handle_command 1 (ttlExchange srv) (ascii "TTL") [ascii "k"] rfl
      (by decide), if_pos hraise]
  have hok : (commandExchange (started {} default) 1000 (setFor (natBytes forever))).reply 1 =
      ascii "+OK\r\n" := by
    have hreply := @reply_commandExchange (started {} default) 1000 (ascii "SET")
      [ascii "k", ascii "v", ascii "EX", natBytes forever] (by decide) (by decide) rfl
    exact hreply.trans (congrArg (fun x : Server.Execution => x.reply.getD []) hx)
  refine ⟨srv, hx, ?_, ?_⟩
  · intro t ht
    rcases List.mem_cons.mp ht with rfl | ht
    · apply ordinary_commandExchange (by decide) (by decide) (inMemory_started (by decide))
      rw [hok]
      decide
    · rw [List.mem_singleton.mp ht]
      apply ordinary_commandExchange (by decide) (by decide) hmem
      show ((ttlExchange srv).reply 1).length ≤ maxSize
      rw [hsilent]
      exact Nat.zero_le _
  · rintro ⟨-, hframes⟩
    apply not_oneFrame_nil
    rw [← hsilent]
    apply hframes
    exact List.mem_filter.mpr ⟨by simp [setBackExchanges], rfl⟩

end ByoRedis.Analysis
