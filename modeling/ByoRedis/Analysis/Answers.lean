import ByoRedis.Model.Connection
import ByoRedis.Analysis.ReplicaReaders
import ByoRedis.Analysis.ValueRoundTrip

/-!
# What handlers answer

Every handler but that of PSYNC ends with an error or with a value of one of a few kinds: a
simple string, nothing, bytes, a list of bytes, or an integer (`handle_answers`). The integers
are counts of things in memory, except that TTL returns the remaining time of a key. Errors
and values are one frame each (`oneFrame_encodeError`, `oneFrame_encodeValue`): a line end in
an error is replaced, and an integer is printed as long as it has at most 4300 digits.
-/

set_option autoImplicit false

namespace ByoRedis.Analysis

open ByoRedis.Model ByoRedis.Lib ByoRedis.Lib.Framing

/-! ## Frames -/

/-- Every parser whose limits are not below the length of the bytes reads them as one value
and keeps nothing back. -/
def OneFrame (r : Bytes) : Prop :=
  ∀ lim : Limits, r.length ≤ lim.maxBufferBytes → r.length ≤ lim.maxBulkLen →
    r.length ≤ lim.maxArrayLen → 1 ≤ lim.maxArrayDepth →
      ∃ v, RespParser.feed { limits := lim } r = .ok ([v], { limits := lim })

/-- A framed reply that fits the buffer is one message for an empty parser. -/
theorem feed_of_framed {lim : Limits} {r : Bytes} {v : RespValue} (h : Framed lim r v)
    (hbuf : r.length ≤ lim.maxBufferBytes) :
    RespParser.feed { limits := lim } r = .ok ([v], { limits := lim }) := by
  have hdone := h []
  rw [List.append_nil] at hdone
  have hrun : run (RespParser.top lim) r = .ok ([v], []) := by
    rw [run_of_done (top_lawful lim) hdone, List.drop_length, run_of_more (top_nil lim)]
    rfl
  rw [feed_of_le (by simpa using hbuf)]
  simp only [List.nil_append, hrun]

/-- No bytes are no reply. -/
theorem not_oneFrame_nil : ¬ OneFrame [] := by
  intro h
  obtain ⟨v, hv⟩ := h {} (Nat.zero_le _) (Nat.zero_le _) (Nat.zero_le _) (by decide)
  cases hv

/-- An error text is made free of carriage returns before it is sent. -/
theorem cr_notMem_sanitized (text : Bytes) : cr ∉ text.map sanitizeByte := by
  intro h
  obtain ⟨b, -, hb⟩ := List.mem_map.mp h
  unfold sanitizeByte at hb
  split_ifs at hb with hcond
  · exact absurd hb (by decide)
  · exact hcond (Or.inl hb)

/-- **An error is one frame**, whatever its text is.
SOURCE: protocol/encoder.py:14-18, protocol/parser.py:66-68 -/
theorem oneFrame_encodeError (message : Str) : OneFrame (encodeError message) := by
  intro lim hbuf _ _ _
  have hprefix : ∀ rest, RespParser.top lim (45 :: rest) = parseLine .err rest := by
    intro rest
    unfold RespParser.top
    cases lim.maxArrayDepth <;> rfl
  exact ⟨_, feed_of_framed (framed_line lim hprefix (cr_notMem_sanitized (encodeUtf8 message)))
    hbuf⟩

/-! ## Values -/

/-- What the handlers return: a simple string, nothing, an integer of at most `limit`, bytes
or a list of bytes. -/
inductive Answer (limit : ℕ) : PyValue → Prop where
  | simple (s : SimpleText) : Answer limit (.simple s)
  | null : Answer limit .none
  | int (i : ℤ) (h : i.natAbs ≤ limit) : Answer limit (.int i)
  | bytes (b : Bytes) : Answer limit (.bytes b)
  | list (items : List Bytes) : Answer limit (.list (items.map .bytes))

/-- A larger limit admits the same answers. -/
theorem Answer.mono {limit limit' : ℕ} {v : PyValue} (h : Answer limit v) (hle : limit ≤ limit') :
    Answer limit' v := by
  cases h with
  | simple s => exact .simple s
  | null => exact .null
  | int i hi => exact .int i (hi.trans hle)
  | bytes b => exact .bytes b
  | list items => exact .list items

/-- SOURCE: protocol/encoder.py:47-79, protocol/parser.py:58-144 -/
theorem oneFrame_encodeValue {limit : ℕ} {v : PyValue} (h : Answer limit v)
    (hlimit : limit < 10 ^ maxStrDigits) (hsize : (encodeValue v).length ≤ maxSize) :
    OneFrame (encodeValue v) := by
  have hvalue : ∀ w : Value, w.py = v → w.depth = 0 →
      (∀ lim : Limits, (encodeValue v).length ≤ lim.maxBulkLen → w.Bounded lim) →
      OneFrame (encodeValue v) := by
    rintro w rfl hdepth hbounded lim hbuf hbulk _ _
    refine ⟨w.resp, feed_of_framed ?_ hbuf⟩
    exact frames_values lim w ⟨hbounded lim hbulk, by rw [hdepth]; exact Nat.zero_le _, hsize⟩
  cases h with
  | simple s =>
    have hs : encodeValue (.simple s) = simpleLine s.text := by
      rw [encodeValue, encodeSimpleString, if_neg (not_or.mpr ⟨s.noCr, s.noLf⟩), Option.getD_some]
      rfl
    rw [hs]
    intro lim hbuf _ _ _
    exact ⟨_, feed_of_framed (framed_simpleLine lim s.noCr) hbuf⟩
  | null => exact hvalue .null rfl rfl fun _ _ => trivial
  | int i hi =>
    apply hvalue (.int i) rfl rfl
    intro lim _
    have hconv := convertible_of_lt (hi.trans_lt hlimit)
    rw [Convertible, natBytes, List.length_map] at hconv
    exact hconv
  | bytes b =>
    apply hvalue (.bytes b) rfl rfl
    intro lim hbulk
    refine le_trans ?_ hbulk
    simp only [encodeValue, encodeBulkString, List.length_append]
    omega
  | list items =>
    rw [encodeValue_bytes] at hsize ⊢
    have hcount := count_le_encodeCommand items
    intro lim hbuf hbulk harray hnest
    refine ⟨commandValue items, feed_of_framed ?_ hbuf⟩
    apply frames_commands lim items
    exact ⟨hcount.trans harray, fun a ha => (length_le_encodeCommand ha).trans hbulk,
      convertible_of_le_maxSize (hcount.trans hsize),
      fun a ha => convertible_of_le_maxSize ((length_le_encodeCommand ha).trans hsize), hnest⟩

/-! ## Handlers -/

/-- What a command works on is in memory: no Python list or dictionary is longer than
`sys.maxsize`. -/
structure InMemory (s : Store) (argv : Command) : Prop where
  keys : s.entries.size ≤ maxSize
  lists : ∀ k e items, s.entries.get? k = some e → e.value = .deque items → items.length ≤ maxSize
  arguments : argv.length ≤ maxSize

/-- The largest count that a handler returns. -/
def maxCount : ℕ := 2 * maxSize

/-- A count of what is in memory has few enough digits to be written out. -/
theorem maxCount_lt : maxCount < 10 ^ maxStrDigits :=
  lt_of_lt_of_le (by decide : maxCount < 10 ^ 20) (Nat.pow_le_pow_right (by decide) (by decide))

/-- A purge only removes entries. -/
theorem InMemory.purge {s : Store} {argv : Command} (h : InMemory s argv) (now : ℤ) :
    InMemory (s.purge now) argv := by
  have hent := entries_purge s now
  refine ⟨?_, ?_, h.arguments⟩
  · rw [hent]
    exact (List.length_filter_le _ _).trans h.keys
  · intro k e items hk hv
    rw [hent, Store.live, Dict.get?_filter] at hk
    obtain ⟨hk, -⟩ := Option.filter_eq_some_iff.mp hk
    exact h.lists k e items hk hv

/-- What a lookup finds is an entry of the store. -/
theorem get?_of_touch {s s' : Store} {now : ℤ} {key : Bytes} {e : KeyEntry}
    (h : s.touch now key = (some e, s')) : s.entries.get? key = some e := by
  unfold Store.touch at h
  split at h
  · cases h
  · rename_i entry hk
    split_ifs at h
    · cases h
    · rw [hk]
      exact congrArg Prod.fst h

/-- A value or its absence is an answer. -/
theorem answer_ofOption (limit : ℕ) (value : Option Bytes) :
    Answer limit (PyValue.ofOption value) := by
  cases value with
  | none => exact .null
  | some b => exact .bytes b

/-- A loop that counts some of the items it goes over. -/
theorem natAbs_foldl_le {α σ : Type} {f : ℤ × σ → α → ℤ × σ}
    (hf : ∀ acc a, acc.1 ≤ (f acc a).1 ∧ (f acc a).1 ≤ acc.1 + 1) (items : List α) (s : σ) :
    (items.foldl f (0, s)).1.natAbs ≤ items.length := by
  have hloop : ∀ acc : ℤ × σ, acc.1 ≤ (items.foldl f acc).1 ∧
      (items.foldl f acc).1 ≤ acc.1 + items.length := by
    induction items with
    | nil => intro acc; simp
    | cons a items ih =>
      intro acc
      have hone := hf acc a
      have hrest := ih (f acc a)
      rw [List.foldl_cons, List.length_cons]
      push_cast
      omega
  have h := hloop (0, s)
  simp only at h
  omega

/-- SOURCE: storage/store.py:72-85 -/
theorem natAbs_delete_le (now : ℤ) (keys : List Bytes) (s : Store) :
    (s.delete now keys).1.natAbs ≤ keys.length := by
  apply natAbs_foldl_le
  intro acc key
  unfold Store.deleteOne
  split
  · omega
  · split_ifs <;> simp only <;> omega

/-- SOURCE: storage/store.py:186-203 -/
theorem natAbs_hsetLoop_le (mapping : Dict Bytes Bytes) (items : List (Bytes × Bytes)) :
    (Store.hsetLoop mapping items).1.natAbs ≤ items.length := by
  apply natAbs_foldl_le
  intro acc p
  split_ifs <;> simp only <;> omega

/-- There are at most as many pairs as arguments. -/
theorem length_pairUp_le : ∀ pairs : List Bytes, (pairUp pairs).length ≤ pairs.length
  | [] => le_rfl
  | [_] => Nat.zero_le _
  | f :: v :: rest => by
    have := length_pairUp_le rest
    simp only [pairUp, List.length_cons]
    omega

/-- SOURCE: storage/store.py:151-166 -/
theorem natAbs_lpush_le {s : Store} {now i : ℤ} {key : Bytes} {elements : List Bytes}
    {argv : Command} (h : InMemory s argv) (hlen : elements.length ≤ maxSize)
    (hr : (s.lpush now key elements).1 = .ok i) : i.natAbs ≤ maxCount := by
  unfold Store.lpush at hr
  split at hr
  · cases hr
    rw [appendLeft_eq, Int.natAbs_natCast, List.length_append, List.length_reverse,
      List.length_nil]
    unfold maxCount
    omega
  · rename_i entry s' htouch
    dsimp only at hr
    split at hr
    · rename_i items hv
      have hold := h.lists key entry items (get?_of_touch htouch) hv
      cases hr
      rw [appendLeft_eq, Int.natAbs_natCast, List.length_append, List.length_reverse]
      unfold maxCount
      omega
    · cases hr

/-- SOURCE: storage/store.py:186-203 -/
theorem natAbs_hset_le {s : Store} {now i : ℤ} {key : Bytes} {items : List (Bytes × Bytes)}
    (hr : (s.hset now key items).1 = .ok i) : i.natAbs ≤ items.length := by
  unfold Store.hset at hr
  split at hr
  · cases hr
    exact natAbs_hsetLoop_le _ _
  · dsimp only at hr
    split at hr
    · cases hr
      exact natAbs_hsetLoop_le _ _
    · cases hr

/-- How a handler ends when it does not take over the connection. -/
inductive Answers : Handled → Prop where
  | value {v : PyValue} (h : Answer maxCount v) : Answers (.value v)
  | error (m : Str) : Answers (.error m)
  | internal : Answers .internal

/-- A handler that passes on what the store returns answers when the value does. -/
theorem answers_ofStore {α : Type} {reply : α → PyValue} {r : Except StoreError α}
    (h : ∀ a, r = .ok a → Answer maxCount (reply a)) : Answers (.ofStore reply r) := by
  cases r with
  | ok a => exact .value (h a rfl)
  | error e =>
    cases e
    exact .error _

/-- `PONG`, or the argument. -/
theorem answers_cmdPing (argv : Command) : Answers (cmdPing argv) := by
  unfold cmdPing
  split
  · exact .value (.simple _)
  · exact .value (.bytes _)
  · exact .error _

/-- The argument. -/
theorem answers_cmdEcho (argv : Command) : Answers (cmdEcho argv) := by
  unfold cmdEcho
  split
  · exact .value (.bytes _)
  · exact .error _

/-- `OK`, or an error. -/
theorem answers_cmdSelect (argv : Command) : Answers (cmdSelect argv) := by
  unfold cmdSelect
  split
  · split
    · exact .error _
    · split_ifs
      · exact .error _
      · exact .value (.simple _)
  · exact .error _

/-- `OK`, or an error. -/
theorem answers_cmdAuth (srv : Server) (conn : ℕ) (argv : Command) :
    Answers (srv.cmdAuth conn argv).1 := by
  unfold Server.cmdAuth
  split
  · split_ifs
    · exact .error _
    · split
      · exact .value (.simple _)
      · exact .error _
  · exact .error _

/-- `OK`, or an error. -/
theorem answers_cmdSet (now : ℤ) (argv : Command) (s : Store) :
    Answers (cmdSet now argv s).1 := by
  unfold cmdSet
  split
  · split
    · exact .error _
    · exact .value (.simple _)
  · exact .error _

/-- A string or its absence. -/
theorem answers_cmdGet (now : ℤ) (argv : Command) (s : Store) :
    Answers (cmdGet now argv s).1 := by
  unfold cmdGet
  split
  · exact answers_ofStore fun a _ => answer_ofOption _ a
  · exact .error _

/-- One or zero. -/
theorem answers_cmdExpire (now : ℤ) (argv : Command) (s : Store) :
    Answers (cmdExpire now argv s).1 := by
  unfold cmdExpire
  split
  · split
    · exact .error _
    · refine .value (.int _ ?_)
      unfold Store.expire
      split
      · exact Nat.zero_le _
      · split_ifs <;> exact (by decide : (1 : ℤ).natAbs ≤ maxCount)
  · exact .error _

/-- The length of a list that is in memory. -/
theorem answers_cmdLpush (now : ℤ) {argv : Command} {s : Store} (h : InMemory s argv) :
    Answers (cmdLpush now argv s).1 := by
  unfold cmdLpush
  split
  · rename_i key element elements
    apply answers_ofStore
    intro i hi
    refine .int i (natAbs_lpush_le h ?_ hi)
    have hlen := h.arguments
    simp only [List.length_cons] at hlen ⊢
    omega
  · exact .error _

/-- An element or its absence. -/
theorem answers_cmdRpop (now : ℤ) (argv : Command) (s : Store) :
    Answers (cmdRpop now argv s).1 := by
  unfold cmdRpop
  split
  · exact answers_ofStore fun a _ => answer_ofOption _ a
  · exact .error _

/-- The number of new fields. -/
theorem answers_cmdHset (now : ℤ) {argv : Command} {s : Store} (h : InMemory s argv) :
    Answers (cmdHset now argv s).1 := by
  unfold cmdHset
  split_ifs
  · exact .error _
  · split
    · split_ifs
      · exact .error _
      · rename_i key pairs _ _
        apply answers_ofStore
        intro i hi
        refine .int i ((natAbs_hset_le hi).trans ((length_pairUp_le pairs).trans ?_))
        have hlen := h.arguments
        simp only [List.length_cons] at hlen
        unfold maxCount
        omega
    · exact .error _

/-- A list of fields and values. -/
theorem answers_cmdHgetall (now : ℤ) (argv : Command) (s : Store) :
    Answers (cmdHgetall now argv s).1 := by
  unfold cmdHgetall
  split
  · exact answers_ofStore fun items _ => .list items
  · exact .error _

/-- One bulk string. -/
theorem answers_cmdInfo (srv : Server) (env : Env) (argv : Command) :
    Answers (srv.cmdInfo env argv).1 := by
  unfold Server.cmdInfo
  split_ifs
  · exact .error _
  · dsimp only
    split_ifs
    · exact .internal
    · exact .value (.bytes _)

/-- `OK`, or an error. -/
theorem answers_cmdSave (srv : Server) (env : Env) (argv : Command) :
    Answers (srv.cmdSave env argv).1 := by
  unfold Server.cmdSave
  split_ifs
  · exact .error _
  · dsimp only
    split
    · exact .internal
    · split
      · exact .error _
      · exact .value (.simple _)

/-- A line of text, or an error. -/
theorem answers_cmdBgsave (srv : Server) (argv : Command) :
    Answers (srv.cmdBgsave argv).1 := by
  unfold Server.cmdBgsave
  split_ifs
  · exact .error _
  · exact .error _
  · exact .value (.simple _)

/-- A line of text, or an error. -/
theorem answers_cmdBgrewriteaof (srv : Server) (argv : Command) :
    Answers (srv.cmdBgrewriteaof argv).1 := by
  unfold Server.cmdBgrewriteaof
  split_ifs
  · exact .error _
  · exact .error _
  · exact .error _
  · exact .value (.simple _)

/-- A list of names and settings. -/
theorem answers_cmdConfig (cfg : Config) (argv : Command) : Answers (cmdConfig cfg argv) := by
  unfold cmdConfig
  split
  · split_ifs
    · split
      · rename_i pattern
        have hlist : configGet cfg pattern = .list (List.map .bytes
            (([("dir".toList, cfg.dir), ("dbfilename".toList, cfg.dbfilename)].filter fun p =>
              (decodeReplace pattern).map Char.toLower = "*".toList ∨
                (decodeReplace pattern).map Char.toLower = p.1).flatMap
              fun p => [encodeUtf8 p.1, encodeUtf8 p.2])) := by
          rw [List.map_flatMap]
          rfl
        rw [hlist]
        exact .value (.list _)
      · exact .error _
    · exact .error _
    · split
      · exact .internal
      · exact .error _
  · exact .error _

/-- The number of keys that were there. -/
theorem answers_cmdDel (now : ℤ) {argv : Command} {s : Store} (h : InMemory s argv) :
    Answers (cmdDel now argv s).1 := by
  unfold cmdDel
  split
  · rename_i key keys
    refine .value (.int _ ((natAbs_delete_le now (key :: keys) s).trans ?_))
    have hlen := h.arguments
    simp only [List.length_cons] at hlen ⊢
    unfold maxCount
    omega
  · exact .error _

/-- The number of keys. -/
theorem answers_cmdDbsize (now : ℤ) {argv : Command} {s : Store} (h : InMemory s argv) :
    Answers (cmdDbsize now argv s).1 := by
  unfold cmdDbsize
  split
  · refine .value (.int _ ?_)
    have hkeys := (h.purge now).keys
    rw [Int.natAbs_natCast]
    simp only [Store.dbsize]
    unfold maxCount
    omega
  · exact .error _

/-- `OK`, or an error. -/
theorem answers_cmdReplconf (argv : Command) : Answers (cmdReplconf argv) := by
  unfold cmdReplconf
  split_ifs
  · exact .error _
  · exact .value (.simple _)

/-- TTL of a key. -/
def IsTtl (argv : Command) (key : Bytes) : Prop :=
  ∃ name, argv = [name, key] ∧ CommandName.lookup name = some .ttl

/-- **Every handler but that of PSYNC ends with an answer**, or with the TTL of a key.
SOURCE: commands/registry.py:61-90 -/
theorem handle_answers (srv : Server) (env : Env) (conn : ℕ) {name : Bytes} {args : Command}
    {c : CommandName} (hl : CommandName.lookup name = some c) (hps : c ≠ .psync)
    (hmem : InMemory srv.store (name :: args)) :
    Answers (srv.handle env conn (name :: args) c).1 ∨
      ∃ key, IsTtl (name :: args) key ∧ (srv.handle env conn (name :: args) c).1 =
        .value (.int (srv.store.ttl env.now key).1) := by
  cases c with
  | psync => exact absurd rfl hps
  | ttl =>
    rcases args with _ | ⟨key, _ | ⟨b, args⟩⟩
    · exact Or.inl (.error _)
    · exact Or.inr ⟨key, ⟨name, rfl, hl⟩, rfl⟩
    · exact Or.inl (.error _)
  | ping => exact Or.inl (answers_cmdPing _)
  | echo => exact Or.inl (answers_cmdEcho _)
  | select => exact Or.inl (answers_cmdSelect _)
  | command => exact Or.inl (.value (.list []))
  | auth => exact Or.inl (answers_cmdAuth srv conn _)
  | set => exact Or.inl (answers_cmdSet env.now _ srv.store)
  | get => exact Or.inl (answers_cmdGet env.now _ srv.store)
  | expire => exact Or.inl (answers_cmdExpire env.now _ srv.store)
  | lpush => exact Or.inl (answers_cmdLpush env.now hmem)
  | rpop => exact Or.inl (answers_cmdRpop env.now _ srv.store)
  | hset => exact Or.inl (answers_cmdHset env.now hmem)
  | hgetall => exact Or.inl (answers_cmdHgetall env.now _ srv.store)
  | info => exact Or.inl (answers_cmdInfo srv env _)
  | save => exact Or.inl (answers_cmdSave srv env _)
  | bgsave => exact Or.inl (answers_cmdBgsave srv _)
  | bgrewriteaof => exact Or.inl (answers_cmdBgrewriteaof srv _)
  | config => exact Or.inl (answers_cmdConfig srv.config _)
  | del => exact Or.inl (answers_cmdDel env.now hmem)
  | dbsize => exact Or.inl (answers_cmdDbsize env.now hmem)
  | replconf => exact Or.inl (answers_cmdReplconf _)

/-- SOURCE: commands/registry.py:37-58 -/
theorem dispatch_answers (srv : Server) (env : Env) (flags : Flags) (conn : ℕ) {argv : Command}
    (hps : upperName argv ≠ ascii "PSYNC") (hmem : InMemory srv.store argv) :
    Answers (srv.dispatch env flags conn argv).1 ∨
      ∃ key, IsTtl argv key ∧ (srv.dispatch env flags conn argv).1 =
        .value (.int (srv.store.ttl env.now key).1) := by
  cases argv with
  | nil => exact Or.inl (.error _)
  | cons name args =>
    simp only [Server.dispatch]
    cases hl : CommandName.lookup name with
    | none => exact Or.inl (.error _)
    | some c =>
      have hc : c ≠ .psync := by
        rintro rfl
        have htext := List.find?_some hl
        simp only [decide_eq_true_eq] at htext
        exact hps htext.symm
      simp only
      split_ifs
      · exact Or.inl (.error _)
      · exact handle_answers srv env conn hl hc hmem

end ByoRedis.Analysis
