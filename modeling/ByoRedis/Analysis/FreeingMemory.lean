import ByoRedis.Analysis.EvictionOrder
import ByoRedis.Analysis.Rejection

/-!
# Freeing memory above the limit

A snapshot that is loaded may use more memory than `maxmemory` admits. The limit is looked at
after every write command, also after one that takes memory away, and a command after which
it is not met is rolled back. `memory_freed_iff` says when DEL, RPOP and EXPIRE survive: when
the memory that the policy cannot evict exceeds the limit by no more than what the command
takes off it.
-/

set_option autoImplicit false

namespace ByoRedis.Analysis

open ByoRedis.Model ByoRedis.Lib ByoRedis.Interface

/-! ## Memory that stays -/

/-- The entries that the policy does not evict.
SOURCE: storage/store.py:299-314 -/
def pinned (policy : MaxmemoryPolicy) (e : KeyEntry) : Bool :=
  match policy with
  | .noeviction => true
  | .allkeysLru => false
  | .volatileTtl => e.expireAtMs.isNone

/-- The memory they use. -/
def pinnedUsage (policy : MaxmemoryPolicy) (d : Entries) : ℕ :=
  Store.usageOf (d.filter fun _ e => pinned policy e)

/-- What one of them counts. -/
def pinnedEntry (policy : MaxmemoryPolicy) (k : Bytes) (e : KeyEntry) : ℕ :=
  if pinned policy e then Store.entryUsage k e else 0

/-- What is pinned is the sum over the entries. -/
theorem pinnedUsage_eq (policy : MaxmemoryPolicy) (d : Entries) :
    pinnedUsage policy d = d.total (pinnedEntry policy) :=
  Dict.total_filter Store.entryUsage (fun _ e => pinned policy e) d

variable {s : Store} {now : ℤ}

/-- **The limit cannot be met exactly when the memory that stays is too much.**
SOURCE: storage/store.py:293-319 -/
theorem enforceMemoryLimit_isSome_iff (s : Store) (now : ℤ) :
    (s.enforceMemoryLimit now).1.isSome ↔ s.maxmemoryBytes = 0 ∨
      pinnedUsage s.maxmemoryPolicy (s.live now) ≤ s.maxmemoryBytes := by
  by_cases h0 : s.maxmemoryBytes = 0
  · rw [enforceMemoryLimit_unlimited h0]
    simp [h0]
  have hM : 0 < s.maxmemoryBytes := Nat.pos_of_ne_zero h0
  rw [or_iff_right h0]
  by_cases hp : s.maxmemoryPolicy = .noeviction
  · have hall : pinnedUsage s.maxmemoryPolicy (s.live now) = Store.usageOf (s.live now) := by
      rw [hp, pinnedUsage, Dict.filter_eq_self _ _ fun _ _ => rfl]
    rw [enforceMemoryLimit_noeviction hM hp, hall]
    split_ifs with hu <;> simp [hu]
  · have hsame : (fun (_ : Bytes) (e : KeyEntry) => !evictable s.maxmemoryPolicy e) =
        fun _ e => pinned s.maxmemoryPolicy e := by
      funext _ e
      cases hpolicy : s.maxmemoryPolicy with
      | noeviction => exact absurd hpolicy hp
      | allkeysLru => rfl
      | volatileTtl => cases hx : e.expireAtMs <;> simp [evictable, pinned, hx]
    have hnone := @enforceMemoryLimit_eq_none s now hM hp
    rw [hsame] at hnone
    rw [Option.isSome_iff_ne_none, ne_eq, hnone, Nat.not_lt]
    rfl

/-! ## What a command takes off -/

/-- The commands that free memory: DEL of keys that are there, RPOP of a list, EXPIRE of a key
that is there. -/
def Frees (d : Entries) : Write → Prop
  | .del keys => ∀ k ∈ keys, k ∈ d.keys
  | .rpop key => ∃ e items, d.get? key = some e ∧ e.value = .deque items
  | .expire key _ => key ∈ d.keys
  | _ => False

/-- The usage of the last element of a list, or of the whole key when no other is left. -/
def poppedUsage (key : Bytes) (e : KeyEntry) : ℕ :=
  match e.value with
  | .deque items =>
    if items.length ≤ 1 then Store.entryUsage key e
    else (items.getLast?.getD []).length + 16
  | _ => 0

/-- How much a command takes off the memory that stays: what it deletes of it and, under
`volatile-ttl`, what it gives a deadline. -/
def freedUsage (policy : MaxmemoryPolicy) (d : Entries) : Write → ℕ
  | .del keys => pinnedUsage policy (d.filter fun k _ => k ∈ keys)
  | .rpop key => (d.get? key).elim 0 fun e => if pinned policy e then poppedUsage key e else 0
  | .expire key seconds =>
    if seconds ≤ 0 ∨ policy = .volatileTtl then (d.get? key).elim 0 (pinnedEntry policy key) else 0
  | _ => 0

/-- Popping an element frees its usage.
SOURCE: storage/store.py:168-183, 276-291 -/
theorem usage_dropLast (key : Bytes) {e : KeyEntry} {items : List Bytes}
    (hv : e.value = .deque items) :
    items.dropLast = [] ∧ poppedUsage key e = Store.entryUsage key e ∨
    items.dropLast ≠ [] ∧ ∀ x, Store.entryUsage key
        { type := .list, value := .deque items.dropLast, expireAtMs := x } + poppedUsage key e =
      Store.entryUsage key e := by
  by_cases h1 : items.length ≤ 1
  · refine Or.inl ⟨?_, ?_⟩
    · apply List.eq_nil_of_length_eq_zero
      rw [List.length_dropLast]
      omega
    · rw [poppedUsage, hv]
      exact if_pos h1
  · have hne : items ≠ [] := by
      rintro rfl
      exact h1 (Nat.zero_le _)
    refine Or.inr ⟨?_, fun x => ?_⟩
    · intro hnil
      have hlen := congrArg List.length hnil
      rw [List.length_dropLast, List.length_nil] at hlen
      omega
    · have hsum : (items.map fun i => i.length + 16).sum =
          (items.dropLast.map fun i => i.length + 16).sum + ((items.getLast hne).length + 16) := by
        conv_lhs => rw [← List.dropLast_append_getLast hne]
        simp
      simp only [Store.entryUsage, poppedUsage, hv, if_neg h1, hsum,
        List.getLast?_eq_some_getLast hne, Option.getD_some]
      omega

/-- What stays after a change of one key that is there. -/
theorem pinnedUsage_insert (policy : MaxmemoryPolicy) {d : Entries} {k : Bytes} {e : KeyEntry}
    (h : d.get? k = some e) (e' : KeyEntry) :
    pinnedUsage policy (d.insert k e') + pinnedEntry policy k e =
      pinnedUsage policy d + pinnedEntry policy k e' := by
  rw [pinnedUsage_eq, pinnedUsage_eq]
  exact d.total_insert _ e' h

/-- What a key that is removed had pinned. -/
theorem pinnedUsage_erase (policy : MaxmemoryPolicy) {d : Entries} {k : Bytes} {e : KeyEntry}
    (h : d.get? k = some e) :
    pinnedUsage policy (d.erase k) + pinnedEntry policy k e = pinnedUsage policy d := by
  rw [pinnedUsage_eq, pinnedUsage_eq, d.total_split (pinnedEntry policy) k, h]
  rfl

/-- **A command that frees memory takes `freedUsage` off the memory that stays.**
SOURCE: storage/store.py:72-106, 168-183 -/
theorem pinnedUsage_effect (policy : MaxmemoryPolicy) {d d' : Entries} {w : Write}
    (hfree : Frees d w) (h : w.effect now d = some d') :
    pinnedUsage policy d' + freedUsage policy d w = pinnedUsage policy d := by
  cases w with
  | del keys =>
    rw [Write.effect_del] at h
    cases h
    have hrest : d.eraseMany keys = d.filter fun k _ => !decide (k ∈ keys) := by
      rw [Dict.eraseMany_eq_filter]
      congr 1
      funext k _
      simp
    rw [freedUsage, pinnedUsage_eq, pinnedUsage_eq, pinnedUsage_eq, hrest]
    exact d.total_filter_add _ _
  | rpop key =>
    obtain ⟨e, items, hget, hv⟩ := hfree
    rw [Write.effect_single now (w := .rpop key) rfl, hget] at h
    simp only [Write.change, hv] at h
    rw [freedUsage, hget, Option.elim_some]
    rcases usage_dropLast key hv with ⟨hnil, hpopped⟩ | ⟨hsome, hpopped⟩
    · rw [hnil] at h
      cases h
      rw [hpopped]
      exact pinnedUsage_erase policy hget
    · rw [if_neg (by simpa using hsome)] at h
      cases h
      have hinsert := pinnedUsage_insert policy hget
        { type := .list, value := .deque items.dropLast, expireAtMs := e.expireAtMs }
      have hpinned : pinned policy
          { type := .list, value := .deque items.dropLast, expireAtMs := e.expireAtMs } =
          pinned policy e := by
        cases policy <;> rfl
      have hsum := hpopped e.expireAtMs
      rw [pinnedEntry, pinnedEntry, hpinned] at hinsert
      split_ifs at hinsert ⊢ <;> omega
  | expire key n =>
    obtain ⟨e, hget⟩ := (d.mem_keys_iff key).mp hfree
    rw [Write.effect_single now (w := .expire key n) rfl, hget] at h
    simp only [Write.change] at h
    rw [freedUsage, hget, Option.elim_some]
    by_cases hn : n ≤ 0
    · rw [if_pos hn] at h
      cases h
      rw [if_pos (Or.inl hn)]
      exact pinnedUsage_erase policy hget
    · rw [if_neg hn] at h
      cases h
      have hinsert := pinnedUsage_insert policy hget (e.withDeadline (some (now + n * 1000)))
      have husage : Store.entryUsage key (e.withDeadline (some (now + n * 1000))) =
          Store.entryUsage key e := rfl
      cases policy with
      | noeviction =>
        simp only [pinnedEntry, pinned, husage, if_true] at hinsert
        rw [if_neg (by simp [hn])]
        omega
      | allkeysLru =>
        simp only [pinnedEntry, pinned] at hinsert
        rw [if_neg (by simp [hn])]
        simpa using hinsert
      | volatileTtl =>
        rw [if_pos (Or.inr rfl)]
        have hzero : pinnedEntry .volatileTtl key (e.withDeadline (some (now + n * 1000))) = 0 :=
          rfl
        rw [hzero] at hinsert
        exact hinsert
  | set key value ex => exact absurd hfree id
  | lpush key elements => exact absurd hfree id
  | hset key items => exact absurd hfree id

/-! ## The command and the limit -/

variable {srv : Server} {env : Env} {flags : Flags} {conn : ℕ} {argv : Command} {w : Write}

/-- Commands with a meaning on the entries are write commands.
SOURCE: commands/base.py:62-71, commands/registry.py:67-98 -/
theorem isWrite_of_ofCommand (h : Write.ofCommand argv = some w) : isWrite argv = true := by
  cases argv with
  | nil => cases h
  | cons name args =>
    have hname : ∀ c, CommandName.lookup name = some c → IsWriteName c →
        isWrite (name :: args) = true := by
      intro c hl hc
      rw [isWrite, upperName, ← text_of_lookup hl]
      rcases hc with rfl | rfl | rfl | rfl | rfl | rfl <;> rfl
    unfold Write.ofCommand at h
    rw [List.head?_cons, Option.bind_some] at h
    cases hl : CommandName.lookup name with
    | none =>
      rw [hl] at h
      cases h
    | some c =>
      rw [hl] at h
      apply hname c hl
      cases c
      case set | expire | lpush | rpop | hset | del => simp [IsWriteName]
      all_goals simp at h

/-- The commands that free memory are not refused. -/
theorem Frees.effect {d : Entries} (h : Frees d w) (now : ℤ) : ∃ d', w.effect now d = some d' := by
  rw [← Option.ne_none_iff_exists']
  intro hnone
  obtain ⟨key, hkey, hrefuse⟩ := Write.effect_eq_none_iff.mp hnone
  cases w with
  | del keys => cases hrefuse
  | rpop key' =>
    obtain ⟨e, items, hget, hv⟩ := h
    obtain rfl : key' = key := List.singleton_inj.mp hkey
    rw [hget] at hrefuse
    simp only [Write.change, hv] at hrefuse
    split_ifs at hrefuse
  | expire key' n =>
    obtain ⟨e, hget⟩ := (d.mem_keys_iff key').mp h
    obtain rfl : key' = key := List.singleton_inj.mp hkey
    rw [hget] at hrefuse
    simp only [Write.change] at hrefuse
    split_ifs at hrefuse
  | set key' value ex => exact h
  | lpush key' elements => exact h
  | hset key' items => exact h

/-- A failure of the AOF is told apart from a lack of memory. -/
theorem misconfReply_ne_oom (text : Str) :
    Server.misconfReply text ≠ encodeError Server.oomError := by
  intro h
  have hsecond : (encodeError Server.oomError)[1]? = some 79 := by decide +kernel
  rw [← h] at hsecond
  have hM : (Server.misconfReply text)[1]? = some 77 := rfl
  rw [hM] at hsecond
  exact absurd hsecond (by decide)

/-- The command is not answered with the OOM error, and the store is left as its meaning says,
less what was evicted afterwards. -/
def Accomplished (srv : Server) (env : Env) (flags : Flags) (conn : ℕ) (argv : Command)
    (w : Write) (ios : List RecordIO) : Prop :=
  (srv.execute env flags conn argv ios).reply ≠ some (encodeError Server.oomError) ∧
    ∃ d, w.effect env.now (srv.store.live env.now) = some d ∧
      (srv.execute env flags conn argv ios).server.store.entries =
        d.eraseMany (localVictims env.now argv srv.store)

/-- An accepted write is accomplished, whatever becomes of its records. -/
theorem accomplished_of_accepted (hof : Write.ofCommand argv = some w) {d : Entries}
    {evicted : List Bytes} {v : PyValue} {s : Store}
    (heff : Interface.effect env.now argv (srv.store.live env.now) = some d)
    (hlim : (handled env.now argv srv.store).enforceMemoryLimit env.now = (some evicted, s))
    (hp : srv.prepare env flags conn argv =
      (srv.hooks flags argv evicted v, { srv with store := s })) (ios : List RecordIO) :
    Accomplished srv env flags conn argv w ios := by
  obtain ⟨hent, -, -⟩ := accepted_spec (isWrite_of_ofCommand hof) heff hlim
  have hvalue := encodeValue_ne_encodeError v Server.oomError
  refine ⟨?_, d, ?_, ?_⟩
  · have hfinal : ∀ cs pr, srv.hooks flags argv evicted v = .records cs pr (encodeValue v) →
        (srv.execute env flags conn argv ios).reply ≠ some (encodeError Server.oomError) := by
      intro cs pr hhooks
      unfold Server.execute
      rw [hp, hhooks]
      generalize hc : Server.commitAll pr cs ios { srv with store := s } = c
      obtain ⟨_ | text, committed, srv'⟩ := c
      · simpa only [hc, ne_eq, Option.some.injEq] using hvalue
      · simpa only [hc, ne_eq, Option.some.injEq] using misconfReply_ne_oom text
    by_cases h1 : (isWrite argv && !flags.isLoading && !flags.isReplicaClient &&
        !srv.config.isReplica) = true
    · exact hfinal _ _ (if_pos h1)
    · by_cases h2 : (isWrite argv && flags.isReplicaClient && !flags.isLoading) = true
      · exact hfinal _ _ ((if_neg h1).trans (if_pos h2))
      · have hdone : srv.hooks flags argv evicted v = .done (some (encodeValue v)) :=
          (if_neg h1).trans (if_neg h2)
        rw [hdone] at hp
        rw [execute_of_done hp]
        exact fun h => hvalue (Option.some.inj h)
  · rw [Interface.effect, hof] at heff
    exact heff
  · rw [store_execute, hp, localVictims, hlim]
    exact hent

/-- **When memory can be freed.** A DEL of keys that are there, an RPOP of a list or an EXPIRE
of a key that is there, which the gates let through, is accomplished exactly when there is no
limit or the memory that the policy cannot evict exceeds it by no more than the command takes
off, whatever the keyspace is and however it was installed.
SOURCE: server.py:475-498, storage/store.py:276-319 -/
theorem memory_freed_iff (hof : Write.ofCommand argv = some w)
    (hfree : Frees (srv.store.live env.now) w) (hadm : Admitted srv flags conn argv)
    (ios : List RecordIO) :
    Accomplished srv env flags conn argv w ios ↔ srv.store.maxmemoryBytes = 0 ∨
      pinnedUsage srv.store.maxmemoryPolicy (srv.store.live env.now) ≤ srv.store.maxmemoryBytes +
        freedUsage srv.store.maxmemoryPolicy (srv.store.live env.now) w := by
  have hw := isWrite_of_ofCommand hof
  obtain ⟨d, hd⟩ := hfree.effect env.now
  have heff : Interface.effect env.now argv (srv.store.live env.now) = some d := by
    rw [Interface.effect, hof]
    exact hd
  obtain ⟨hent, hsame, hfresh⟩ := handled_spec hw heff
  have hlive : (handled env.now argv srv.store).live env.now = d := by
    rw [live_of_fresh (by rw [hent]; exact hfresh), hent]
  have hroom := enforceMemoryLimit_isSome_iff (handled env.now argv srv.store) env.now
  have hfreed := pinnedUsage_effect srv.store.maxmemoryPolicy hfree hd
  rw [hlive, hsame.1, hsame.2] at hroom
  have hcondition : ((handled env.now argv srv.store).enforceMemoryLimit env.now).1.isSome ↔
      srv.store.maxmemoryBytes = 0 ∨
        pinnedUsage srv.store.maxmemoryPolicy (srv.store.live env.now) ≤
          srv.store.maxmemoryBytes +
            freedUsage srv.store.maxmemoryPolicy (srv.store.live env.now) w := by
    rw [hroom]
    apply or_congr_right
    omega
  rw [← hcondition]
  have hout := prepare_write env hw hadm
  constructor
  · rintro ⟨hreply, -⟩
    by_contra hnone
    rw [Option.not_isSome_iff_eq_none] at hnone
    generalize hr : srv.prepare env flags conn argv = r at hout
    cases hout with
    | refused m h herr hent =>
      rw [heff] at h
      cases h
    | oom d' s h hlim =>
      rw [execute_of_done hr] at hreply
      exact hreply rfl
    | accepted d' evicted v s h hlim =>
      rw [hlim] at hnone
      cases hnone
  · intro hsome
    generalize hr : srv.prepare env flags conn argv = r at hout
    cases hout with
    | refused m h herr hent =>
      rw [heff] at h
      cases h
    | oom d' s h hlim =>
      rw [hlim] at hsome
      cases hsome
    | accepted d' evicted v s h hlim => exact accomplished_of_accepted hof h hlim hr ios

/-- Two strings of one byte, which use 132 bytes. -/
def twoStrings : Entries :=
  Dict.empty.insertMany [
    (ascii "a", { type := .string, value := .bytes (ascii "x") }),
    (ascii "b", { type := .string, value := .bytes (ascii "y") })]

/-- A server that was started with a snapshot of them, under a limit. -/
def startedAbove (limit : ℕ) : Except Server.LoadError Server :=
  Server.start { aofEnabled := false, maxmemoryBytes := limit } default none
    (dumpRdbEntries twoStrings) fun _ => 0

/-- Under a limit of 50 bytes neither key can be deleted. -/
theorem memory_freed_iff_started :
    (startedAbove 50).map (fun srv => (srv.store.live 0).keys) = .ok [ascii "a", ascii "b"] ∧
    (startedAbove 50).map (fun srv =>
      (srv.execute {} .client 0 [ascii "DEL", ascii "a"] []).reply) =
        .ok (some (encodeError Server.oomError)) ∧
    (startedAbove 50).map (fun srv =>
      (srv.execute {} .client 0 [ascii "DEL", ascii "a"] []).server.store.entries.keys) =
        .ok [ascii "a", ascii "b"] := by
  refine ⟨?_, ?_, ?_⟩ <;> decide +kernel

/-- Under a limit of 70 bytes one of them can be deleted. -/
theorem memory_freed_iff_enough :
    ∃ srv, startedAbove 70 = .ok srv ∧ 70 < Store.usageOf (srv.store.live 0) ∧
      Accomplished srv {} .client 0 [ascii "DEL", ascii "a"] (.del [ascii "a"]) [] := by
  have hloaded : (startedAbove 70).map (fun srv => (srv.store.live 0, srv.store.maxmemoryBytes,
      srv.store.maxmemoryPolicy)) = .ok (twoStrings, 70, .noeviction) := by
    decide +kernel
  have hopen : (startedAbove 70).map (fun srv =>
      (srv.noauth .client 0 [ascii "DEL", ascii "a"], srv.misconf .client [ascii "DEL", ascii "a"],
        srv.config.isReplica)) = .ok (false, false, false) := by
    decide +kernel
  cases hstart : startedAbove 70 with
  | error e =>
    rw [hstart] at hloaded
    cases hloaded
  | ok srv =>
    rw [hstart] at hloaded hopen
    simp only [Except.map, Except.ok.injEq, Prod.mk.injEq] at hloaded hopen
    obtain ⟨hlive, hlimit, hpolicy⟩ := hloaded
    obtain ⟨hauth, haof, hrole⟩ := hopen
    refine ⟨srv, rfl, ?_, ?_⟩
    · rw [hlive]
      decide +kernel
    · have hfree : Frees (srv.store.live 0) (.del [ascii "a"]) := by
        rw [Frees, hlive]
        decide +kernel
      refine (memory_freed_iff rfl hfree ⟨hauth, haof, by rw [hrole]; rfl⟩ []).mpr (Or.inr ?_)
      rw [hlive, hlimit, hpolicy]
      decide +kernel

end ByoRedis.Analysis
