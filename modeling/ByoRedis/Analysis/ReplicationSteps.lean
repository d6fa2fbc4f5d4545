import ByoRedis.Analysis.SystemSteps
import ByoRedis.Analysis.LogTiming
import ByoRedis.Analysis.LogReplay
import ByoRedis.Analysis.Propagation

/-!
# What an action means for replication

Three readings of one action. `History` is the keyspace the events describe: the records
that took effect, each at its time. `advances_of_step` says that nothing is propagated that
did not take effect before, nor twice, nor in another order. `LinkStep` lists what an action
can do to the links of the replicas and to the resyncs in progress.
-/

set_option autoImplicit false

namespace ByoRedis.Analysis

open ByoRedis.Model ByoRedis.Lib ByoRedis.Interface

/-! ## The keyspace of a history -/

/-- The entries whose deadline has not passed at `t`. -/
def liveAt (t : ℤ) (d : Entries) : Entries := d.filter fun _ e => !isExpired e.expireAtMs t

/-- The effects of the records of one write at time `t`, the first on the entries that are
live then. -/
def takeEffect (t : ℤ) (records : List Command) (d : Entries) : Entries :=
  records.foldl (fun d r => (effect t r d).getD d) (liveAt t d)

/-- The keyspace after the writes of a history. -/
def effects (d : Entries) (evs : List Event) : Entries :=
  evs.foldl (fun d ev => match ev with
    | .executed t records => takeEffect t records d
    | _ => d) d

/-- The effects of two parts of a run. -/
theorem effects_append (d : Entries) (evs es : List Event) :
    effects d (evs ++ es) = effects (effects d evs) es := List.foldl_append

/-- Events without a write leave the keyspace. -/
theorem effects_of_executedOf {es : List Event} (d : Entries) (h : ∀ t r, .executed t r ∉ es) :
    effects d es = d := by
  induction es with
  | nil => rfl
  | cons ev es ih =>
    have hrest := ih fun t r hr => h t r (List.mem_cons_of_mem _ hr)
    cases ev with
    | executed t r => exact absurd List.mem_cons_self (h t r)
    | appended argv => exact hrest
    | propagated argv => exact hrest
    | snapshot conn t d' off => exact hrest
    | rewritten cs => exact hrest
    | replied conn reply => exact hrest

/-- What is live later was live before. -/
theorem liveAt_liveAt {t t' : ℤ} (h : t ≤ t') (d : Entries) :
    liveAt t' (liveAt t d) = liveAt t' d := by
  unfold liveAt
  rw [Dict.filter_filter]
  congr 1
  funext _ e
  cases hx : isExpired e.expireAtMs t with
  | false => rfl
  | true => rw [isExpired_mono h hx]; rfl

/-! ## One action -/

/-- What an action can do to the links and to the resyncs: nothing; a record goes to every
link; a replica is registered and its snapshot taken; a resync sends the snapshot, takes the
backlog or writes it; a link is unregistered, drained or given up. -/
inductive LinkStep (sys : System) (a : Action) (es : List Event) (sys' : System) : Prop where
  | idle (hmaster : sys'.server.master = sys.server.master) (hresyncs : sys'.resyncs = sys.resyncs)
      (hes : propagatedOf es = [])
  | propagated (argv : Command) (fails : ℕ → Bool) (haction : a = .propagate fails)
      (hhead : (unpropagated sys.holder).head? = some argv)
      (hmaster : sys'.server.master = (sys.server.master.propagate argv fails).1)
      (hresyncs : sys'.resyncs = sys.resyncs) (hes : propagatedOf es = [argv])
  | registered (conn : ℕ) (hfree : sys.holder = .free)
      (hnew : sys.server.master.links.get? conn = none)
      (hmaster : sys'.server.master = sys.server.master.registerSyncing conn)
      (hresyncs : sys'.resyncs = sys.resyncs.insert conn
        (.encoding (sys.server.store.live sys.now) sys.server.master.offset))
      (hes : es = [.snapshot conn sys.now (sys.server.store.live sys.now)
        sys.server.master.offset])
  | sent (conn : ℕ) (d : Entries) (offset : ℕ) (rdb : Bytes)
      (hresync : sys.resyncs.get? conn = some (.encoding d offset))
      (hdump : dumpRdbEntries d = some rdb)
      (hmaster : sys'.server.master = sys.server.master.writeLink conn
        (MasterReplication.fullresyncPayload sys.server.master.replid.text offset rdb))
      (hresyncs : sys'.resyncs = sys.resyncs.insert conn (.flushing [])) (hes : es = [])
  | taken (conn : ℕ) (hresync : sys.resyncs.get? conn = some (.flushing []))
      (hmaster : sys'.server.master = (sys.server.master.takeBatch conn).2)
      (hresyncs : sys'.resyncs = if (sys.server.master.takeBatch conn).1.isEmpty
        then sys.resyncs.erase conn
        else sys.resyncs.insert conn (.flushing (sys.server.master.takeBatch conn).1))
      (hes : es = [])
  | flushed (conn : ℕ) (batch : List Bytes)
      (hresync : sys.resyncs.get? conn = some (.flushing batch))
      (hmaster : sys'.server.master = sys.server.master.writeLink conn batch.flatten)
      (hresyncs : sys'.resyncs = sys.resyncs.insert conn (.flushing [])) (hes : es = [])
  | unregistered (conn : ℕ) (hmaster : sys'.server.master = sys.server.master.unregister conn)
      (hresyncs : ∀ c, c ≠ conn → sys'.resyncs.get? c = sys.resyncs.get? c) (hes : es = [])
  | drained (conn : ℕ) (hmaster : sys'.server.master = sys.server.master.drainOne conn)
      (hresyncs : sys'.resyncs = sys.resyncs) (hes : es = [])
  | failed (conn : ℕ) (link : ReplicaLink) (haction : a = .drainFail conn)
      (hmaster : sys'.server.master = sys.server.master.setLink conn { link with alive := false })
      (hresyncs : sys'.resyncs = sys.resyncs) (hes : es = [])

/-- What an action does as far as replication is concerned. -/
structure Turn (sys : System) (a : Action) (es : List Event) (sys' : System) : Prop where
  config : sys'.server.config = sys.server.config
  keyspace : ∀ d, sys.server.store.live sys.now = liveAt sys.now d →
    sys'.server.store.live sys'.now = liveAt sys'.now (effects d es)
  order : (propagatedOf es ++ unpropagated sys'.holder).Sublist
    (unpropagated sys.holder ++ executedOf es)
  links : LinkStep sys a es sys'

variable {sys sys' : System} {a : Action} {es : List Event}

/-- The keyspace after a look at it, at whatever later time. -/
theorem keyspace_of_looks (hlooks : Looks sys.now sys.server.store sys'.server.store)
    (hnow : sys.now ≤ sys'.now) (hno : ∀ t records, Event.executed t records ∉ es) (d : Entries)
    (hd : sys.server.store.live sys.now = liveAt sys.now d) :
    sys'.server.store.live sys'.now = liveAt sys'.now (effects d es) := by
  rw [effects_of_executedOf d hno]
  calc sys'.server.store.live sys'.now
      = liveAt sys'.now (sys'.server.store.live sys.now) := (liveAt_liveAt hnow _).symm
    _ = liveAt sys'.now (liveAt sys.now d) := by rw [hlooks.live, hd]
    _ = liveAt sys'.now d := liveAt_liveAt hnow d

/-- An action apart from the write lock. -/
theorem Aside.turn (h : Aside sys sys') (hsil : Silent es) (hlinks : LinkStep sys a es sys') :
    Turn sys a es sys' := by
  refine ⟨h.config, keyspace_of_looks h.store h.now hsil.executed, ?_, hlinks⟩
  rw [hsil.propagated, h.holder, List.nil_append]
  exact List.sublist_append_left _ _

/-- An action that leaves the links alone and only looks at the data. -/
theorem turn_idle (hcfg : sys'.server.config = sys.server.config)
    (hlooks : Looks sys.now sys.server.store sys'.server.store) (hnow : sys'.now = sys.now)
    (hno : ∀ t records, Event.executed t records ∉ es)
    (hmaster : sys'.server.master = sys.server.master) (hresyncs : sys'.resyncs = sys.resyncs)
    (hes : propagatedOf es = [])
    (horder : (unpropagated sys'.holder).Sublist (unpropagated sys.holder)) :
    Turn sys a es sys' := by
  refine ⟨hcfg, keyspace_of_looks hlooks hnow.ge hno, ?_, .idle hmaster hresyncs hes⟩
  rw [hes, List.nil_append]
  exact horder.trans (List.sublist_append_left _ _)

/-- SOURCE: server.py:409-498 -/
theorem CommandStep.turn {conn : ℕ} {argv : Command} (hname : upperName argv ≠ ascii "PSYNC")
    (h : CommandStep sys conn argv sys' es) : Turn sys a es sys' := by
  cases h with
  | answered srv reply hframe =>
    have hsil := silent_replied conn reply.toList
    exact turn_idle hframe.config hframe.store rfl hsil.executed (hframe.master hname) rfl
      hsil.propagated (List.Sublist.refl _)
  | accepted d evicted s reply hfree hw heff hlim =>
    obtain ⟨hent, -, -⟩ := accepted_spec hw heff hlim
    refine ⟨rfl, ?_, ?_, .idle rfl rfl rfl⟩
    · intro d₀ hd₀
      have hafter : effects d₀
          [.executed sys.now (argv :: evicted.map Server.evictionRecord)] = s.entries := by
        show takeEffect sys.now _ d₀ = _
        rw [takeEffect, ← hd₀, List.foldl_cons, heff, hent]
        exact foldl_evictions sys.now evicted d
      rw [hafter]
      rfl
    · rw [hfree]
      simp [propagatedOf, executedOf, unpropagated]

/-- **What an action of a master does for replication.**
SOURCE: server.py:409-643, replication/master.py:104-204, 258-276 -/
theorem turn_of_step (hrole : sys.server.config.isReplica = false)
    (h : sys.step a = some (sys', es)) : Turn sys a es sys' := by
  have haside : IsAside a → LinkStep sys a es sys' → Turn sys a es sys' := by
    intro ha hlinks
    obtain ⟨has, hsil⟩ := aside_of_step ha h
    exact has.turn hsil hlinks
  cases stepped_of_step h with
  | command conn argv env sys' es hc =>
    obtain ⟨hname, hstep⟩ := command_cases hrole hc
    exact hstep.turn hname
  | appendFailed conn argv rest reply fault text aof hhold hheard happend =>
    exact turn_idle rfl (Looks.refl _ _) rfl (by simp) rfl rfl rfl (List.nil_sublist _)
  | appended conn argv rest reply fault aof hhold hheard happend =>
    refine turn_idle rfl (Looks.refl _ _) rfl (by simp) rfl rfl rfl ?_
    rw [hhold]
    exact List.Sublist.refl _
  | propagatedLast conn argv reply fails hhold =>
    refine ⟨rfl, keyspace_of_looks (Looks.refl _ _) le_rfl (by simp), ?_,
      .propagated argv fails rfl (by rw [hhold]; rfl) rfl rfl rfl⟩
    rw [hhold]
    exact List.Sublist.refl _
  | propagated conn argv next rest reply fails hhold =>
    refine ⟨rfl, keyspace_of_looks (Looks.refl _ _) le_rfl (by simp), ?_,
      .propagated argv fails rfl (by rw [hhold]; rfl) rfl rfl rfl⟩
    rw [hhold]
    simp [propagatedOf, executedOf, unpropagated]
  | bgsaveSnapshot hfree hidle hasked =>
    exact turn_idle rfl (looks_purge _ _) rfl (by simp) rfl rfl rfl (List.Sublist.refl _)
  | bgsaveWritten time d payload hsave hdump =>
    exact turn_idle rfl (Looks.refl _ _) rfl (by simp) rfl rfl rfl (List.Sublist.refl _)
  | bgsaveUnencodable time d hsave hdump =>
    exact turn_idle rfl (Looks.refl _ _) rfl (by simp) rfl rfl rfl (List.Sublist.refl _)
  | bgsaveFailed d hsave =>
    exact turn_idle rfl (Looks.refl _ _) rfl (by simp) rfl rfl rfl (List.Sublist.refl _)
  | rewriteSnapshot hfree hasked =>
    exact turn_idle rfl (looks_purge _ _) rfl (by simp) rfl rfl rfl (List.nil_sublist _)
  | rewriteBuilt d commands hhold hbuild =>
    exact turn_idle rfl (Looks.refl _ _) rfl (by simp) rfl rfl rfl (List.nil_sublist _)
  | rewriteOverflowed d hhold hbuild =>
    exact turn_idle rfl (Looks.refl _ _) rfl (by simp) rfl rfl rfl (List.nil_sublist _)
  | rewriteReplaced commands hhold hopen =>
    exact turn_idle rfl (Looks.refl _ _) rfl (by simp) rfl rfl rfl (List.nil_sublist _)
  | rewriteReplacedLost commands hhold hopen hopened =>
    exact turn_idle rfl (Looks.refl _ _) rfl (by simp) rfl rfl rfl (List.nil_sublist _)
  | rewriteFailed hhold =>
    exact turn_idle rfl (Looks.refl _ _) rfl (by simp) rfl rfl rfl (List.nil_sublist _)
  | rewriteLost commands hhold hopen hopened =>
    exact turn_idle rfl (Looks.refl _ _) rfl (by simp) rfl rfl rfl (List.nil_sublist _)
  | elapse ms => exact haside trivial (.idle rfl rfl rfl)
  | connect conn => exact haside trivial (.idle rfl rfl rfl)
  | expireCycle sample => exact haside trivial (.idle rfl rfl rfl)
  | scheduleBgsave => exact haside trivial (.idle rfl rfl rfl)
  | disconnect conn =>
    exact haside trivial (.unregistered conn rfl (fun c hc => Dict.get?_erase_of_ne _ hc) rfl)
  | psync conn hrole hfree hnew => exact haside trivial (.registered conn hfree hnew rfl rfl rfl)
  | resyncSent conn d offset rdb hresync hdump =>
    exact haside trivial (.sent conn d offset rdb hresync hdump rfl rfl rfl)
  | resyncUnencodable conn d offset hresync hdump =>
    exact haside trivial (.unregistered conn rfl (fun c hc => Dict.get?_erase_of_ne _ hc) rfl)
  | resyncTaken conn hresync => exact haside trivial (.taken conn hresync rfl rfl rfl)
  | resyncWritten conn batch hbatch hresync =>
    exact haside trivial (.flushed conn batch hresync rfl rfl rfl)
  | resyncFailed conn hresync =>
    exact haside trivial (.unregistered conn rfl (fun c hc => Dict.get?_erase_of_ne _ hc) rfl)
  | drained conn => exact haside trivial (.drained conn rfl rfl rfl)
  | drainFailed conn link hlink => exact haside trivial (.failed conn link rfl rfl rfl rfl)
  | unregistered conn hmem =>
    exact haside trivial (.unregistered conn rfl (fun _ _ => rfl) rfl)

end ByoRedis.Analysis
