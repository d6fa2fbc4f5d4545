import ByoRedis.Analysis.RespParsing
import ByoRedis.Lib.Trace
import ByoRedis.Model.FrameTimer

/-!
# Frames that time out

`partial_since` is set when a chunk leaves bytes in an empty buffer and cleared when a chunk
leaves none. It is the time at which the frame in the buffer began as long as every chunk that
completes a frame begun earlier ends with the end of a frame (`stuck_of_timedOut`). A chunk
that completes one frame and begins the next keeps the old time, and a client that sends such
chunks only is disconnected although none of its frames is ever late
(`stuck_of_timedOut_pipelined`).
-/

set_option autoImplicit false

namespace ByoRedis.Analysis

open ByoRedis.Model ByoRedis.Lib ByoRedis.Lib.Framing

/-! ## Steps of the loop -/

variable {cfg : Config} {srv : Server} {env : Env} {ios : List RecordIO} {conn : ℕ} {now : ℚ}
  {c : TimedClient}

/-- Handling a message leaves the parser alone.
SOURCE: server.py:318-357 -/
theorem parser_handleMessage (srv : Server) (env : Env) (ios : List RecordIO) (conn : ℕ)
    (c : Client) (msg : RespValue) :
    (Client.handleMessage srv env ios conn c msg).2.parser = c.parser := by
  unfold Client.handleMessage
  cases normalizeArgv msg with
  | error e => rfl
  | ok argv =>
    cases argv with
    | nil => rfl
    | cons name args =>
      simp only
      split_ifs
      · unfold Client.psync
        split <;> rfl
      · rfl
      · rfl
      · rfl

/-- What a step of the loop does to its times and to the parser. -/
inductive TimerStep (srv : Server) (conn : ℕ) (now : ℚ) (c : TimedClient) :
    TimedInput → TimedClient → List TimerEvent → Prop where
  | await (hserving : c.client.phase = .serving) :
    TimerStep srv conn now c .top (c.await srv conn now).2.1 (c.await srv conn now).2.2
  | receive (chunk : Bytes) (hserving : c.client.phase = .serving) :
    TimerStep srv conn now c (.on (.recv chunk)) (c.receive srv conn now chunk).2.1
      [.received now chunk]
  | raise (deadline : ℚ) (hserving : c.client.phase = .serving)
    (hwait : c.waitUntil = some deadline) (hlate : deadline ≤ now)
    (hbuf : c.client.parser.buf ≠ []) :
    TimerStep srv conn now c (.on .timeout) (c.raise srv conn now).2.1 [.timedOut now]
  | untimed (i : Input) (x : Client) (hparser : x.parser = c.client.parser)
    (hphase : x.phase = .serving → c.client.phase = .serving) :
    TimerStep srv conn now c (.on i) { c with client := x, clock := now } []

/-- A step without the clock keeps the parser, and does not go back into the loop. -/
theorem untimed_step {client : Client} {i : Input} {x : Server × Client}
    (hi : ∀ chunk, i = .recv chunk → client.phase = .holding) (ht : i ≠ .timeout)
    (h : Client.step srv env ios conn client i = some x) :
    x.2.parser = client.parser ∧ (x.2.phase = .serving → client.phase = .serving) := by
  cases i with
  | recv chunk =>
    simp only [Client.step, hi chunk rfl, Option.some.injEq] at h
    split_ifs at h
    · rw [← h]
      exact ⟨rfl, nofun⟩
    · rw [← h]
      exact ⟨rfl, id⟩
  | next =>
    simp only [Client.step] at h
    split at h
    · rename_i hphase hpending
      cases h
      exact ⟨parser_handleMessage srv env ios conn _ _, fun _ => hphase⟩
    · cases h
  | timeout => exact absurd rfl ht
  | lost =>
    simp only [Client.step] at h
    split_ifs at h
    cases h
    exact ⟨rfl, nofun⟩

/-- **The steps of the loop.** Time does not go back, and a step is one of the four kinds.
SOURCE: server.py:282-391 -/
theorem timerStep_of_step {input : TimedInput} {r : Server × TimedClient × List TimerEvent}
    (h : c.step srv env ios conn now input = some r) :
    c.clock ≤ now ∧ TimerStep srv conn now c input r.2.1 r.2.2 := by
  unfold TimedClient.step at h
  by_cases hclock : now < c.clock
  · rw [if_pos hclock] at h
    cases h
  rw [if_neg hclock] at h
  refine ⟨le_of_not_gt hclock, ?_⟩
  have huntimed : ∀ {i : Input}, (∀ chunk, i = .recv chunk → c.client.phase = .holding) →
      i ≠ .timeout → (Client.step srv env ios conn c.client i).map (c.untimed now) = some r →
      TimerStep srv conn now c (.on i) r.2.1 r.2.2 := by
    intro i hi ht hmap
    obtain ⟨x, hx, rfl⟩ := Option.map_eq_some_iff.mp hmap
    obtain ⟨hparser, hphase⟩ := untimed_step hi ht hx
    exact .untimed i x.2 hparser hphase
  cases input with
  | top =>
    simp only at h
    split at h
    · cases h
      exact .await ‹_›
    · cases h
  | on i =>
    cases i with
    | recv chunk =>
      simp only at h
      split at h
      · cases h
        exact .receive chunk ‹_›
      · exact huntimed (fun _ _ => ‹_›) nofun h
      · cases h
    | timeout =>
      simp only at h
      split at h
      · rename_i deadline hphase hpending hwait
        split_ifs at h with hearly hempty
        · cases h
          exact .untimed .timeout _ rfl nofun
        · cases h
          refine .raise deadline hphase hwait (le_of_not_gt hearly) ?_
          intro hnil
          apply hempty
          rw [RespParser.bufferedSize, hnil]
          rfl
      · cases h
    | next => exact huntimed nofun nofun h
    | lost => exact huntimed nofun nofun h

/-- **The clock adds nothing but times.** A step of the timed loop starts a read, or is a step
of the loop without a clock.
SOURCE: server.py:282-391 -/
theorem client_step_of_step {input : TimedInput} {r : Server × TimedClient × List TimerEvent}
    (h : c.step srv env ios conn now input = some r) :
    input = .top ∧ r.1 = srv ∧ r.2.1.client = c.client ∧ r.2.2 = [] ∨
      ∃ i, Client.step srv env ios conn c.client i = some (r.1, r.2.1.client) := by
  have hraise : 0 < c.client.parser.bufferedSize → c.client.phase = .serving →
      c.client.pending = [] → Client.step srv env ios conn c.client .timeout =
        some ((c.raise srv conn now).1, (c.raise srv conn now).2.1.client) := by
    intro hbuf hphase hpending
    simp only [Client.step, hphase, hpending, Client.expire, if_neg hbuf.ne']
    rfl
  unfold TimedClient.step at h
  by_cases hclock : now < c.clock
  · rw [if_pos hclock] at h
    cases h
  rw [if_neg hclock] at h
  cases input with
  | top =>
    simp only at h
    split at h
    · rename_i hphase hpending _
      cases h
      unfold TimedClient.await
      cases htimeout : c.readTimeout srv.config now with
      | none =>
        refine Or.inr ⟨.timeout, hraise ?_ hphase hpending⟩
        unfold TimedClient.readTimeout at htimeout
        split at htimeout
        · split_ifs at htimeout with hbuf
          exact hbuf
        · cases htimeout
      | some timeout => exact Or.inl ⟨rfl, rfl, rfl, rfl⟩
    · cases h
  | on i =>
    right
    have huntimed : ∀ {i : Input},
        (Client.step srv env ios conn c.client i).map (c.untimed now) = some r →
        ∃ i, Client.step srv env ios conn c.client i = some (r.1, r.2.1.client) := by
      intro i hmap
      obtain ⟨x, hx, rfl⟩ := Option.map_eq_some_iff.mp hmap
      exact ⟨i, hx⟩
    cases i with
    | recv chunk =>
      simp only at h
      split at h
      · rename_i hphase hpending _
        cases h
        exact ⟨.recv chunk, by simp only [Client.step, hphase, hpending]; rfl⟩
      · exact huntimed h
      · cases h
    | timeout =>
      simp only at h
      split at h
      · rename_i hphase hpending _
        rcases Nat.eq_zero_or_pos c.client.parser.bufferedSize with hempty | hbuf
        · rw [if_pos hempty] at h
          split_ifs at h
          cases h
          refine ⟨.timeout, ?_⟩
          simp only [Client.step, hphase, hpending, Client.expire, if_pos hempty]
          rfl
        · rw [if_neg hbuf.ne'] at h
          split_ifs at h
          cases h
          exact ⟨.timeout, hraise hbuf hphase hpending⟩
      · cases h
    | next => exact huntimed h
    | lost => exact huntimed h

/-! ## Runs -/

/-- A step of the loop at some time, with the server as the other tasks have left it. -/
structure Moment where
  now : ℚ
  input : TimedInput
  srv : Server
  env : Env := {}
  ios : List RecordIO := []

/-- The loop of one connection. The configuration is not changed.
SOURCE: server.py:72-74, 282-391 -/
def loopStep (cfg : Config) (conn : ℕ) (c : TimedClient) (m : Moment) :
    Option (TimedClient × List TimerEvent) :=
  (c.step { m.srv with config := cfg } m.env m.ios conn m.now m.input).map Prod.snd

/-- A chunk that completes a frame whose beginning is in the buffer ends with a frame's end. -/
def endsWithFrame (p : RespParser) (chunk : Bytes) : Bool :=
  p.buf.isEmpty ||
    match p.feed chunk with
    | .error _ => true
    | .ok (messages, p') => messages.isEmpty || p'.buf.isEmpty

/-- Every chunk that the loop reads does so. -/
def keepsTime (c : TimedClient) (m : Moment) : Bool :=
  match c.client.phase, m.input with
  | .serving, .on (.recv chunk) => endsWithFrame c.client.parser chunk
  | _, _ => true

/-- The bytes received, each with its time. -/
def arrivals (evs : List TimerEvent) : List (ℚ × UInt8) :=
  evs.flatMap fun e =>
    match e with
    | .received now chunk => chunk.map (Prod.mk now)
    | .timedOut _ => []

/-- The stream of the bytes received. -/
def received (evs : List TimerEvent) : Bytes := (arrivals evs).map Prod.snd

/-- When the first byte of the last `rest` arrived. -/
def began (evs : List TimerEvent) (rest : Bytes) : Option ℚ :=
  ((arrivals evs)[(arrivals evs).length - rest.length]?).map Prod.fst

/-- After the frames of the stream that are complete there is one that is not, and its first
byte arrived `partial_timeout_sec` before `now`, or earlier. -/
def Stuck (cfg : Config) (now : ℚ) (evs : List TimerEvent) : Prop :=
  ∃ messages rest t, run (RespParser.top cfg.clientLimits) (received evs) = .ok (messages, rest) ∧
    began evs rest = some t ∧ t + cfg.partialTimeoutSec ≤ now

variable {evs : List TimerEvent}

/-- The arrivals of two parts of a run. -/
theorem arrivals_append (evs evs' : List TimerEvent) :
    arrivals (evs ++ evs') = arrivals evs ++ arrivals evs' :=
  List.flatMap_append

/-- A chunk arrives at one moment. -/
theorem arrivals_received (now : ℚ) (chunk : Bytes) :
    arrivals [.received now chunk] = chunk.map (Prod.mk now) := List.append_nil _

/-- A chunk is received behind what came before it. -/
theorem received_append (evs : List TimerEvent) (now : ℚ) (chunk : Bytes) :
    received (evs ++ [.received now chunk]) = received evs ++ chunk := by
  rw [received, arrivals_append, arrivals_received, List.map_append, List.map_map]
  exact congrArg _ (List.map_id chunk)

/-- An incomplete frame that goes on began when it began. -/
theorem began_append {rest : Bytes} (hne : rest ≠ []) (hlen : rest.length ≤ (arrivals evs).length)
    (now : ℚ) (chunk : Bytes) :
    began (evs ++ [.received now chunk]) (rest ++ chunk) = began evs rest := by
  have hpos := List.length_pos_iff.mpr hne
  rw [began, began, arrivals_append, arrivals_received, List.length_append, List.length_append,
    List.length_map, List.getElem?_append_left (by omega)]
  congr 2
  omega

/-- A frame that begins with the chunk begins now. -/
theorem began_of_le {rest chunk : Bytes} (hne : rest ≠ []) (hlen : rest.length ≤ chunk.length)
    (evs : List TimerEvent) (now : ℚ) :
    began (evs ++ [.received now chunk]) rest = some now := by
  have hpos := List.length_pos_iff.mpr hne
  rw [began, arrivals_append, arrivals_received, List.length_append, List.length_map,
    List.getElem?_append_right (by omega), List.getElem?_map, Option.map_map]
  have hlt : (arrivals evs).length + chunk.length - rest.length - (arrivals evs).length <
      chunk.length := by omega
  rw [List.getElem?_eq_getElem hlt]
  rfl

/-- A timeout does not free a connection that is stuck. -/
theorem stuck_append_timedOut {T : ℚ} (h : Stuck cfg T evs) (now : ℚ) :
    Stuck cfg T (evs ++ [.timedOut now]) := by
  have hsame : arrivals (evs ++ [.timedOut now]) = arrivals evs := by
    rw [arrivals_append]
    exact List.append_nil _
  unfold Stuck received began at h ⊢
  rw [hsame]
  exact h

/-! ## The timeout of a read -/

/-- The error is raised at the top of the loop when the time of the timer is over.
SOURCE: server.py:284-289 -/
theorem readTimeout_eq_none (h : c.readTimeout cfg now = none) :
    ∃ t, c.partialSince = some t ∧ t + cfg.partialTimeoutSec ≤ now := by
  unfold TimedClient.readTimeout at h
  split at h
  · rename_i since hsince
    split_ifs at h with hbuf
    simp only at h
    split_ifs at h with hover
    exact ⟨since, hsince, by linarith⟩
  · cases h

/-- Otherwise the read ends when the time of the timer is over.
SOURCE: server.py:283-290 -/
theorem readTimeout_eq_some {timeout t : ℚ}
    (hidle : cfg.partialTimeoutSec < cfg.clientIdleTimeoutSec)
    (h : c.readTimeout cfg now = some timeout) (hsince : c.partialSince = some t)
    (hbuf : c.client.parser.buf ≠ []) (ht : t ≤ now) :
    now + timeout = t + cfg.partialTimeoutSec := by
  have hpos : 0 < c.client.parser.bufferedSize := List.length_pos_iff.mpr hbuf
  unfold TimedClient.readTimeout at h
  simp only [hsince, if_pos hpos] at h
  split_ifs at h with hover
  cases h
  rw [min_eq_right (by linarith)]
  ring

/-! ## The invariant -/

/-- While the loop reads: the buffer is what the frames of the stream leave, and the timer
runs from the time at which the frame in it began. -/
structure Ticking (cfg : Config) (evs : List TimerEvent) (c : TimedClient) : Prop where
  limits : c.client.parser.limits = cfg.clientLimits
  read : ∃ messages,
    run (RespParser.top cfg.clientLimits) (received evs) = .ok (messages, c.client.parser.buf)
  since : c.client.parser.buf = [] ∧ c.partialSince = none ∨
    c.client.parser.buf ≠ [] ∧ ∃ t ≤ c.clock, c.partialSince = some t ∧
      began evs c.client.parser.buf = some t
  wait : ∀ d t, c.waitUntil = some d → c.partialSince = some t → t + cfg.partialTimeoutSec ≤ d

/-- The loop is in time as long as it reads, and has stopped when a frame has timed out. -/
structure Timely (cfg : Config) (evs : List TimerEvent) (c : TimedClient) : Prop where
  serving : c.client.phase = .serving → Ticking cfg evs c
  fired : ∀ T, .timedOut T ∈ evs → c.client.phase ≠ .serving ∧ Stuck cfg T evs

/-- A connection that was just made is on time. -/
theorem timely_connect (cfg : Config) (now : ℚ) : Timely cfg [] (TimedClient.connect cfg now) where
  serving := fun _ =>
    { limits := rfl
      read := ⟨[], run_of_more (top_nil cfg.clientLimits)⟩
      since := Or.inl ⟨rfl, rfl⟩
      wait := nofun }
  fired := nofun

/-- A frame whose time is over is stuck. -/
theorem Ticking.stuck {t : ℚ} (h : Ticking cfg evs c) (hsince : c.partialSince = some t)
    (hover : t + cfg.partialTimeoutSec ≤ now) : Stuck cfg now evs := by
  obtain ⟨messages, hread⟩ := h.read
  rcases h.since with ⟨-, hnone⟩ | ⟨-, t', -, hsome, hbegan⟩
  · rw [hnone] at hsince
    cases hsince
  · rw [hsome] at hsince
    cases hsince
    exact ⟨messages, _, t, hread, hbegan, hover⟩

/-- Raising the error on a stuck frame. -/
theorem Timely.raise (h : Timely cfg evs c) (hserving : c.client.phase = .serving)
    (hstuck : Stuck cfg now evs) (srv : Server) (conn : ℕ) :
    Timely cfg (evs ++ [.timedOut now]) (c.raise srv conn now).2.1 where
  serving := nofun
  fired := by
    intro T hT
    refine ⟨nofun, ?_⟩
    rcases List.mem_append.mp hT with hT | hT
    · exact absurd hserving (h.fired T hT).1
    · cases List.mem_singleton.mp hT
      exact stuck_append_timedOut hstuck now

/-- The top of the loop.
SOURCE: server.py:282-292 -/
theorem Timely.await (hidle : cfg.partialTimeoutSec < cfg.clientIdleTimeoutSec)
    (h : Timely cfg evs c) (hserving : c.client.phase = .serving) (hclock : c.clock ≤ now)
    (hcfg : srv.config = cfg) :
    Timely cfg (evs ++ (c.await srv conn now).2.2) (c.await srv conn now).2.1 := by
  have hticking := h.serving hserving
  rw [TimedClient.await, hcfg]
  cases htimeout : c.readTimeout cfg now with
  | none =>
    obtain ⟨t, hsince, hover⟩ := readTimeout_eq_none htimeout
    exact h.raise hserving (hticking.stuck hsince hover) srv conn
  | some timeout =>
    simp only [List.append_nil]
    refine ⟨fun _ => ⟨hticking.limits, hticking.read, ?_, ?_⟩, h.fired⟩
    · rcases hticking.since with hnone | ⟨hbuf, t, ht, hsome⟩
      · exact Or.inl hnone
      · exact Or.inr ⟨hbuf, t, ht.trans hclock, hsome⟩
    · intro d t hd hsince
      cases hd
      rcases hticking.since with ⟨-, hnone⟩ | ⟨hbuf, t', ht, hsome, -⟩
      · rw [hnone] at hsince
        cases hsince
      · rw [hsome] at hsince
        cases hsince
        exact (readTimeout_eq_some hidle htimeout hsome hbuf (ht.trans hclock)).ge

/-- What `feed` leaves in the buffer.
SOURCE: protocol/parser.py:33-49 -/
theorem feed_eq_ok {p p' : RespParser} {chunk : Bytes} {messages : List RespValue}
    (h : p.feed chunk = .ok (messages, p')) :
    run (RespParser.top p.limits) (p.buf ++ chunk) = .ok (messages, p'.buf) ∧
      p'.limits = p.limits := by
  unfold RespParser.feed at h
  split_ifs at h
  rcases hr : run (RespParser.top p.limits) (p.buf ++ chunk) with e | ⟨ms, rest⟩
  · rw [hr] at h
    cases h
  · rw [hr] at h
    cases h
    exact ⟨rfl, rfl⟩

/-- The loop goes on after a chunk that `feed` has accepted.
SOURCE: server.py:304-317 -/
theorem receive_serving {chunk : Bytes}
    (hafter : (c.receive srv conn now chunk).2.1.client.phase = .serving) :
    ∃ messages p, c.client.parser.feed chunk = .ok (messages, p) ∧
      (c.receive srv conn now chunk).2.1 =
        { client := { c.client with parser := p, pending := messages }
          partialSince := TimedClient.sinceAfter now c.partialSince p
          waitUntil := none
          clock := now } := by
  unfold TimedClient.receive Client.receive at hafter ⊢
  by_cases hchunk : chunk.isEmpty = true
  · simp [hchunk, Client.close] at hafter
  · cases hfeed : c.client.parser.feed chunk with
    | error e => simp [hchunk, hfeed, Client.close] at hafter
    | ok r =>
      simp only [hchunk, hfeed, Bool.false_eq_true, if_false] at hafter ⊢
      exact ⟨r.1, r.2, rfl, by simp [hafter]⟩

/-- The timer after a chunk: it goes on for the frame that goes on, and starts for a frame
that begins in an empty buffer.
SOURCE: server.py:304-317 -/
theorem Ticking.receive (h : Ticking cfg evs c) (hclock : c.clock ≤ now) {chunk : Bytes}
    (hends : endsWithFrame c.client.parser chunk = true) {messages : List RespValue}
    {p : RespParser} (hfeed : c.client.parser.feed chunk = .ok (messages, p)) :
    Ticking cfg (evs ++ [.received now chunk])
      { client := { c.client with parser := p, pending := messages }
        partialSince := TimedClient.sinceAfter now c.partialSince p
        waitUntil := none
        clock := now } := by
  obtain ⟨hrun, hlimits⟩ := feed_eq_ok hfeed
  rw [h.limits] at hrun
  obtain ⟨before, hread⟩ := h.read
  have hlaw := top_lawful cfg.clientLimits
  refine ⟨hlimits.trans h.limits, ⟨before ++ messages, ?_⟩, ?_, nofun⟩
  · rw [received_append, run_append_of_ok hlaw hread, hrun]
    rfl
  by_cases hempty : p.buf = []
  · have hzero : ¬ 0 < p.bufferedSize := by simp [RespParser.bufferedSize, hempty]
    exact Or.inl ⟨hempty, if_neg hzero⟩
  · have hpos : 0 < p.bufferedSize := List.length_pos_iff.mpr hempty
    have hafter : TimedClient.sinceAfter now c.partialSince p =
        some (c.partialSince.getD now) := by
      rw [TimedClient.sinceAfter.eq_def, if_pos hpos]
      cases c.partialSince <;> rfl
    refine Or.inr ⟨hempty, ?_⟩
    simp only [hafter]
    rcases h.since with ⟨hbuf, hnone⟩ | ⟨hbuf, t, ht, hsome, hbegan⟩
    · -- The buffer was empty, so what is in it came with this chunk.
      have hlen := length_residue hlaw hrun
      rw [hbuf, List.nil_append] at hlen
      rw [hnone]
      exact ⟨now, le_refl now, rfl, began_of_le hempty hlen evs now⟩
    · -- The frame in the buffer goes on: the chunk completes no frame.
      have hnothing : messages = [] := by
        rw [endsWithFrame, hfeed] at hends
        simpa [hbuf, hempty] using hends
      rw [hnothing] at hrun
      have hrest := run_eq_nil hlaw hrun
      have hlen := length_residue hlaw hread
      rw [received, List.length_map] at hlen
      rw [hsome]
      refine ⟨t, ht.trans hclock, rfl, ?_⟩
      rw [hrest, began_append hbuf hlen]
      exact hbegan

/-- A chunk that ends with a frame keeps the connection on time. -/
theorem Timely.receive (h : Timely cfg evs c) (hserving : c.client.phase = .serving)
    (hclock : c.clock ≤ now) {chunk : Bytes}
    (hends : endsWithFrame c.client.parser chunk = true) (srv : Server) (conn : ℕ) :
    Timely cfg (evs ++ [.received now chunk]) (c.receive srv conn now chunk).2.1 where
  serving := by
    intro hafter
    obtain ⟨messages, p, hfeed, hafter⟩ := receive_serving hafter
    rw [hafter]
    exact (h.serving hserving).receive hclock hends hfeed
  fired := by
    intro T hT
    rcases List.mem_append.mp hT with hT | hT
    · exact absurd hserving (h.fired T hT).1
    · cases List.mem_singleton.mp hT

/-- **What a step preserves.** -/
theorem Timely.step {c' : TimedClient} {es : List TimerEvent} {m : Moment}
    (hidle : cfg.partialTimeoutSec < cfg.clientIdleTimeoutSec) (h : Timely cfg evs c)
    (hkeeps : keepsTime c m = true) (hstep : loopStep cfg conn c m = some (c', es)) :
    Timely cfg (evs ++ es) c' := by
  obtain ⟨⟨srv', r⟩, hr, heq⟩ := Option.map_eq_some_iff.mp hstep
  obtain rfl : r = (c', es) := heq
  obtain ⟨hclock, hkind⟩ := timerStep_of_step hr
  generalize hinput : m.input = input at hkind
  cases hkind with
  | await hserving => exact h.await hidle hserving hclock rfl
  | receive chunk hserving =>
    have hends : endsWithFrame c.client.parser chunk = true := by
      rw [keepsTime, hserving, hinput] at hkeeps
      exact hkeeps
    exact h.receive hserving hclock hends _ conn
  | raise deadline hserving hwait hlate hbuf =>
    have hticking := h.serving hserving
    rcases hticking.since with ⟨hnil, -⟩ | ⟨-, t, -, hsome, -⟩
    · exact absurd hnil hbuf
    · have hover := (hticking.wait deadline t hwait hsome).trans hlate
      exact h.raise hserving (hticking.stuck hsome hover) _ conn
  | untimed i x hparser hphase =>
    rw [List.append_nil]
    refine ⟨fun hserving => ?_, fun T hT => ⟨fun hserving => ?_, (h.fired T hT).2⟩⟩
    · have hticking := h.serving (hphase hserving)
      refine ⟨hparser ▸ hticking.limits, hparser ▸ hticking.read, ?_, hticking.wait⟩
      simp only [hparser]
      rcases hticking.since with hnone | ⟨hbuf, t, ht, hsome⟩
      · exact Or.inl hnone
      · exact Or.inr ⟨hbuf, t, ht.trans hclock, hsome⟩
    · exact (h.fired T hT).1 (hphase hserving)

/-! ## The timeout -/

/-- **Only a stuck frame times out.** In every run whose chunks never complete a frame begun in
an earlier chunk and begin the next one, the error is raised only when a frame of the stream
is still incomplete `partial_timeout_sec` after its first byte arrived. So a client that
completes its frames in time is not disconnected by it.
SOURCE: server.py:280-316 -/
theorem stuck_of_timedOut (hidle : cfg.partialTimeoutSec < cfg.clientIdleTimeoutSec) {t₀ T : ℚ}
    (hrun : Runs (loopStep cfg conn) (fun c m => keepsTime c m = true)
      (TimedClient.connect cfg t₀) evs c)
    (hout : .timedOut T ∈ evs) : Stuck cfg T evs := by
  have hinv : Timely cfg evs c :=
    hrun.invariant (timely_connect cfg t₀) fun h hok hstep => h.step hidle hok hstep
  exact (hinv.fired T hout).2

/-- A moment of a connection to a server with the default configuration. -/
def momentAt (now : ℚ) (input : TimedInput) : Moment :=
  { now := now, input := input, srv := Server.init {} default none none }

/-- The loop reads a chunk, handles the message that it completes, and starts again. -/
def turnAt (now : ℚ) (chunk : Bytes) : List Moment :=
  [momentAt now (.on (.recv chunk)), momentAt now (.on .next), momentAt now .top]

/-- One byte of a frame and nothing more. -/
def silentClient : List Moment :=
  [momentAt 0 .top, momentAt 1 (.on (.recv (ascii "*"))), momentAt 1 .top,
    momentAt 31 (.on .timeout)]

/-- The connection times out 30 seconds after the byte came. -/
theorem stuck_of_timedOut_silent :
    ∃ evs c, Runs (loopStep {} 7) (fun c m => keepsTime c m = true) (TimedClient.connect {} 0)
      evs c ∧ .timedOut 31 ∈ evs ∧ Stuck {} 31 evs := by
  have hran : (runAll (loopStep {} 7) (fun c m => keepsTime c m = true) silentClient
      (TimedClient.connect {} 0)).map (fun q => (q.1, q.2.client.phase)) =
      some ([.received 1 (ascii "*"), .timedOut 31], .closed) := by
    decide +kernel
  obtain ⟨c, hrun, -⟩ := exists_runs (fun c : TimedClient => c.client.phase) hran
  have hout : TimerEvent.timedOut 31 ∈ [TimerEvent.received 1 (ascii "*"), .timedOut 31] :=
    List.mem_cons_of_mem _ (List.mem_singleton_self _)
  have hidle : ({} : Config).partialTimeoutSec < ({} : Config).clientIdleTimeoutSec := by
    decide +kernel
  exact ⟨_, c, hrun, hout, stuck_of_timedOut hidle hrun hout⟩

/-- The rest of a PING and the first byte of the next one. -/
def restOfPing : Bytes := ascii "1\r\n$4\r\nPING\r\n*"

/-- A client that completes a PING every 15 seconds or less. -/
def pipeliningClient : List Moment :=
  momentAt 0 .top :: turnAt 0 (ascii "*" ++ restOfPing) ++ turnAt 15 restOfPing ++
    turnAt 29 restOfPing ++ [momentAt 30 (.on .timeout)]

/-- The frame that times out at 30 is one second old. -/
theorem stuck_of_timedOut_pipelined :
    ∃ evs c, Runs (loopStep {} 7) (fun _ _ => True) (TimedClient.connect {} 0) evs c ∧
      c.client.phase = .closed ∧ .timedOut 30 ∈ evs ∧ ¬ Stuck {} 30 evs := by
  have hran : (runAll (loopStep {} 7) (fun _ _ => True) pipeliningClient
      (TimedClient.connect {} 0)).map (fun q => (q.1, q.2.client.phase)) =
      some ([.received 0 (ascii "*" ++ restOfPing), .received 15 restOfPing,
        .received 29 restOfPing, .timedOut 30], .closed) := by
    decide +kernel
  obtain ⟨c, hrun, hclosed⟩ := exists_runs (fun c : TimedClient => c.client.phase) hran
  refine ⟨_, c, hrun, hclosed, by decide +kernel, ?_⟩
  rintro ⟨messages, rest, t, hread, hbegan, hover⟩
  have hrest : (run (RespParser.top ({} : Config).clientLimits) (received
      [.received 0 (ascii "*" ++ restOfPing), .received 15 restOfPing, .received 29 restOfPing,
        .timedOut 30])).toOption.map Prod.snd = some (ascii "*") := by
    decide +kernel
  rw [hread] at hrest
  obtain rfl : rest = ascii "*" := Option.some.inj hrest
  have ht : began [.received 0 (ascii "*" ++ restOfPing), .received 15 restOfPing,
      .received 29 restOfPing, .timedOut 30] (ascii "*") = some 29 := by
    decide +kernel
  rw [ht] at hbegan
  cases hbegan
  exact absurd hover (by decide +kernel)

end ByoRedis.Analysis
