import Mathlib.Data.List.Basic
import Mathlib.Data.List.TakeDrop

/-!
# Incremental decoders and segmented streams

A decoder looks at a buffer and answers that it needs `more` symbols, that the buffer
can never start a frame (`fail`), or that a frame of `n` symbols carrying `a` stands at
its front (`done a n`). `drain` takes frames off the front of a buffer until the decoder
wants more, and `feeds` does so for a stream that arrives in chunks.

`Lawful` says that an answer is never revised when more symbols arrive. From that alone:
`run_append_of_ok` and `feeds_eq_run` (the chunks of a stream do not matter to what is
read from it) and `step_of_prefix` (a proper prefix of a frame is incomplete).
`Frames` ties a decoder to an encoder; `run_take_flatMap` says what is read from a
stream of encoded frames that was cut anywhere.
-/

set_option autoImplicit false

namespace ByoRedis.Lib.Framing

/-- What a decoder says about the front of a buffer. -/
inductive Outcome (ε α : Type) where
  | more
  | fail (e : ε)
  | done (a : α) (n : ℕ)
  deriving DecidableEq

variable {β ε α : Type}

/-- Answers point inside the buffer and survive the arrival of more symbols. -/
structure Lawful (step : List β → Outcome ε α) : Prop where
  done_pos : ∀ {buf : List β} {a : α} {n : ℕ}, step buf = .done a n → 0 < n
  done_le : ∀ {buf : List β} {a : α} {n : ℕ}, step buf = .done a n → n ≤ buf.length
  done_append : ∀ {buf : List β} {a : α} {n : ℕ} (ext : List β),
    step buf = .done a n → step (buf ++ ext) = .done a n
  fail_append : ∀ {buf : List β} {e : ε} (ext : List β),
    step buf = .fail e → step (buf ++ ext) = .fail e

/-- Prepending a message to what a loop returned. -/
def push (a : α) : Except ε (List α × List β) → Except ε (List α × List β)
  | .ok (as, rest) => .ok (a :: as, rest)
  | .error e => .error e

/-- Prepending several messages to what a loop returned. -/
def pushMany (as : List α) : Except ε (List α × List β) → Except ε (List α × List β)
  | .ok (bs, rest) => .ok (as ++ bs, rest)
  | .error e => .error e

/-- No messages in front of a result. -/
@[simp] theorem pushMany_nil (r : Except ε (List α × List β)) : pushMany [] r = r := by
  rcases r with e | ⟨as, rest⟩ <;> rfl

/-- The first of several messages in front of a result. -/
@[simp] theorem pushMany_cons (a : α) (as : List α) (r : Except ε (List α × List β)) :
    pushMany (a :: as) r = push a (pushMany as r) := by
  rcases r with e | ⟨bs, rest⟩ <;> rfl

/-- Taking frames off the front of the buffer until the decoder wants more. The fuel
bounds the number of frames. -/
def drain (step : List β → Outcome ε α) : ℕ → List β → Except ε (List α × List β)
  | 0, buf => .ok ([], buf)
  | fuel + 1, buf =>
    match step buf with
    | .more => .ok ([], buf)
    | .fail e => .error e
    | .done a n => push a (drain step fuel (buf.drop n))

/-- Draining with fuel for one frame per symbol, which is always enough. -/
def run (step : List β → Outcome ε α) (buf : List β) : Except ε (List α × List β) :=
  drain step (buf.length + 1) buf

/-- Draining after each chunk of a stream, from the symbols left over so far. -/
def feeds (step : List β → Outcome ε α) (buf : List β) :
    List (List β) → Except ε (List α × List β)
  | [] => .ok ([], buf)
  | c :: cs =>
    match run step (buf ++ c) with
    | .error e => .error e
    | .ok (as, rest) => pushMany as (feeds step rest cs)

variable {step : List β → Outcome ε α}

/-! ## The drain loop -/

/-- Any fuel above the buffer's length gives the same result. -/
theorem drain_eq_of_lt (hs : Lawful step) {f g : ℕ} {buf : List β}
    (hf : buf.length < f) (hg : buf.length < g) : drain step f buf = drain step g buf := by
  induction f generalizing g buf with
  | zero => omega
  | succ f ih =>
    obtain ⟨g, rfl⟩ : ∃ g', g = g' + 1 := ⟨g - 1, by omega⟩
    simp only [drain]
    cases h : step buf with
    | more => rfl
    | fail e => rfl
    | done a n =>
      have hpos := hs.done_pos h
      have hle := hs.done_le h
      have hlen : (buf.drop n).length = buf.length - n := List.length_drop
      simp only
      rw [ih (g := g) (by omega) (by omega)]

/-- A buffer with no whole frame is left as it is. -/
theorem run_of_more {buf : List β} (h : step buf = .more) : run step buf = .ok ([], buf) := by
  simp [run, drain, h]

/-- A malformed frame ends the run. -/
theorem run_of_fail {buf : List β} {e : ε} (h : step buf = .fail e) :
    run step buf = .error e := by
  simp [run, drain, h]

/-- A whole frame is the first message, and the run goes on behind it. -/
theorem run_of_done (hs : Lawful step) {buf : List β} {a : α} {n : ℕ}
    (h : step buf = .done a n) : run step buf = push a (run step (buf.drop n)) := by
  have hpos := hs.done_pos h
  have hle := hs.done_le h
  have hlen : (buf.drop n).length = buf.length - n := List.length_drop
  conv_lhs => rw [run, drain, h]
  simp only
  rw [run, drain_eq_of_lt hs (f := buf.length) (g := (buf.drop n).length + 1)
    (by omega) (by omega)]

/-- The result of a run, whichever way the decoder answers: an induction over the
frames at the front of the buffer. -/
theorem run_induction (hs : Lawful step) {P : List β → Prop}
    (more : ∀ buf, step buf = .more → P buf)
    (fail : ∀ buf e, step buf = .fail e → P buf)
    (done : ∀ buf a n, step buf = .done a n → P (buf.drop n) → P buf) :
    ∀ buf, P buf := by
  intro buf
  induction hn : buf.length using Nat.strongRecOn generalizing buf with
  | _ m ih =>
    cases h : step buf with
    | more => exact more buf h
    | fail e => exact fail buf e h
    | done a n =>
      refine done buf a n h (ih (buf.drop n).length ?_ _ rfl)
      have hpos := hs.done_pos h
      have hle := hs.done_le h
      rw [List.length_drop]
      omega

/-- The residue of a successful run is a buffer the decoder wants more of. -/
theorem step_residue (hs : Lawful step) {buf rest : List β} {as : List α}
    (h : run step buf = .ok (as, rest)) : step rest = .more := by
  revert as rest
  induction buf using run_induction hs with
  | more buf hm =>
    intro rest as h
    rw [run_of_more hm] at h
    cases h
    exact hm
  | fail buf e hf =>
    intro rest as h
    rw [run_of_fail hf] at h
    cases h
  | done buf a n hd ih =>
    intro rest as h
    rw [run_of_done hs hd] at h
    rcases hr : run step (buf.drop n) with e | ⟨bs, r⟩
    · rw [hr] at h; cases h
    · rw [hr] at h
      cases h
      exact ih hr

/-- What is left over is the end of the buffer. -/
theorem residue_suffix (hs : Lawful step) {buf rest : List β} {as : List α}
    (h : run step buf = .ok (as, rest)) : rest <:+ buf := by
  induction buf using run_induction hs generalizing as with
  | more buf hm =>
    rw [run_of_more hm] at h
    cases h
    exact List.suffix_refl _
  | fail buf e hf =>
    rw [run_of_fail hf] at h
    cases h
  | done buf a n hd ih =>
    rw [run_of_done hs hd] at h
    cases hr : run step (buf.drop n) with
    | error e =>
      rw [hr] at h
      cases h
    | ok r =>
      obtain ⟨bs, rest'⟩ := r
      rw [hr] at h
      cases h
      exact (ih hr).trans (List.drop_suffix n buf)

/-- The residue of a run is no longer than its buffer. -/
theorem length_residue (hs : Lawful step) {buf rest : List β} {as : List α}
    (h : run step buf = .ok (as, rest)) : rest.length ≤ buf.length := by
  revert as rest
  induction buf using run_induction hs with
  | more buf hm =>
    intro rest as h
    rw [run_of_more hm] at h
    cases h
    exact Nat.le_refl _
  | fail buf e hf =>
    intro rest as h
    rw [run_of_fail hf] at h
    cases h
  | done buf a n hd ih =>
    intro rest as h
    rw [run_of_done hs hd] at h
    rcases hr : run step (buf.drop n) with e | ⟨bs, r⟩
    · rw [hr] at h; cases h
    · rw [hr] at h
      cases h
      have hle := ih hr
      rw [List.length_drop] at hle
      omega

/-- A run that yields nothing leaves its buffer as it is. -/
theorem run_eq_nil (hs : Lawful step) {buf rest : List β} (h : run step buf = .ok ([], rest)) :
    rest = buf := by
  cases hstep : step buf with
  | more =>
    rw [run_of_more hstep] at h
    cases h
    rfl
  | fail e =>
    rw [run_of_fail hstep] at h
    cases h
  | done a n =>
    rw [run_of_done hs hstep] at h
    rcases hr : run step (buf.drop n) with e | ⟨as, r⟩
    · rw [hr] at h; cases h
    · rw [hr] at h; cases h

/-- Symbols that arrive after a successful run are read after its residue. -/
theorem run_append_of_ok (hs : Lawful step) {buf rest : List β} {as : List α}
    (h : run step buf = .ok (as, rest)) (ext : List β) :
    run step (buf ++ ext) = pushMany as (run step (rest ++ ext)) := by
  revert as rest
  induction buf using run_induction hs with
  | more buf hm =>
    intro rest as h
    rw [run_of_more hm] at h
    cases h
    simp
  | fail buf e hf =>
    intro rest as h
    rw [run_of_fail hf] at h
    cases h
  | done buf a n hd ih =>
    intro rest as h
    rw [run_of_done hs hd] at h
    rcases hr : run step (buf.drop n) with e | ⟨bs, r⟩
    · rw [hr] at h; cases h
    · rw [hr] at h
      cases h
      rw [run_of_done hs (hs.done_append ext hd),
        List.drop_append_of_le_length (hs.done_le hd), ih hr]
      simp

/-- A run that fails fails on every extension. -/
theorem run_append_of_error (hs : Lawful step) {buf : List β} {e : ε}
    (h : run step buf = .error e) (ext : List β) : run step (buf ++ ext) = .error e := by
  induction buf using run_induction hs with
  | more buf hm => rw [run_of_more hm] at h; cases h
  | fail buf e' hf =>
    rw [run_of_fail hf] at h
    cases h
    exact run_of_fail (hs.fail_append ext hf)
  | done buf a n hd ih =>
    rw [run_of_done hs hd] at h
    rcases hr : run step (buf.drop n) with e' | ⟨bs, r⟩
    · rw [hr] at h
      cases h
      rw [run_of_done hs (hs.done_append ext hd),
        List.drop_append_of_le_length (hs.done_le hd), ih hr]
      rfl
    · rw [hr] at h; cases h

/-- **Segmentation does not matter.** When the whole stream can be read without
failure, reading it chunk by chunk gives the same messages and the same residue. -/
theorem feeds_eq_run (hs : Lawful step) (cs : List (List β)) {buf rest : List β}
    {as : List α} (hbuf : step buf = .more)
    (h : run step (buf ++ cs.flatten) = .ok (as, rest)) :
    feeds step buf cs = .ok (as, rest) := by
  induction cs generalizing buf rest as with
  | nil =>
    simp only [List.flatten_nil, List.append_nil] at h
    rw [run_of_more hbuf] at h
    exact h
  | cons c cs ih =>
    rw [List.flatten_cons, ← List.append_assoc] at h
    rcases hc : run step (buf ++ c) with e | ⟨bs, r⟩
    · rw [run_append_of_error hs hc] at h
      cases h
    · rw [run_append_of_ok hs hc] at h
      rcases hr : run step (r ++ cs.flatten) with e | ⟨ds, r'⟩
      · rw [hr] at h; cases h
      · rw [hr] at h
        simp only [feeds, hc]
        rw [ih (step_residue hs hc) hr]
        exact h

/-! ## Encoded frames -/

variable {γ : Type}

/-- `step` reads one encoded frame back as `msg` of what was encoded, whatever follows. -/
def Frames (step : List β → Outcome ε α) (enc : γ → List β) (msg : γ → α)
    (ok : γ → Prop) : Prop :=
  ∀ c, ok c → ∀ ext, step (enc c ++ ext) = .done (msg c) (enc c).length

variable {enc : γ → List β} {msg : γ → α} {ok : γ → Prop}

/-- A proper prefix of a frame is incomplete. -/
theorem step_of_prefix (hs : Lawful step) {p q : List β} {a : α}
    (hq : q ≠ []) (h : step (p ++ q) = .done a (p ++ q).length) : step p = .more := by
  have hqpos : 0 < q.length := List.length_pos_iff.mpr hq
  cases hp : step p with
  | more => rfl
  | fail e =>
    rw [hs.fail_append q hp] at h
    cases h
  | done b n =>
    rw [hs.done_append q hp] at h
    have hn := (Outcome.done.inj h).2
    have hle := hs.done_le hp
    rw [List.length_append] at hn
    omega

/-- A stream of encoded frames followed by `t` is read as the frames, then `t`. -/
theorem run_flatMap_append (hs : Lawful step) (hf : Frames step enc msg ok) (as : List γ)
    (has : ∀ a ∈ as, ok a) (t : List β) :
    run step (as.flatMap enc ++ t) = pushMany (as.map msg) (run step t) := by
  induction as with
  | nil => simp
  | cons a as ih =>
    have hd := hf a (has a (by simp)) (as.flatMap enc ++ t)
    rw [List.flatMap_cons, List.append_assoc, run_of_done hs hd, List.drop_left,
      ih (fun b hb => has b (List.mem_cons_of_mem _ hb)), List.map_cons, pushMany_cons]

/-- The frames that lie wholly within the first `n` symbols of an encoded stream. -/
def whole (enc : γ → List β) : List γ → ℕ → List γ
  | [], _ => []
  | a :: as, n => if (enc a).length ≤ n then a :: whole enc as (n - (enc a).length) else []

/-- The start of the frame the cut falls into: empty when it falls between frames. -/
def torn (enc : γ → List β) : List γ → ℕ → List β
  | [], _ => []
  | a :: as, n =>
    if (enc a).length ≤ n then torn enc as (n - (enc a).length) else (enc a).take n

/-- A cut stream is its whole frames followed by the start of the next one. -/
theorem take_flatMap (enc : γ → List β) (as : List γ) (n : ℕ) :
    (as.flatMap enc).take n = (whole enc as n).flatMap enc ++ torn enc as n := by
  induction as generalizing n with
  | nil => simp [whole, torn]
  | cons a as ih =>
    rw [List.flatMap_cons, whole, torn]
    by_cases h : (enc a).length ≤ n
    · rw [if_pos h, if_pos h, List.flatMap_cons, List.append_assoc, ← ih,
        List.take_append, List.take_of_length_le h]
    · rw [if_neg h, if_neg h, List.take_append_of_le_length (by omega)]
      simp

/-- The frames that are whole are frames that were sent. -/
theorem mem_whole {as : List γ} {n : ℕ} {a : γ} (h : a ∈ whole enc as n) : a ∈ as := by
  induction as generalizing n with
  | nil => simp [whole] at h
  | cons b as ih =>
    rw [whole] at h
    split at h
    · rcases List.mem_cons.mp h with rfl | h
      · simp
      · exact List.mem_cons_of_mem _ (ih h)
    · simp at h

/-- The whole frames come first. -/
theorem whole_append_drop (enc : γ → List β) (as : List γ) (n : ℕ) :
    whole enc as n ++ as.drop (whole enc as n).length = as := by
  induction as generalizing n with
  | nil => rfl
  | cons a as ih =>
    rw [whole]
    by_cases h : (enc a).length ≤ n
    · rw [if_pos h, List.length_cons, List.drop_succ_cons, List.cons_append, ih]
    · rw [if_neg h]
      rfl

/-- Every frame is whole at the end of the stream. -/
theorem whole_all (enc : γ → List β) (as : List γ) :
    whole enc as (as.flatMap enc).length = as := by
  induction as with
  | nil => rfl
  | cons a as ih =>
    rw [List.flatMap_cons, List.length_append, whole, if_pos (by omega), Nat.add_sub_cancel_left,
      ih]

/-- **The whole frames are the longest prefix that fits:** the prefixes of the frames that lie
in the first `n` symbols are the prefixes of the whole ones. -/
theorem prefix_whole_iff (enc : γ → List β) (as : List γ) (n : ℕ) (front : List γ) :
    front <+: whole enc as n ↔ front <+: as ∧ (front.flatMap enc).length ≤ n := by
  induction as generalizing front n with
  | nil =>
    rw [whole, List.prefix_nil]
    constructor
    · rintro rfl
      exact ⟨rfl, Nat.zero_le n⟩
    · exact And.left
  | cons a as ih =>
    cases front with
    | nil => simp
    | cons b front =>
      rw [whole, List.flatMap_cons, List.length_append, List.cons_prefix_cons]
      by_cases h : (enc a).length ≤ n
      · rw [if_pos h, List.cons_prefix_cons, ih]
        constructor
        · rintro ⟨rfl, hfront, hlen⟩
          exact ⟨⟨rfl, hfront⟩, by omega⟩
        · rintro ⟨⟨rfl, hfront⟩, hlen⟩
          exact ⟨rfl, hfront, by omega⟩
      · rw [if_neg h]
        constructor
        · intro hnil
          exact absurd (List.prefix_nil.mp hnil) (List.cons_ne_nil _ _)
        · rintro ⟨⟨rfl, -⟩, hlen⟩
          omega

/-- No frame is whole in front of the end of the first. -/
theorem whole_eq_nil_iff (enc : γ → List β) (as : List γ) (n : ℕ) :
    whole enc as n = [] ↔ ∀ a ∈ as.head?, n < (enc a).length := by
  cases as with
  | nil => simp [whole]
  | cons a as =>
    rw [whole, List.head?_cons]
    by_cases h : (enc a).length ≤ n
    · rw [if_pos h]
      simpa using h
    · rw [if_neg h]
      simpa using h

/-- The frames behind the cut are all of them exactly if the cut is in the first. -/
theorem drop_whole_iff (enc : γ → List β) (as : List γ) (n : ℕ) :
    as.drop (whole enc as n).length = as ↔ ∀ a ∈ as.head?, n < (enc a).length := by
  rw [← whole_eq_nil_iff]
  constructor
  · intro hdrop
    have hlen := congrArg List.length (whole_append_drop enc as n)
    rw [List.length_append, hdrop] at hlen
    exact List.length_eq_zero_iff.mp (by omega)
  · intro hnil
    rw [hnil]
    rfl

/-- What is left of a torn frame is no longer than what was received. -/
theorem length_torn_le (enc : γ → List β) (as : List γ) (n : ℕ) :
    (torn enc as n).length ≤ n := by
  have hlen := congrArg List.length (take_flatMap enc as n)
  rw [List.length_take, List.length_append] at hlen
  omega

/-- What is left of a torn frame is a proper prefix of the frame. -/
theorem torn_cases (enc : γ → List β) (as : List γ) (n : ℕ) :
    torn enc as n = [] ∨ ∃ a ∈ as, ∃ q, q ≠ [] ∧ enc a = torn enc as n ++ q := by
  induction as generalizing n with
  | nil => exact Or.inl rfl
  | cons a as ih =>
    rw [torn]
    by_cases h : (enc a).length ≤ n
    · rw [if_pos h]
      rcases ih (n - (enc a).length) with h0 | ⟨b, hb, q, hq, he⟩
      · exact Or.inl h0
      · exact Or.inr ⟨b, List.mem_cons_of_mem _ hb, q, hq, he⟩
    · rw [if_neg h]
      refine Or.inr ⟨a, by simp, (enc a).drop n, ?_, (List.take_append_drop n _).symm⟩
      simpa using h

/-- The decoder wants more of the empty buffer and of every torn frame. -/
theorem step_torn (hs : Lawful step) (hf : Frames step enc msg ok) (as : List γ)
    (has : ∀ a ∈ as, ok a) (h0 : step [] = .more) (n : ℕ) :
    step (torn enc as n) = .more := by
  rcases torn_cases enc as n with h | ⟨a, ha, q, hq, he⟩
  · rw [h]; exact h0
  · have hd := hf a (has a ha) []
    rw [List.append_nil, he] at hd
    exact step_of_prefix hs hq hd

/-- **A cut stream of frames yields its whole frames and nothing else**, whatever the
position of the cut. -/
theorem run_take_flatMap (hs : Lawful step) (hf : Frames step enc msg ok) (as : List γ)
    (has : ∀ a ∈ as, ok a) (h0 : step [] = .more) (n : ℕ) :
    run step ((as.flatMap enc).take n) = .ok ((whole enc as n).map msg, torn enc as n) := by
  rw [take_flatMap, run_flatMap_append hs hf _ (fun a ha => has a (mem_whole ha)),
    run_of_more (step_torn hs hf as has h0 n)]
  simp [pushMany]

/-! ## Readers

A reader takes a value off the front of a buffer, or fails when the buffer is too short; it
is written as a sequence of smaller readers. -/

/-- A reader takes what it reads off the front of the buffer, and takes the same off every
longer buffer. -/
structure Stable (read : List β → Except ε (α × List β)) : Prop where
  front : ∀ {buf rest : List β} {a : α}, read buf = .ok (a, rest) → ∃ used, buf = used ++ rest
  append : ∀ {buf rest : List β} {a : α} (ext : List β),
    read buf = .ok (a, rest) → read (buf ++ ext) = .ok (a, rest ++ ext)

/-- A value that reads nothing is stable. -/
theorem stable_pure (a : α) :
    Stable fun buf : List β => (.ok (a, buf) : Except ε (α × List β)) := by
  constructor
  case front =>
    intro buf rest a' h
    cases h
    exact ⟨[], rfl⟩
  case append =>
    intro buf rest a' ext h
    cases h
    rfl

/-- A reader that fails at once is stable. -/
theorem stable_error (e : ε) : Stable fun _ : List β => (.error e : Except ε (α × List β)) := by
  constructor
  case front =>
    intro buf rest a h
    cases h
  case append =>
    intro buf rest a ext h
    cases h

/-- Readers in sequence. -/
theorem stable_bind {δ : Type} {read : List β → Except ε (α × List β)}
    {next : α × List β → Except ε (δ × List β)} (h : Stable read)
    (hn : ∀ a, Stable fun rest => next (a, rest)) : Stable fun buf => read buf >>= next := by
  have hsplit : ∀ {buf rest : List β} {d : δ}, read buf >>= next = .ok (d, rest) →
      ∃ a mid, read buf = .ok (a, mid) ∧ next (a, mid) = .ok (d, rest) := by
    intro buf rest d hd
    rcases hr : read buf with e | ⟨a, mid⟩
    · rw [hr] at hd
      cases hd
    · rw [hr] at hd
      exact ⟨a, mid, rfl, hd⟩
  constructor
  case front =>
    intro buf rest d hd
    obtain ⟨a, mid, hr, hnext⟩ := hsplit hd
    obtain ⟨used, rfl⟩ := h.front hr
    obtain ⟨used', rfl⟩ := (hn a).front hnext
    exact ⟨used ++ used', (List.append_assoc _ _ _).symm⟩
  case append =>
    intro buf rest d ext hd
    obtain ⟨a, mid, hr, hnext⟩ := hsplit hd
    simp only [h.append ext hr, bind, Except.bind]
    exact (hn a).append ext hnext

end ByoRedis.Lib.Framing
