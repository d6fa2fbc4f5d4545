import Mathlib.Data.List.Basic

/-!
# Runs with a history

A machine takes steps from a list of possible actions; a step may be disabled and reports
what it did as events. `Runs step ok s₀ evs s` says that `s` is reached from `s₀` by steps
that all meet `ok`, with `evs` the events in order. `Runs.invariant` is the induction rule:
an invariant of the history and the state together. `runAll` computes the run of a list of
actions. `no_descent` is the rule for runs without end. `AtEach P evs` says `P` of every event
and the history before it.
-/

set_option autoImplicit false

namespace ByoRedis.Lib

variable {σ α ε : Type}

/-- The runs of a machine whose steps all meet `ok`. -/
inductive Runs (step : σ → α → Option (σ × List ε)) (ok : σ → α → Prop) (s₀ : σ) :
    List ε → σ → Prop where
  | start : Runs step ok s₀ [] s₀
  | step {evs es : List ε} {s s' : σ} {a : α} (run : Runs step ok s₀ evs s) (hok : ok s a)
      (h : step s a = some (s', es)) : Runs step ok s₀ (evs ++ es) s'

variable {step : σ → α → Option (σ × List ε)} {ok : σ → α → Prop} {s₀ s : σ} {evs : List ε}

/-- **The invariant rule.** -/
theorem Runs.invariant {I : List ε → σ → Prop} (h₀ : I [] s₀)
    (hstep : ∀ {evs es : List ε} {s s' : σ} {a : α}, I evs s → ok s a →
      step s a = some (s', es) → I (evs ++ es) s')
    (h : Runs step ok s₀ evs s) : I evs s := by
  induction h with
  | start => exact h₀
  | step run hok h ih => exact hstep ih hok h

/-- Runs one after the other. -/
theorem Runs.trans {s' : σ} {evs' : List ε} (h : Runs step ok s₀ evs s)
    (h' : Runs step ok s evs' s') : Runs step ok s₀ (evs ++ evs') s' := by
  induction h' with
  | start =>
    rw [List.append_nil]
    exact h
  | step run hok hs ih =>
    rw [← List.append_assoc]
    exact ih.step hok hs

/-- More may be allowed. -/
theorem Runs.mono {ok' : σ → α → Prop} (h : Runs step ok s₀ evs s)
    (hok : ∀ s a, ok s a → ok' s a) : Runs step ok' s₀ evs s := by
  induction h with
  | start => exact .start
  | step run ha hs ih => exact ih.step (hok _ _ ha) hs

/-- The run that takes the given actions one after the other; `none` when one of them does
not meet `ok` or is disabled. -/
def runAll (step : σ → α → Option (σ × List ε)) (ok : σ → α → Prop)
    [∀ s a, Decidable (ok s a)] : List α → σ → Option (List ε × σ)
  | [], s => some ([], s)
  | a :: as, s =>
    if ok s a then
      (step s a).bind fun r => (runAll step ok as r.1).map fun q => (r.2 ++ q.1, q.2)
    else none

/-- A list of actions that are all taken extends a run. -/
theorem runs_of_runAll [∀ s a, Decidable (ok s a)] {as : List α} {es : List ε} {s' : σ}
    (h : runAll step ok as s = some (es, s')) (hrun : Runs step ok s₀ evs s) :
    Runs step ok s₀ (evs ++ es) s' := by
  induction as generalizing evs es s with
  | nil =>
    cases h
    rw [List.append_nil]
    exact hrun
  | cons a as ih =>
    rw [runAll] at h
    split_ifs at h with hok
    obtain ⟨⟨s₁, es₁⟩, hstep, h⟩ := Option.bind_eq_some_iff.mp h
    obtain ⟨⟨es₂, s₂⟩, hrest, heq⟩ := Option.map_eq_some_iff.mp h
    cases heq
    rw [← List.append_assoc]
    exact ih hrest (hrun.step hok hstep)

/-- A run by its actions, with what is to be seen of its end. -/
theorem exists_runs [∀ s a, Decidable (ok s a)] {γ : Type} (view : σ → γ) {as : List α}
    {es : List ε} {c : γ}
    (h : (runAll step ok as s₀).map (fun q => (q.1, view q.2)) = some (es, c)) :
    ∃ s', Runs step ok s₀ es s' ∧ view s' = c := by
  obtain ⟨⟨es', s'⟩, hrun, heq⟩ := Option.map_eq_some_iff.mp h
  cases heq
  exact ⟨s', runs_of_runAll hrun .start, rfl⟩

/-- The same without the events. -/
theorem exists_runs_view [∀ s a, Decidable (ok s a)] {γ : Type} (view : σ → γ) {as : List α}
    {c : γ} (h : (runAll step ok as s₀).map (fun q => view q.2) = some c) :
    ∃ es s', Runs step ok s₀ es s' ∧ view s' = c := by
  obtain ⟨⟨es, s'⟩, hrun, heq⟩ := Option.map_eq_some_iff.mp h
  exact ⟨es, s', runs_of_runAll hrun .start, heq⟩

/-! ## Runs without end -/

/-- **The descent rule.** A measure that never grows does not get smaller again and again. -/
theorem no_descent (μ : ℕ → ℕ) {helpful : ℕ → Prop} {n : ℕ}
    (hle : ∀ m, n ≤ m → μ (m + 1) ≤ μ m) (hlt : ∀ m, n ≤ m → helpful m → μ (m + 1) < μ m)
    (hagain : ∀ m, n ≤ m → ∃ k, m ≤ k ∧ helpful k) : False := by
  induction hμ : μ n using Nat.strongRecOn generalizing n with
  | ind v ih =>
    obtain ⟨k, hk, hhelpful⟩ := hagain n (Nat.le_refl n)
    have hback : ∀ d, μ (n + d) ≤ μ n := by
      intro d
      induction d with
      | zero => exact Nat.le_refl _
      | succ d ihd => exact Nat.le_trans (hle (n + d) (Nat.le_add_right n d)) ihd
    have hless : μ (k + 1) < v := by
      obtain ⟨d, rfl⟩ := Nat.exists_eq_add_of_le hk
      have hd := hback d
      have hdrop := hlt (n + d) hk hhelpful
      omega
    have hlater : ∀ m, k + 1 ≤ m → n ≤ m := fun m hm => by omega
    exact ih _ hless (fun m hm => hle m (hlater m hm)) (fun m hm => hlt m (hlater m hm))
      (fun m hm => hagain m (hlater m hm)) rfl

/-! ## Events in their histories -/

/-- Every event is right for the history before it. -/
def AtEach (P : List ε → ε → Prop) (evs : List ε) : Prop :=
  ∀ before e after, evs = before ++ e :: after → P before e

/-- Nothing is asked of an empty run. -/
theorem AtEach.nil (P : List ε → ε → Prop) : AtEach P [] := by
  intro before e after heq
  exact absurd heq.symm (by simp)

/-- A history is gone on with. -/
theorem AtEach.append {P : List ε → ε → Prop} {es : List ε} (h : AtEach P evs)
    (hes : AtEach (fun before => P (evs ++ before)) es) : AtEach P (evs ++ es) := by
  intro before e after heq
  rcases List.append_eq_append_iff.mp heq with ⟨mid, rfl, hmid⟩ | ⟨mid, hmid, hrest⟩
  · exact hes mid e after hmid
  · cases mid with
    | nil =>
      rw [List.append_nil] at hmid
      have hfirst : P (evs ++ []) e := hes [] e after hrest.symm
      rw [List.append_nil, hmid] at hfirst
      exact hfirst
    | cons e' mid =>
      cases (List.cons.inj hrest).1
      exact h before _ mid hmid

/-- A run with one more event. -/
theorem AtEach.snoc {P : List ε → ε → Prop} {e : ε} (h : AtEach P evs) (he : P evs e) :
    AtEach P (evs ++ [e]) := by
  apply h.append
  intro before e' after heq
  cases before with
  | nil =>
    cases (List.cons.inj heq).1
    rw [List.append_nil]
    exact he
  | cons b before =>
    exact absurd (List.cons.inj heq).2 (by simp)

end ByoRedis.Lib
