import Mathlib.Data.List.Induction

/-!
# Properties of every point of a run

A run is a list of inputs and its points are the prefixes of the list. When one input
keeps a property exactly if it meets a condition, the property holds at every point
exactly if every input meets the condition there (`forall_prefix_iff`). For a given run the
condition is checked input by input (`forall_prefix_cons`).
-/

set_option autoImplicit false

namespace ByoRedis.Lib

variable {α : Type}

/-- The property `P` of the points of a run, with an invariant `I` that holds as long as
`P` does, against a condition `C` on each input at the point where it comes. -/
theorem forall_prefix_iff (run : List α) {P I : List α → Prop} {C : List α → α → Prop}
    (hP : P []) (hI : I [])
    (hstep : ∀ done a, done ++ [a] <+: run → P done → I done →
      (P (done ++ [a]) ↔ C done a) ∧ I (done ++ [a])) :
    (∀ done, done <+: run → P done) ↔ ∀ done a, done ++ [a] <+: run → C done a := by
  constructor
  · intro hall
    have hinv : ∀ done, done <+: run → I done := by
      intro done
      induction done using List.reverseRecOn with
      | nil => exact fun _ => hI
      | append_singleton done a ih =>
        intro hpre
        have hpre' := (List.prefix_append done [a]).trans hpre
        exact (hstep done a hpre (hall done hpre') (ih hpre')).2
    intro done a hpre
    have hpre' := (List.prefix_append done [a]).trans hpre
    exact (hstep done a hpre (hall done hpre') (hinv done hpre')).1.mp (hall _ hpre)
  · intro hcond
    have hboth : ∀ done, done <+: run → P done ∧ I done := by
      intro done
      induction done using List.reverseRecOn with
      | nil => exact fun _ => ⟨hP, hI⟩
      | append_singleton done a ih =>
        intro hpre
        obtain ⟨hp, hi⟩ := ih ((List.prefix_append done [a]).trans hpre)
        obtain ⟨hiff, hi'⟩ := hstep done a hpre hp hi
        exact ⟨hiff.mpr (hcond done a hpre), hi'⟩
    exact fun done hpre => (hboth done hpre).1

/-- An empty run has no input. -/
theorem forall_prefix_nil {C : List α → α → Prop} (done : List α) (a : α)
    (hpre : done ++ [a] <+: []) : C done a := by
  have hnil := List.prefix_nil.mp hpre
  simp at hnil

/-- A condition on the inputs of a run, read from its first input on. -/
theorem forall_prefix_cons {x : α} {run : List α} {C : List α → α → Prop} (hx : C [] x)
    (hrun : ∀ done a, done ++ [a] <+: run → C (x :: done) a) (done : List α) (a : α)
    (hpre : done ++ [a] <+: x :: run) : C done a := by
  cases done with
  | nil =>
    obtain ⟨rfl, -⟩ := List.cons_prefix_cons.mp hpre
    exact hx
  | cons y done =>
    rw [List.cons_append] at hpre
    obtain ⟨rfl, hrest⟩ := List.cons_prefix_cons.mp hpre
    exact hrun done a hrest

end ByoRedis.Lib
