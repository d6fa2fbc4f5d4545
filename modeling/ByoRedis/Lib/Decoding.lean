import Mathlib.Data.List.Basic

/-!
# Readers and the forms they read

A reader takes a value off the front of a list and returns the rest. `Decodes` says which
stretches it takes for which values, in both directions: it succeeds exactly on the lists
that begin with such a stretch. Readers in sequence decode the stretches one behind the
other, and since a reader is a function, no two forms begin alike.
-/

set_option autoImplicit false

namespace ByoRedis.Lib

variable {α β δ ε : Type}

/-- The reader succeeds exactly where a form of a value stands in front. -/
structure Decodes (read : List β → Except ε (α × List β)) (form : α → List β → Prop) : Prop where
  iff : ∀ {buf rest : List β} {a : α},
    read buf = .ok (a, rest) ↔ ∃ used, form a used ∧ buf = used ++ rest

variable {read : List β → Except ε (α × List β)} {form : α → List β → Prop}

/-- A reader that reads nothing. -/
theorem decodes_pure (b : α) :
    Decodes (fun buf : List β => (.ok (b, buf) : Except ε (α × List β)))
      fun a used => a = b ∧ used = [] := by
  refine ⟨fun {buf rest a} => ?_⟩
  constructor
  · intro h
    cases h
    exact ⟨[], ⟨rfl, rfl⟩, rfl⟩
  · rintro ⟨used, ⟨rfl, rfl⟩, rfl⟩
    rfl

/-- A reader that always fails. -/
theorem decodes_error (e : ε) :
    Decodes (fun _ : List β => (.error e : Except ε (α × List β))) fun _ _ => False := by
  refine ⟨fun {buf rest a} => ?_⟩
  constructor
  · intro h
    cases h
  · rintro ⟨used, hfalse, -⟩
    exact hfalse.elim

/-- Two readers in sequence: the stretches stand one behind the other. -/
theorem Decodes.bind {next : α × List β → Except ε (δ × List β)} {form' : α → δ → List β → Prop}
    (h : Decodes read form) (hnext : ∀ a, Decodes (fun rest => next (a, rest)) (form' a)) :
    Decodes (fun buf => read buf >>= next) fun d used =>
      ∃ a front back, form a front ∧ form' a d back ∧ used = front ++ back := by
  refine ⟨fun {buf rest d} => ?_⟩
  show read buf >>= next = .ok (d, rest) ↔ _
  constructor
  · intro hd
    rcases hr : read buf with e | ⟨a, mid⟩
    · rw [hr] at hd
      cases hd
    · rw [hr] at hd
      obtain ⟨front, hfront, rfl⟩ := h.iff.mp hr
      obtain ⟨back, hback, rfl⟩ := (hnext a).iff.mp hd
      exact ⟨front ++ back, ⟨a, front, back, hfront, hback, rfl⟩,
        (List.append_assoc front back rest).symm⟩
  · rintro ⟨used, ⟨a, front, back, hfront, hback, rfl⟩, rfl⟩
    have hr : read (front ++ (back ++ rest)) = .ok (a, back ++ rest) :=
      h.iff.mpr ⟨front, hfront, rfl⟩
    rw [List.append_assoc, hr]
    exact (hnext a).iff.mpr ⟨back, hback, rfl⟩

/-- The same forms in other words. -/
theorem Decodes.congr {form' : α → List β → Prop} (h : Decodes read form)
    (heq : ∀ a used, form a used ↔ form' a used) : Decodes read form' := by
  refine ⟨fun {buf rest a} => ?_⟩
  rw [h.iff]
  exact exists_congr fun used => and_congr_left' (heq a used)

/-- **No two forms begin alike.** -/
theorem Decodes.unique (h : Decodes read form) {a a' : α} {used used' rest rest' : List β}
    (hform : form a used) (hform' : form a' used') (heq : used ++ rest = used' ++ rest') :
    a = a' ∧ used = used' ∧ rest = rest' := by
  have hr : read (used ++ rest) = .ok (a, rest) := h.iff.mpr ⟨used, hform, rfl⟩
  have hr' : read (used ++ rest) = .ok (a', rest') := h.iff.mpr ⟨used', hform', heq⟩
  cases Except.ok.inj (hr.symm.trans hr')
  exact ⟨rfl, List.append_cancel_right heq, rfl⟩

end ByoRedis.Lib
