import Mathlib.Data.List.Basic

/-!
# A bounded queue with waiting producers

`asyncio.Queue` as its producers see it. A producer that finds the queue full waits in line.
Whoever takes an item out wakes the first in line, but the place is not kept for it: the
woken producer looks again when it runs, and waits at the end of the line when another one
has been faster. A bound of 0 is no bound.
-/

set_option autoImplicit false

namespace ByoRedis.Lib

variable {ι π : Type}

/-- The items from the oldest to the newest, and who waits to put one. -/
structure WaitQueue (ι π : Type) where
  maxsize : ℕ
  items : List ι := []
  putters : List π := []

namespace WaitQueue

/-- `full`. -/
def full (q : WaitQueue ι π) : Bool := decide (0 < q.maxsize ∧ q.maxsize ≤ q.items.length)

/-- `put_nowait` on a queue that is not full. -/
def putNowait (q : WaitQueue ι π) (x : ι) : WaitQueue ι π := { q with items := q.items ++ [x] }

/-- A producer lines up. -/
def wait (q : WaitQueue ι π) (p : π) : WaitQueue ι π := { q with putters := q.putters ++ [p] }

/-- A producer leaves the line. -/
def leave [DecidableEq π] (q : WaitQueue ι π) (p : π) : WaitQueue ι π :=
  { q with putters := q.putters.erase p }

/-- `_wakeup_next` on the producers: the first in line, who is woken. -/
def wakeupNext (q : WaitQueue ι π) : Option π × WaitQueue ι π :=
  (q.putters.head?, { q with putters := q.putters.tail })

/-- `get_nowait`: the oldest item and the producer that is woken; `none` is `QueueEmpty`. -/
def getNowait (q : WaitQueue ι π) : Option (ι × Option π × WaitQueue ι π) :=
  match q.items with
  | [] => none
  | x :: rest => some (x, { q with items := rest }.wakeupNext)

variable {q q' : WaitQueue ι π} {x : ι} {w : Option π}

/-- A put adds its item at the end. -/
@[simp] theorem items_putNowait : (q.putNowait x).items = q.items ++ [x] := rfl

/-- Lining up changes no item. -/
@[simp] theorem items_wait {p : π} : (q.wait p).items = q.items := rfl

/-- Nor does leaving the line. -/
@[simp] theorem items_leave [DecidableEq π] {p : π} : (q.leave p).items = q.items := rfl

/-- Nor does waking a producer. -/
@[simp] theorem items_wakeupNext : q.wakeupNext.2.items = q.items := rfl

/-- A get fails on the empty queue. -/
theorem getNowait_eq_none (h : q.getNowait = none) : q.items = [] := by
  unfold getNowait at h
  cases hitems : q.items with
  | nil => rfl
  | cons y rest =>
    rw [hitems] at h
    cases h

/-- What is taken is the oldest item. -/
theorem items_of_getNowait (h : q.getNowait = some (x, w, q')) : q.items = x :: q'.items := by
  unfold getNowait at h
  cases hitems : q.items with
  | nil =>
    rw [hitems] at h
    cases h
  | cons y rest =>
    rw [hitems] at h
    cases h
    rfl

end WaitQueue

end ByoRedis.Lib
