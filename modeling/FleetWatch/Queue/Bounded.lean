/-!
# Bounded queues

First-in, first-out queues that refuse what they have no room for.

## Main definitions

* `Queue.Bounded`, with `empty`, `offer?`, `take?` and `drop`.
-/
namespace FleetWatch.Queue

/-- A queue of at most `capacity` items; `waiting` has the oldest first. -/
structure Bounded (α : Type) where
  capacity : Nat
  waiting : List α
  fits : waiting.length ≤ capacity

namespace Bounded
variable {α : Type}

/-- The largest capacity that there can be: an eighth of a word's values. -/
def largest : Nat := UInt64.size / 8 - 1

def empty (capacity : Nat) : Bounded α := ⟨capacity, [], Nat.zero_le _⟩

/-- The queue with one more item, unless it is full. -/
def offer? (q : Bounded α) (a : α) : Option (Bounded α) :=
  if h : q.waiting.length < q.capacity then
    some ⟨q.capacity, q.waiting ++ [a], by rw [List.length_append]; exact h⟩
  else none

/-- The oldest item and the queue without it. -/
def take? (q : Bounded α) : Option (α × Bounded α) :=
  match h : q.waiting with
  | [] => none
  | a :: rest => some (a, ⟨q.capacity, rest, by have := q.fits; simp [h] at this; omega⟩)

/-- The queue without its oldest `n` items. -/
def drop (q : Bounded α) (n : Nat) : Bounded α :=
  ⟨q.capacity, q.waiting.drop n, by have := q.fits; simp; omega⟩

@[simp] theorem waiting_empty (capacity : Nat) : (empty capacity : Bounded α).waiting = [] := rfl

@[simp] theorem waiting_drop (q : Bounded α) (n : Nat) :
    (q.drop n).waiting = q.waiting.drop n := rfl

theorem waiting_of_offer? {q r : Bounded α} {a : α} (h : q.offer? a = some r) :
    r.waiting = q.waiting ++ [a] ∧ r.capacity = q.capacity := by
  unfold offer? at h
  split at h
  · simp only [Option.some.injEq] at h; subst h; exact ⟨rfl, rfl⟩
  · simp at h

theorem waiting_of_take? {q r : Bounded α} {a : α} (h : q.take? = some (a, r)) :
    q.waiting = a :: r.waiting := by
  unfold take? at h
  split at h
  · simp at h
  · next b rest hq =>
    obtain ⟨rfl, rfl⟩ := Prod.mk.inj (Option.some.inj h)
    exact hq

theorem waiting_of_take?_eq_none {q : Bounded α} (h : q.take? = none) : q.waiting = [] := by
  unfold take? at h
  split at h
  · assumption
  · cases h

end Bounded
end FleetWatch.Queue
