import Mathlib.Tactic

/-!
# Queues under edge-triggered notification

A queue whose consumer is told by an edge-triggered event that something has arrived: an arrival
sets the event, the consumer takes the event when it waits for it, and is not told again before the
next arrival. Arrivals are merged into one event, if the consumer does not wait between them.

A consumer that takes one item for each event falls behind by one item with every arrival that is
merged. `Owes` keeps this account: of the items in the queue, one belongs to the event that is set,
one to each event that was taken and whose item was not, and the rest to the merged arrivals. The
operations keep it (`Owes.push`, `Owes.wait`, `Owes.pop`), and when nothing is left to do, the
items left are those of the merged arrivals (`Owes.rest`).
-/

namespace SweetClib.Lib

variable {α : Type*}

/-- The items, first in first out, and whether the event is set. -/
structure EdgeQueue (α : Type*) where
  items : List α
  event : Bool

namespace EdgeQueue

variable {q q' : EdgeQueue α} {k m : Nat}

/-- A queue nothing has arrived at. -/
def empty : EdgeQueue α := ⟨[], false⟩

/-- An item arrives. -/
def push (q : EdgeQueue α) (a : α) : EdgeQueue α := ⟨q.items ++ [a], true⟩

/-- Wait for the event; there is nothing to return while it is not set. -/
def wait (q : EdgeQueue α) :
    Option (EdgeQueue α) := if q.event then some { q with event := false } else none

/-- Take an item, if there is one. -/
def pop (q : EdgeQueue α) : Option α × EdgeQueue α :=
  match q.items with
  | [] => (none, q)
  | a :: items => (some a, { q with items })

/-- The account of a queue: `k` events were taken whose item was not, and `m` arrivals were
merged. -/
def Owes (q : EdgeQueue α) (k m : Nat) : Prop := q.items.length = q.event.toNat + k + m

lemma owes_empty : (empty : EdgeQueue α).Owes 0 0 := rfl

/-- An arrival is merged, if the event is set. -/
lemma Owes.push (owes : q.Owes k m) (a : α) : (q.push a).Owes k (m + q.event.toNat) := by
  rw [Owes] at owes ⊢
  rw [EdgeQueue.push, List.length_append, owes, List.length_singleton, Bool.toNat_true]
  omega

/-- An event that is set can be taken. -/
lemma wait_of_event (event : q.event = true) : q.wait = some ⟨q.items, false⟩ := if_pos event

/-- The event was set and is set no more, and nothing was taken. -/
lemma wait_eq_some (e : q.wait = some q') : q.event = true ∧ q' = ⟨q.items, false⟩ := by
  obtain ⟨event, e⟩ := Option.ite_none_right_eq_some.mp e
  exact ⟨event, (Option.some.inj e).symm⟩

/-- An event that is taken has its item in the queue. -/
lemma Owes.wait (owes : q.Owes k m) (e : q.wait = some q') : q'.Owes (k + 1) m := by
  obtain ⟨event, rfl⟩ := wait_eq_some e
  rw [Owes, event, Bool.toNat_true] at owes
  rw [Owes, owes, Bool.toNat_false]
  omega

/-- As long as the item of an event was not taken, there is one to take. -/
lemma Owes.pop (owes : q.Owes (k + 1) m) :
    ∃ a q', q.pop = (some a, q') ∧ q.items = a :: q'.items ∧ q'.Owes k m := by
  rcases q with ⟨_ | ⟨a, items⟩, event⟩
  · rw [Owes, List.length_nil] at owes
    omega
  · refine ⟨a, ⟨items, event⟩, rfl, rfl, ?_⟩
    have all : items.length + 1 = event.toNat + (k + 1) + m := owes
    show items.length = event.toNat + k + m
    omega

/-- What is taken was the first item. -/
lemma pop_items (q : EdgeQueue α) : q.pop.1.toList ++ q.pop.2.items = q.items := by
  rcases q with ⟨_ | ⟨a, items⟩, event⟩ <;> rfl

lemma pop_event (q : EdgeQueue α) : q.pop.2.event = q.event := by
  rcases q with ⟨_ | ⟨a, items⟩, event⟩ <;> rfl

/-- When every event was taken, with its item, the items left are as many as the merged arrivals. -/
lemma Owes.rest (owes : q.Owes 0 m) (event : q.event = false) : q.items.length = m := by
  rw [Owes, event, Bool.toNat_false] at owes
  omega

end EdgeQueue

end SweetClib.Lib
