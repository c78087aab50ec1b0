import SweetClib.Lib.EdgeQueue
import SweetClib.Lib.Run

/-!
# Event loops with signals through a pipe

A process turns its signals into events of its loop: the handler of a signal writes its number to a
pipe, and the loop waits for the event of the pipe, receives the numbers and handles one after the
other. `SignalLoop` is such a process: the signals that were raised and not delivered (raised
twice, a signal is delivered once), the pipe with its edge-triggered event (`EdgeQueue`), and the
place in the loop. `advance` is the control flow of the loop; what is done for an event or a signal
is left to the program.

A signal can be missed, when the pipe is full as it is delivered, or when it is left behind by a
receive that does not take all: a pipe with something in it does not set its event again. `missed`
keeps that in mind, and while nothing was missed, a pipe with something in it has its event set or
in hand (`told`). A signal is owed (`Owes`) as long as it is on its way. It stays so until it is
handled (`Owes.advance`), and a loop at rest owes nothing (`Owes.busy`).

`load` is what the loop has to do, if a signal is worth `h`: every step of the loop by itself makes
it less.
-/

namespace SweetClib.Lib

variable {S E : Type*}

/-- Where a loop is: before its set-up, at its wait, at the events of a batch or at the signals it
received for one of them, or behind the loop. The event `none` is that of the pipe. -/
inductive Place (S E : Type*) where
  | starting
  | waiting
  | events (es : List (Option E))
  | signals (hand : List S) (es : List (Option E))
  | stopped
  deriving DecidableEq

namespace Place

/-- The events of the batch that are ahead. -/
def batch : Place S E → List (Option E)
  | .events es => es
  | .signals _ es => es
  | _ => []

/-- The signals that were received and not handled. -/
def hand : Place S E → List S
  | .signals hand _ => hand
  | _ => []

/-- The loop is behind its wait, with a batch. -/
def inside : Place S E → Bool
  | .events _ => true
  | .signals _ _ => true
  | _ => false

/-- The loop receives the signals of its pipe next. -/
def receives : Place S E → Bool
  | .events (none :: _) => true
  | _ => false

/-- The place that follows: the loop receives at most `k` of the items of the pipe, and `stop` is
its condition. -/
def next (k : Nat) (stop : Bool) (items : List S) : Place S E → Place S E
  | .events [] => if stop then .stopped else .waiting
  | .events (none :: es) => .signals (items.take k) es
  | .events (some _ :: es) => .events es
  | .signals [] es => .events es
  | .signals (_ :: hand) es => .signals hand es
  | .starting => .starting
  | .waiting => .waiting
  | .stopped => .stopped

/-- The event of the pipe stays in hand up to the receive. -/
lemma mem_next {place : Place S E} {k : Nat} {stop : Bool} {items : List S}
    (mem : none ∈ place.batch) (other : place.receives = false) :
    none ∈ (place.next k stop items).batch := by
  cases place with
  | events es =>
    rcases es with _ | ⟨_ | e, es⟩
    · exact absurd mem List.not_mem_nil
    · cases other
    · obtain same | mem := List.mem_cons.mp mem
      · cases same
      · exact mem
  | signals hand es =>
    cases hand with
    | nil => exact mem
    | cons sig hand => exact mem
  | starting => exact mem
  | waiting => exact mem
  | stopped => exact mem

/-- A signal in hand stays there until it is handled. -/
lemma mem_hand_next {place : Place S E} {k : Nat} {stop : Bool} {items : List S} {sig : S}
    (mem : sig ∈ place.hand) (other : place.hand.head? ≠ some sig) :
    sig ∈ (place.next k stop items).hand := by
  cases place with
  | signals hand es =>
    cases hand with
    | nil => exact absurd mem List.not_mem_nil
    | cons first hand => exact List.mem_of_ne_of_mem (fun e => other (congrArg some e.symm)) mem
  | events es => exact absurd mem List.not_mem_nil
  | starting => exact absurd mem List.not_mem_nil
  | waiting => exact absurd mem List.not_mem_nil
  | stopped => exact absurd mem List.not_mem_nil

/-- The numbers that were received are in hand. -/
lemma hand_next_of_receives {place : Place S E} {k : Nat} {stop : Bool} {items : List S}
    (receives : place.receives = true) : (place.next k stop items).hand = items.take k := by
  cases place with
  | events es =>
    rcases es with _ | ⟨_ | e, es⟩
    · cases receives
    · rfl
    · cases receives
  | signals hand es => cases receives
  | starting => cases receives
  | waiting => cases receives
  | stopped => cases receives

/-- What is left to do at a place, if a signal is worth `h`. -/
def load (h : Nat) : Place S E → Nat
  | .starting => 1
  | .waiting => 0
  | .events es => 1 + 2 * es.length
  | .signals hand es => 2 + h * hand.length + 2 * es.length
  | .stopped => 0

/-- The loop does not start again. -/
lemma next_starting {place : Place S E} {k : Nat} {stop : Bool} {items : List S}
    (e : place.next k stop items = .starting) : place = .starting := by
  rcases place with _ | _ | (_ | ⟨_ | _, es⟩) | ⟨_ | _, es⟩ | _
  · rfl
  · cases e
  · cases stop <;> cases e
  all_goals cases e

/-- A loop goes back to its wait only when it is not to stop. -/
lemma next_waiting {place : Place S E} {k : Nat} {stop : Bool} {items : List S}
    (e : place.next k stop items = .waiting) : place = .waiting ∨ stop = false := by
  rcases place with _ | _ | (_ | ⟨_ | _, es⟩) | ⟨_ | _, es⟩ | _
  · cases e
  · exact .inl rfl
  · cases stop
    · exact .inr rfl
    · cases e
  all_goals cases e

/-- The loop stops when it is told to. -/
lemma next_stopped {place : Place S E} {k : Nat} {stop : Bool} {items : List S}
    (e : place.next k stop items = .stopped) : place = .stopped ∨ stop = true := by
  rcases place with _ | _ | (_ | ⟨_ | _, es⟩) | ⟨_ | _, es⟩ | _
  · cases e
  · cases e
  · cases stop
    · cases e
    · exact .inr rfl
  · cases e
  · cases e
  · cases e
  · cases e
  · exact .inl rfl

/-- Behind its wait the loop goes on, and a signal that it is done with is done. -/
lemma load_next {h : Nat} (pos : 0 < h) (k : Nat) (stop : Bool) (items : List S)
    {place : Place S E} (inside : place.inside = true) :
    h * (if place.receives then items.drop k else items).length + (place.next k stop items).load h <
      h * items.length + place.load h ∧
    (place.hand ≠ [] →
      h * (if place.receives then items.drop k else items).length +
          (place.next k stop items).load h + h ≤
        h * items.length + place.load h) := by
  rcases place with _ | _ | (_ | ⟨_ | e, es⟩) | ⟨_ | ⟨sig, hand⟩, es⟩ | _
  · cases inside
  · cases inside
  · refine ⟨?_, fun more => absurd rfl more⟩
    cases stop <;> exact Nat.lt_succ_self _
  · refine ⟨?_, fun more => absurd rfl more⟩
    have split : h * (items.drop k).length + h * (items.take k).length = h * items.length := by
      rw [← Nat.mul_add, Nat.add_comm, ← List.length_append, List.take_append_drop]
    show h * (items.drop k).length + (2 + h * (items.take k).length + 2 * es.length) <
      h * items.length + (1 + 2 * (es.length + 1))
    omega
  · refine ⟨?_, fun more => absurd rfl more⟩
    show h * items.length + (1 + 2 * es.length) < h * items.length + (1 + 2 * (es.length + 1))
    omega
  · refine ⟨?_, fun more => absurd rfl more⟩
    show h * items.length + (1 + 2 * es.length) < h * items.length + (2 + h * 0 + 2 * es.length)
    omega
  · have one : h * (hand.length + 1) = h * hand.length + h := Nat.mul_succ ..
    have less : h * items.length + (2 + h * hand.length + 2 * es.length) + h ≤
        h * items.length + (2 + h * (hand.length + 1) + 2 * es.length) := by omega
    exact ⟨Nat.lt_of_lt_of_le (Nat.lt_add_of_pos_right pos) less, fun _ => less⟩
  · cases inside

end Place

/-- A process with its signals. -/
structure SignalLoop (S E : Type*) where
  pending : S → Bool
  pipe : EdgeQueue S
  place : Place S E
  missed : Bool
  told : missed = false → pipe.items ≠ [] → pipe.event = true ∨ none ∈ place.batch ∨
    place = .stopped

namespace SignalLoop

variable {l l' : SignalLoop S E} {sig sig' : S} {k cap : Nat} {stop : Bool} {es : List (Option E)}

/-- A process that has not been set up. -/
def fresh : SignalLoop S E where
  pending := fun _ => false
  pipe := .empty
  place := .starting
  missed := false
  told := fun _ more => absurd rfl more

/-- A signal goes by without its handler. -/
def miss (l : SignalLoop S E) : SignalLoop S E where
  pending := l.pending
  pipe := l.pipe
  place := l.place
  missed := true
  told := nofun

section

variable [DecidableEq S]

/-- A signal is raised. -/
def raise (l : SignalLoop S E) (sig : S) : SignalLoop S E where
  pending := Function.update l.pending sig true
  pipe := l.pipe
  place := l.place
  missed := l.missed
  told := l.told

/-- The handler of a signal, which writes to a pipe with room for `cap` of them. -/
def deliver (cap : Nat) (l : SignalLoop S E) (sig : S) : Option (SignalLoop S E) :=
  if l.pending sig then
    if l.pipe.items.length < cap then
      some ⟨Function.update l.pending sig false, l.pipe.push sig, l.place, l.missed,
        fun _ _ => .inl rfl⟩
    else some ⟨Function.update l.pending sig false, l.pipe, l.place, true, nofun⟩
  else none

end

/-- The control flow of the loop, behind its wait. -/
def advance (k : Nat) (stop : Bool) (l : SignalLoop S E) : SignalLoop S E where
  pending := l.pending
  pipe := ⟨if l.place.receives then l.pipe.items.drop k else l.pipe.items, l.pipe.event⟩
  place := l.place.next k stop l.pipe.items
  missed := l.missed || (l.place.receives && decide (k < l.pipe.items.length))
  told := fun ok more => by
    obtain ⟨ok, all⟩ := Bool.or_eq_false_iff.mp ok
    cases receives : l.place.receives with
    | true =>
      -- all was received
      rw [receives, Bool.true_and, decide_eq_false_iff_not, not_lt] at all
      rw [receives, if_pos rfl] at more
      exact absurd (List.drop_eq_nil_of_le all) more
    | false =>
      rw [receives, if_neg Bool.false_ne_true] at more
      obtain set | mem | out := l.told ok more
      · exact .inl set
      · exact .inr (.inl (Place.mem_next mem receives))
      · exact .inr (.inr (by rw [out]; rfl))

/-- The loop is left. -/
def leave (l : SignalLoop S E) : SignalLoop S E where
  pending := l.pending
  pipe := l.pipe
  place := .stopped
  missed := l.missed
  told := fun _ _ => .inr (.inr rfl)

section

variable [DecidableEq S] [DecidableEq E]

/-- The process is set up. -/
def setup (l : SignalLoop S E) : Option (SignalLoop S E) :=
  if starting : l.place = .starting then
    some ⟨l.pending, l.pipe, .waiting, l.missed, fun ok more => by
      obtain set | mem | out := l.told ok more
      · exact .inl set
      · rw [starting] at mem
        exact absurd mem List.not_mem_nil
      · rw [starting] at out
        cases out⟩
  else none

/-- The wait returns a batch, with the event of the pipe if it is set. -/
def wait (l : SignalLoop S E) (es : List (Option E)) : Option (SignalLoop S E) :=
  if ready : l.place = .waiting ∧ es ≠ [] ∧ es.count none = l.pipe.event.toNat then
    some ⟨l.pending, ⟨l.pipe.items, false⟩, .events es, l.missed, fun ok more => by
      obtain ⟨place, _, count⟩ := ready
      obtain set | mem | out := l.told ok more
      · rw [set] at count
        exact .inr (.inl (List.count_pos_iff.mp (count ▸ Nat.one_pos)))
      · rw [place] at mem
        exact absurd mem List.not_mem_nil
      · rw [place] at out
        cases out⟩
  else none

end

/-- The signal is on its way. -/
def Owes (l : SignalLoop S E) (sig : S) : Prop :=
  l.pending sig = true ∨ sig ∈ l.pipe.items ∨ sig ∈ l.place.hand

/-- A signal that is on its way to a loop at its wait can be delivered, or its event is set. -/
lemma Owes.busy (owes : l.Owes sig) (ok : l.missed = false) (place : l.place = .waiting) :
    l.pending sig = true ∨ l.pipe.event = true := by
  obtain pending | mem | mem := owes
  · exact .inl pending
  · obtain set | mem | out := l.told ok (List.ne_nil_of_mem mem)
    · exact .inr set
    · rw [place] at mem
      exact absurd mem List.not_mem_nil
    · rw [place] at out
      cases out
  · rw [place] at mem
    exact absurd mem List.not_mem_nil

/-- A signal is on its way until the loop is done with it. -/
lemma Owes.advance (owes : l.Owes sig) (other : l.place.hand.head? ≠ some sig)
    (ok : (l.advance k stop).missed = false) : (l.advance k stop).Owes sig := by
  obtain pending | mem | mem := owes
  · exact .inl pending
  · obtain ⟨_, all⟩ := Bool.or_eq_false_iff.mp ok
    cases receives : l.place.receives with
    | true =>
      rw [receives, Bool.true_and, decide_eq_false_iff_not, not_lt] at all
      refine .inr (.inr ?_)
      rw [SignalLoop.advance, Place.hand_next_of_receives receives, List.take_of_length_le all]
      exact mem
    | false =>
      have same : (l.advance k stop).pipe.items = l.pipe.items :=
        if_neg (by rw [receives]; exact Bool.false_ne_true)
      exact .inr (.inl (same ▸ mem))
  · exact .inr (.inr (Place.mem_hand_next mem other))

section

variable [DecidableEq S]

/-- A signal that was raised is owed. -/
lemma owes_raise (l : SignalLoop S E) (sig : S) :
    (l.raise sig).Owes sig := .inl (Function.update_self ..)

/-- What is owed stays so when a signal is raised. -/
lemma Owes.raise (owes : l.Owes sig) : (l.raise sig').Owes sig := by
  refine owes.imp_left fun pending => ?_
  show Function.update l.pending sig' true sig = true
  rw [Function.update_apply, pending, ite_self]

/-- The handler of a signal interrupts the loop and leaves it where it is. -/
lemma deliver_place (e : l.deliver cap sig = some l') : l'.place = l.place := by
  obtain ⟨_, e⟩ := Option.ite_none_right_eq_some.mp e
  split at e <;> (cases e; rfl)

/-- A delivery does not make up for a number that was missed. -/
lemma missed_of_deliver (e : l.deliver cap sig = some l') (ok : l'.missed = false) :
    l.missed = false := by
  obtain ⟨_, e⟩ := Option.ite_none_right_eq_some.mp e
  split at e
  · cases e
    exact ok
  · cases e
    cases ok

/-- A pending signal can be delivered. -/
lemma deliver_isSome (pending : l.pending sig = true) : (l.deliver cap sig).isSome := by
  rw [deliver, if_pos pending]
  split <;> rfl

/-- A delivery that the pipe has room for keeps what is owed. -/
lemma Owes.deliver (owes : l.Owes sig) (e : l.deliver cap sig' = some l') (ok : l'.missed = false) :
    l'.Owes sig := by
  obtain ⟨_, e⟩ := Option.ite_none_right_eq_some.mp e
  split at e
  · cases e
    obtain pending | mem | mem := owes
    · by_cases same : sig = sig'
      · exact .inr (.inl (List.mem_append_right _ (List.mem_singleton.mpr same)))
      · exact .inl ((Function.update_of_ne same ..).trans pending)
    · exact .inr (.inl (List.mem_append_left _ mem))
    · exact .inr (.inr mem)
  · cases e
    cases ok

variable [DecidableEq E]

/-- What the set-up does. -/
lemma setup_eq_some (e : l.setup = some l') :
    l.place = .starting ∧ l'.place = .waiting ∧ l'.missed = l.missed ∧ ∀ sig, l.Owes sig →
      l'.Owes sig := by
  obtain ⟨starting, e⟩ := Option.dite_none_right_eq_some.mp e
  cases e
  refine ⟨starting, rfl, rfl, fun sig owes => ?_⟩
  obtain pending | mem | mem := owes
  · exact .inl pending
  · exact .inr (.inl mem)
  · rw [starting] at mem
    exact absurd mem List.not_mem_nil

/-- A loop that starts can be set up. -/
lemma setup_isSome (starting : l.place = .starting) : l.setup.isSome := by
  rw [setup, dif_pos starting]
  rfl

/-- What a wait does. -/
lemma wait_eq_some (e : l.wait es = some l') :
    l.place = .waiting ∧ l'.place = .events es ∧ l'.missed = l.missed ∧ ∀ sig, l.Owes sig →
      l'.Owes sig := by
  obtain ⟨ready, e⟩ := Option.dite_none_right_eq_some.mp e
  cases e
  refine ⟨ready.1, rfl, rfl, fun sig owes => ?_⟩
  obtain pending | mem | mem := owes
  · exact .inl pending
  · exact .inr (.inl mem)
  · rw [ready.1] at mem
    exact absurd mem List.not_mem_nil

/-- A loop that waits goes on with the events there are. -/
lemma wait_isSome (place : l.place = .waiting) (more : es ≠ [])
    (count : es.count none = l.pipe.event.toNat) : (l.wait es).isSome := by
  rw [wait, dif_pos ⟨place, more, count⟩]
  rfl

end

section

variable [Fintype S] {h : Nat}

/-- The signals that were raised and not delivered. -/
def raised (l : SignalLoop S E) : Nat := ∑ sig, (l.pending sig).toNat

/-- What the loop has to do, if a signal is worth `h`. -/
def load (h : Nat) (l : SignalLoop S E) : Nat :=
  (h + 5) * l.raised + h * l.pipe.items.length + 4 * l.pipe.event.toNat + l.place.load h

/-- Behind its wait the loop goes on, and a signal that it is done with is done. -/
lemma load_advance (pos : 0 < h) (k : Nat) (stop : Bool) (inside : l.place.inside = true) :
    (l.advance k stop).load h < l.load h ∧
    (l.place.hand ≠ [] → (l.advance k stop).load h + h ≤ l.load h) := by
  have next := Place.load_next pos k stop l.pipe.items inside
  have same : (l.advance k stop).raised = l.raised := rfl
  rw [load, load, same]
  dsimp only [advance]
  refine ⟨?_, fun more => ?_⟩
  · omega
  · have less := next.2 more
    omega

/-- Leaving the loop is a step towards its end. -/
lemma load_leave (inside : l.place.inside = true) : l.leave.load h < l.load h := by
  have some_load : 0 < l.place.load h := by
    cases place : l.place with
    | events es => exact Nat.lt_of_lt_of_le Nat.one_pos (Nat.le_add_right ..)
    | signals hand es =>
      exact Nat.lt_of_lt_of_le Nat.two_pos ((Nat.le_add_right ..).trans (Nat.le_add_right ..))
    | starting => exact Nat.one_pos
    | waiting =>
      rw [place] at inside
      cases inside
    | stopped =>
      rw [place] at inside
      cases inside
  exact Nat.lt_add_of_pos_right some_load

variable [DecidableEq S]

/-- A signal that is raised is a bounded load. -/
lemma load_raise (h : Nat) (l : SignalLoop S E) (sig : S) :
    (l.raise sig).load h ≤ l.load h + (h + 5) := by
  have sum : (l.raise sig).raised + _ = l.raised + 1 := sum_update Bool.toNat l.pending sig true
  have le : (h + 5) * (l.raise sig).raised ≤ (h + 5) * (l.raised + 1) :=
    Nat.mul_le_mul_left _ (by omega)
  show (h + 5) * (l.raise sig).raised + _ + _ + _ ≤ (h + 5) * l.raised + _ + _ + _ + _
  rw [Nat.mul_add] at le
  dsimp only [SignalLoop.raise] at le ⊢
  omega

/-- A delivery takes off load. -/
lemma load_deliver (e : l.deliver cap sig = some l') : l'.load h < l.load h := by
  obtain ⟨pending, e⟩ := Option.ite_none_right_eq_some.mp e
  have sum := sum_update Bool.toNat l.pending sig false
  rw [pending] at sum
  have less :
      (h + 5) * l.raised = (h + 5) * (∑ sig', (Function.update l.pending sig false sig').toNat) +
      (h + 5) := by
    rw [raised, ← Nat.mul_succ]
    exact congrArg _ sum.symm
  rw [load, load, less]
  split at e
  · cases e
    have set : (l.pipe.push sig).event.toNat = 1 := rfl
    have more : h * (l.pipe.push sig).items.length = h * l.pipe.items.length + h := by
      rw [EdgeQueue.push, List.length_append, List.length_singleton, Nat.mul_succ]
    rw [set, more, raised]
    dsimp only
    omega
  · cases e
    rw [raised]
    dsimp only
    omega

/-- So does the set-up. -/
lemma load_setup [DecidableEq E] (e : l.setup = some l') : l'.load h < l.load h := by
  obtain ⟨starting, e⟩ := Option.dite_none_right_eq_some.mp e
  cases e
  rw [load, load, starting]
  exact Nat.lt_succ_self _

/-- A wait takes off the load of the event of the pipe, and adds that of the events. -/
lemma load_wait [DecidableEq E] (e : l.wait es = some l') :
    l'.load h + 4 * l.pipe.event.toNat = l.load h + 1 + 2 * es.length := by
  obtain ⟨ready, e⟩ := Option.dite_none_right_eq_some.mp e
  cases e
  rw [load, load, ready.1, Place.load, Place.load, Bool.toNat_false]
  show (h + 5) * l.raised + h * l.pipe.items.length + _ + _ + _ = _
  omega

end

end SignalLoop

end SweetClib.Lib
