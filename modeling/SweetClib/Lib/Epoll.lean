import Mathlib.Logic.Function.Basic
import Mathlib.Tactic

/-!
# epoll

The table of an epoll descriptor: for each descriptor an interest, whether it is still enabled, and
whether it is on the list of those that `epoll_wait` looks at. A descriptor comes on the list when
it is added or modified while something is ready, and when something happens on it (`wake`). `take`
is what `epoll_wait` does with one descriptor of its list: one that is level-triggered stays on the
list while it has events, an edge-triggered one leaves it, and a one-shot one is also disabled
until it is modified.

What is ready is not part of the table; it is given to the operations as a function of the
descriptor. `Attended` says that nothing is forgotten: a descriptor that is not in the hands of the
program is enabled, and on the list if it has events. It is kept by all operations, so that a
descriptor that is neither on the list nor in the hands of the program has no event
(`Attended.quiet`). What the program has to do for it is to read a descriptor empty
(`Attended.drained`) or to modify it (`Attended.mod`) before it lets go of it.
-/

namespace SweetClib.Lib.Epoll

variable {F : Type*}

/-- A set of events. -/
structure Events where
  input : Bool
  output : Bool
  error : Bool
  hangup : Bool
deriving DecidableEq, Repr

/-- No event. -/
def Events.none : Events := ⟨false, false, false, false⟩

/-- `EPOLLIN`. -/
def Events.onInput : Events := ⟨true, false, false, false⟩

/-- The events of either set. -/
def Events.join (r r' : Events) : Events :=
  ⟨r.input || r'.input, r.output || r'.output, r.error || r'.error, r.hangup || r'.hangup⟩

/-- What a program asks for: `EPOLLIN`, `EPOLLOUT`, `EPOLLET` and `EPOLLONESHOT`. -/
structure Interest where
  input : Bool
  output : Bool
  edge : Bool
  oneshot : Bool
deriving DecidableEq, Repr

/-- Neither edge-triggered nor one-shot. -/
def Interest.level (i : Interest) : Bool := !i.edge && !i.oneshot

/-- The events that are reported to one with this interest; errors and hang-ups always are. -/
def Interest.select (i : Interest) (r : Events) : Events :=
  ⟨i.input && r.input, i.output && r.output, r.error, r.hangup⟩

/-- What is selected of two sets of events. -/
lemma Interest.select_join (i : Interest) (r r' : Events) :
    i.select (r.join r') = (i.select r).join (i.select r') := by
  simp only [select, Events.join, Bool.and_or_distrib_left]

/-- Nothing is selected of nothing. -/
@[simp] lemma Interest.select_none (i : Interest) : i.select .none = .none := by
  simp only [select, Events.none, Bool.and_false]

/-- Errors and hang-ups are reported without being asked for. -/
lemma Interest.select_ne_none (i : Interest) (r : Events) : i.select r ≠ .none ↔
    (i.input = true ∧ r.input = true) ∨ (i.output = true ∧ r.output = true) ∨ r.error = true ∨
      r.hangup = true := by
  rw [ne_eq, select, Events.none, Events.mk.injEq]
  simp only [Bool.and_eq_false_iff, not_and_or, not_or, Bool.not_eq_false]

/-- An event of two sets is in one of them. -/
lemma Events.join_ne_none {r r' : Events} (ne : r.join r' ≠ .none) : r ≠ .none ∨ r' ≠ .none := by
  by_contra! both
  obtain ⟨rfl, rfl⟩ := both
  exact ne rfl

/-- A registered descriptor. -/
structure Entry where
  interest : Interest
  enabled : Bool
  listed : Bool
deriving DecidableEq, Repr

/-- What there is to report on an entry. -/
def Entry.report (e : Entry) (r : Events) : Events :=
  if e.enabled then e.interest.select r
  else .none

/-- Something happens on the descriptor. -/
def Entry.wake (e : Entry) (key : Events) : Entry :=
  { e with listed := e.listed || e.report key ≠ .none }

/-- The entry after `epoll_wait` has looked at it, where it reported `r`. -/
def Entry.after (e : Entry) (r : Events) : Entry :=
  if r = .none then { e with listed := false }
  else if e.interest.oneshot then { e with enabled := false, listed := false }
  else { e with listed := !e.interest.edge }

/-- The same interest is in a table at the same place. -/
lemma isSome_of_interest {e e' : Option Entry}
    (same : e.map Entry.interest = e'.map Entry.interest) : e.isSome = e'.isSome := by
  have := congrArg Option.isSome same
  rwa [Option.isSome_map, Option.isSome_map] at this

/-- A table of an epoll descriptor. -/
abbrev Table (F : Type*) := F → Option Entry

namespace Table

/-- The table of `epoll_create`. -/
def empty : Table F := fun _ => none

variable [DecidableEq F]

/-- `EPOLL_CTL_ADD`; there is no result where it fails with `EEXIST`. -/
def add (t : Table F) (ready : F → Events) (f : F) (i : Interest) : Option (Table F) :=
  match t f with
  | some _ => none
  | none => some (Function.update t f (some ⟨i, true, i.select (ready f) ≠ .none⟩))

/-- `EPOLL_CTL_MOD`; there is no result where it fails with `ENOENT`. -/
def mod (t : Table F) (ready : F → Events) (f : F) (i : Interest) : Option (Table F) :=
  match t f with
  | some e => some (Function.update t f (some ⟨i, true, e.listed || i.select (ready f) ≠ .none⟩))
  | none => none

/-- `EPOLL_CTL_DEL`, and what the last `close` of the descriptor does. -/
def remove (t : Table F) (f : F) : Table F := Function.update t f none

/-- Something happens on the descriptor. -/
def wake (t : Table F) (f : F) (key : Events) : Table F :=
  Function.update t f ((t f).map fun e => e.wake key)

/-- `epoll_wait` looks at a descriptor of its list, and reports the events. -/
def take (t : Table F) (ready : F → Events) (f : F) : Option (Events × Table F) :=
  match t f with
  | some e =>
    let r := e.report (ready f)
    if e.listed then some (r, Function.update t f (some (e.after r))) else none
  | none => none

/-- `EPOLL_CTL_ADD` of a descriptor that is not in the table. -/
lemma add_of_none {t : Table F} {f : F} (ready : F → Events) (i : Interest) (none : t f = none) :
    t.add ready f i = some (Function.update t f (some ⟨i, true, i.select (ready f) ≠ .none⟩)) := by
  rw [add, none]

/-- `EPOLL_CTL_MOD` of a descriptor that is in the table. -/
lemma mod_of_some {t : Table F} {f : F} {e : Entry} (ready : F → Events) (i : Interest)
    (at_f : t f = some e) :
    t.mod ready f i =
      some (Function.update t f (some ⟨i, true, e.listed || i.select (ready f) ≠ .none⟩)) := by
  rw [mod, at_f]

/-- A wake-up changes no interest. -/
lemma wake_interest (t : Table F) (f : F) (key : Events) (g : F) :
    (t.wake f key g).map Entry.interest = (t g).map Entry.interest := by
  rw [wake]
  by_cases same : g = f
  · subst same
    rw [Function.update_self, Option.map_map]
    rfl
  · rw [Function.update_of_ne same]

/-- What a wait does with one descriptor. -/
lemma take_eq_some {t t' : Table F} {ready : F → Events} {f : F} {r : Events}
    (st : t.take ready f = some (r, t')) :
    ∃ e, t f = some e ∧ e.listed = true ∧ r = e.report (ready f) ∧
      t' = Function.update t f (some (e.after r)) := by
  rw [take] at st
  split at st
  · rename_i e at_f
    obtain ⟨listed, st⟩ := Option.ite_none_right_eq_some.mp st
    obtain ⟨rfl, rfl⟩ := Prod.mk.inj (Option.some.inj st)
    exact ⟨e, at_f, listed, rfl, rfl⟩
  · cases st

/-- It changes no interest. -/
lemma take_interest {t t' : Table F} {ready : F → Events} {f : F} {r : Events}
    (st : t.take ready f = some (r, t')) (g : F) :
    (t' g).map Entry.interest = (t g).map Entry.interest := by
  obtain ⟨e, at_f, _, _, rfl⟩ := take_eq_some st
  by_cases same : g = f
  · subst same
    rw [Function.update_self, at_f, Option.map_some, Option.map_some, Entry.after]
    split
    · rfl
    · split <;> rfl
  · rw [Function.update_of_ne same]

/-- `epoll_wait` looks at some descriptors of its list, and returns the events. -/
def wait (t : Table F) (ready : F → Events) : List F → Option (List (F × Events) × Table F)
  | [] => some ([], t)
  | f :: fs =>
    (t.take ready f).bind fun a =>
      (wait a.2 ready fs).map fun w => (if a.1 = .none then w.1 else (f, a.1) :: w.1, w.2)

/-- A wait takes one descriptor after the other. -/
lemma wait_cons {t t' : Table F} {ready : F → Events} {f : F} {fs : List F}
    {events : List (F × Events)} (st : t.wait ready (f :: fs) = some (events, t')) :
    ∃ r t₁ others, t.take ready f = some (r, t₁) ∧ t₁.wait ready fs = some (others, t') ∧
      events = if r = .none then others else (f, r) :: others := by
  obtain ⟨⟨r, t₁⟩, took, rest⟩ := Option.bind_eq_some_iff.mp st
  obtain ⟨⟨others, t₂⟩, waited, res⟩ := Option.map_eq_some_iff.mp rest
  obtain ⟨rfl, rfl⟩ := Prod.mk.inj res
  exact ⟨r, t₁, others, took, waited, rfl⟩

/-- A wait changes no interest. -/
lemma wait_interest {t t' : Table F} {ready : F → Events} {fs : List F}
    {events : List (F × Events)} (st : t.wait ready fs = some (events, t')) (g : F) :
    (t' g).map Entry.interest = (t g).map Entry.interest := by
  induction fs generalizing t events with
  | nil =>
    cases st
    rfl
  | cons f fs ih =>
    obtain ⟨r, t₁, others, took, waited, rfl⟩ := wait_cons st
    rw [ih waited, take_interest took]

/-- Each descriptor is reported once. -/
lemma wait_sublist {t t' : Table F} {ready : F → Events} {fs : List F} {events : List (F × Events)}
    (st : t.wait ready fs = some (events, t')) : (events.map Prod.fst).Sublist fs := by
  induction fs generalizing t events with
  | nil =>
    cases st
    exact .slnil
  | cons f fs ih =>
    obtain ⟨r, t₁, others, took, waited, rfl⟩ := wait_cons st
    split
    · exact (ih waited).cons _
    · exact (ih waited).cons_cons _

/-- A descriptor that is not one-shot stays enabled. -/
lemma wait_enabled {t t' : Table F} {ready : F → Events} {fs : List F} {events : List (F × Events)}
    (st : t.wait ready fs = some (events, t'))
    (on : ∀ f e, t f = some e → e.interest.oneshot = false ∧ e.enabled = true) :
    ∀ f e, t' f = some e → e.interest.oneshot = false ∧ e.enabled = true := by
  induction fs generalizing t events with
  | nil =>
    cases st
    exact on
  | cons g fs ih =>
    obtain ⟨r, t₁, others, took, waited, rfl⟩ := wait_cons st
    refine ih waited fun f e at_f => ?_
    obtain ⟨e₀, at_g, _, _, rfl⟩ := take_eq_some took
    by_cases same : f = g
    · subst same
      rw [Function.update_self] at at_f
      cases at_f
      obtain ⟨many, enabled⟩ := on f e₀ at_g
      rw [Entry.after]
      split
      · exact ⟨many, enabled⟩
      · rw [if_neg (by rw [many]; exact Bool.false_ne_true)]
        exact ⟨many, enabled⟩
    · rw [Function.update_of_ne same] at at_f
      exact on f e at_f

/-- 1 for an enabled descriptor, and 0 for others. -/
def armed (t : Table F) (f : F) : Nat :=
  match t f with
  | some e => e.enabled.toNat
  | none => 0

/-- The descriptor whose entry was changed. -/
@[simp] lemma armed_update_self (t : Table F) (f : F) (e : Entry) :
    armed (Function.update t f (some e)) f = e.enabled.toNat := by
  rw [armed, Function.update_self]

/-- The other descriptors are armed as before. -/
lemma armed_update_of_ne (t : Table F) {f g : F} (ne : g ≠ f) (e : Option Entry) :
    armed (Function.update t f e) g = armed t g := by
  rw [armed, armed, Function.update_of_ne ne]

/-- A wake-up arms nothing. -/
@[simp] lemma armed_wake (t : Table F) (f : F) (key : Events) (g : F) :
    armed (t.wake f key) g = armed t g := by
  rw [wake]
  by_cases same : g = f
  · subst same
    rw [armed, armed, Function.update_self]
    cases t g <;> rfl
  · exact armed_update_of_ne t same _

/-- A report on a one-shot descriptor disarms it. -/
lemma take_armed {t t' : Table F} {ready : F → Events} {f : F} {r : Events}
    (st : t.take ready f = some (r, t')) (oneshot : ∀ e, t f = some e → e.interest.oneshot = true) :
    t'.armed f + (if r = .none then 0 else 1) = t.armed f := by
  obtain ⟨e, at_f, _, rfl, rfl⟩ := take_eq_some st
  have here : t.armed f = e.enabled.toNat := by rw [armed, at_f]
  rw [armed_update_self, here, Entry.after, if_pos (oneshot e at_f), Entry.report]
  cases e.enabled with
  | false => rfl
  | true =>
    rw [if_pos rfl]
    split <;> rfl

/-- A one-shot descriptor is reported as often as it is disarmed. -/
lemma wait_armed {t t' : Table F} {ready : F → Events} {fs : List F} {events : List (F × Events)}
    {f : F} (st : t.wait ready fs = some (events, t'))
    (oneshot : ∀ e, t f = some e → e.interest.oneshot = true) :
    t'.armed f + events.countP (fun ev => ev.1 = f) = t.armed f := by
  induction fs generalizing t events with
  | nil =>
    cases st
    rfl
  | cons g fs ih =>
    obtain ⟨r, t₁, others, took, waited, rfl⟩ := wait_cons st
    have still : ∀ e, t₁ f = some e → e.interest.oneshot = true := by
      intro e at_f
      have same := take_interest took f
      rw [at_f] at same
      obtain ⟨e₀, at_f, interest⟩ := Option.map_eq_some_iff.mp same.symm
      rw [← interest]
      exact oneshot e₀ at_f
    have later := ih waited still
    by_cases here : g = f
    · subst here
      have now := take_armed took oneshot
      split at now <;> rename_i none
      · rw [if_pos none]
        omega
      · rw [if_neg none, List.countP_cons_of_pos (by simp)]
        omega
    · have other : t₁.armed f = t.armed f := by
        obtain ⟨e, _, _, _, rfl⟩ := take_eq_some took
        exact armed_update_of_ne t (Ne.symm here) _
      split
      · omega
      · rw [List.countP_cons_of_neg (by simpa using here)]
        omega

/-- What is reported is some of what is ready. -/
lemma wait_reports {t t' : Table F} {ready : F → Events} {fs : List F} {events : List (F × Events)}
    (st : t.wait ready fs = some (events, t')) {f : F} {r : Events} (mem : (f, r) ∈ events) :
    r ≠ .none ∧ ∃ i, (t f).map Entry.interest = some i ∧ r = i.select (ready f) := by
  induction fs generalizing t events with
  | nil =>
    cases st
    cases mem
  | cons g fs ih =>
    obtain ⟨r', t₁, others, took, waited, rfl⟩ := wait_cons st
    have later : (f, r) ∈ others → _ := fun mem => take_interest took f ▸ ih waited mem
    split at mem
    · exact later mem
    · rename_i some
      rcases List.mem_cons.mp mem with now | mem
      · obtain ⟨rfl, rfl⟩ := Prod.mk.inj now
        obtain ⟨e, at_f, _, report, _⟩ := take_eq_some took
        refine ⟨some, e.interest, by rw [at_f]; rfl, ?_⟩
        rw [Entry.report] at report
        split at report
        · exact report
        · exact absurd report some
      · exact later mem

end Table

/-- Each registered descriptor that is not in the hands of the program is enabled, and on the list
if it has events. -/
def Attended (t : Table F) (ready : F → Events) (busy : F → Prop) : Prop :=
  ∀ f e, t f = some e → ¬busy f → e.enabled = true ∧
    (e.interest.select (ready f) ≠ .none → e.listed = true)

section Attended

variable {t t' : Table F} {ready ready' : F → Events} {busy busy' : F → Prop} {f : F} {i : Interest}
  {r : Events} {e : Entry}

/-- Nothing is in the table at the start. -/
lemma Attended.empty : Attended (Table.empty : Table F) ready busy := nofun

/-- It is enough that more is in the hands of the program, or less is ready. -/
lemma Attended.mono (att : Attended t ready busy) (more : ∀ f e, t f = some e → busy f → busy' f)
    (less : ∀ f e, t f = some e → ¬busy' f → e.interest.select (ready' f) ≠ .none →
      e.interest.select (ready f) ≠ .none) : Attended t ready' busy' := by
  intro f e at_f free
  obtain ⟨on, listed⟩ := att f e at_f fun b => free (more f e at_f b)
  exact ⟨on, fun ne => listed (less f e at_f free ne)⟩

/-- Where nothing is ready on it, an enabled descriptor can be let go. -/
lemma Attended.drained (att : Attended t ready busy) (at_f : t f = some e) (on : e.enabled = true)
    (dry : e.interest.select (ready f) = .none) : Attended t ready fun g => busy g ∧ g ≠ f := by
  intro g e' at_g free
  by_cases same : g = f
  · subst same
    cases at_f.symm.trans at_g
    exact ⟨on, fun ne => absurd dry ne⟩
  · exact att g e' at_g fun b => free ⟨b, same⟩

/-- A descriptor that is not on the list and not in the hands of the program has no event. -/
lemma Attended.quiet (att : Attended t ready busy) (at_f : t f = some e) (free : ¬busy f)
    (idle : e.listed = false) : e.interest.select (ready f) = .none := by
  by_contra ne
  have listed := (att f e at_f free).2 ne
  rw [idle] at listed
  cases listed

variable [DecidableEq F]

/-- An entry that is set keeps the others attended. -/
lemma Attended.update (att : Attended t ready busy) (busy_f : ∀ g, g ≠ f → busy g → busy' g)
    (new : ¬busy' f → e.enabled = true ∧ (e.interest.select (ready f) ≠ .none → e.listed = true)) :
    Attended (Function.update t f (some e)) ready busy' := by
  intro g e' at_g free
  by_cases same : g = f
  · subst same
    rw [Function.update_self] at at_g
    cases at_g
    exact new free
  · rw [Function.update_of_ne same] at at_g
    exact att g e' at_g fun b => free (busy_f g same b)

/-- A descriptor that is added is listed if it is ready. -/
lemma Attended.add (att : Attended t ready busy) (st : t.add ready f i = some t') :
    Attended t' ready busy := by
  rw [Table.add] at st
  split at st
  · cases st
  · cases st
    exact att.update (fun _ _ b => b) fun _ => ⟨rfl, fun ne => decide_eq_true ne⟩

/-- A descriptor that is modified can be let go. -/
lemma Attended.mod (att : Attended t ready busy) (st : t.mod ready f i = some t') :
    Attended t' ready fun g => busy g ∧ g ≠ f := by
  rw [Table.mod] at st
  split at st
  · cases st
    exact att.update (fun _ ne b => ⟨b, ne⟩) fun _ =>
      ⟨rfl, fun ne => by
        simp only [ne, ne_eq, decide_not, decide_false, Bool.not_false, Bool.or_true]⟩
  · cases st

/-- A descriptor that is removed is in nobody's hands. -/
lemma Attended.remove (att : Attended t ready busy) (f : F) :
    Attended (t.remove f) ready fun g => busy g ∧ g ≠ f := by
  intro g e at_g free
  rw [Table.remove] at at_g
  by_cases same : g = f
  · subst same
    rw [Function.update_self] at at_g
    cases at_g
  · rw [Function.update_of_ne same] at at_g
    exact att g e at_g fun b => free ⟨b, same⟩

/-- What gets ready on a descriptor wakes it. -/
lemma Attended.wake (att : Attended t ready busy) (f : F) (key : Events) :
    Attended (t.wake f key) (Function.update ready f ((ready f).join key)) busy := by
  intro g e at_g free
  rw [Table.wake] at at_g
  by_cases same : g = f
  · subst same
    rw [Function.update_self] at at_g
    rw [Function.update_self, Interest.select_join]
    obtain ⟨e₀, at_f, rfl⟩ := Option.map_eq_some_iff.mp at_g
    obtain ⟨on, listed⟩ := att g e₀ at_f free
    refine ⟨on, fun ne => (Bool.or_eq_true _ _).mpr ?_⟩
    rw [Entry.report, if_pos on]
    exact (Events.join_ne_none ne).imp listed decide_eq_true
  · rw [Function.update_of_ne same] at at_g
    rw [Function.update_of_ne same]
    exact att g e at_g free

/-- What `epoll_wait` reports, it hands over to the program, except where it stays on the list. -/
lemma Attended.take (att : Attended t ready busy) (st : t.take ready f = some (r, t')) :
    Attended t' ready fun g => busy g ∨
      (g = f ∧ r ≠ .none ∧ ∃ e, t f = some e ∧ e.interest.level = false) := by
  obtain ⟨e, at_f, listed, rfl, rfl⟩ := Table.take_eq_some st
  refine att.update (fun _ _ => Or.inl) fun free => ?_
  obtain ⟨on, _⟩ := att f e at_f fun b => free (.inl b)
  rw [Entry.after]
  split
  · rename_i none
    rw [Entry.report, if_pos on] at none
    exact ⟨on, fun ne => absurd none ne⟩
  · rename_i some
    have level : e.interest.level = true := by
      by_contra not
      exact free (.inr ⟨rfl, some, e, at_f, Bool.eq_false_of_not_eq_true not⟩)
    obtain ⟨edge, oneshot⟩ := (Bool.and_eq_true _ _).mp level
    rw [if_neg (by simpa using oneshot)]
    exact ⟨on, fun _ => edge⟩

/-- A wait puts the descriptors of the edge-triggered events into the hands of the program. -/
lemma Attended.wait {fs : List F} {events : List (F × Events)} (att : Attended t ready busy)
    (st : t.wait ready fs = some (events, t')) :
    Attended t' ready fun g => busy g ∨
      ((∃ r, (g, r) ∈ events) ∧ ∃ e, t g = some e ∧ e.interest.level = false) := by
  induction fs generalizing t busy events with
  | nil =>
    cases st
    exact att.mono (fun _ _ _ => Or.inl) fun _ _ _ _ ne => ne
  | cons f fs ih =>
    obtain ⟨r, t₁, others, took, waited, rfl⟩ := Table.wait_cons st
    refine (ih (att.take took) waited).mono (fun g _ _ => ?_) fun _ _ _ _ ne => ne
    rintro ((b | ⟨rfl, ne, hand⟩) | ⟨⟨r', mem⟩, e, at_g, hand⟩)
    · exact .inl b
    · exact .inr ⟨⟨r, by rw [if_neg ne]; exact .head _⟩, hand⟩
    · have same := Table.take_interest took g
      rw [at_g] at same
      obtain ⟨e₀, at_g, interest⟩ := Option.map_eq_some_iff.mp same.symm
      refine .inr ⟨⟨r', ?_⟩, e₀, at_g, interest ▸ hand⟩
      split
      · exact mem
      · exact .tail _ mem

end Attended

end SweetClib.Lib.Epoll
