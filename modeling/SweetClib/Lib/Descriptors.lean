import SweetClib.Lib.Epoll

/-!
# Descriptors and epoll

The open descriptors of a process, each with the state of what is open there, and the table of one
epoll descriptor over them. `poll` says what is ready on an open file. `Sound` joins what programs
need of the kernel: only open descriptors are registered, and the table is `Attended`. Each
operation keeps it; an operation that a program uses to let go of a descriptor takes it out of its
hands.
-/

namespace SweetClib.Lib.Epoll

variable {F C : Type*}

/-- What is open, and the table. -/
structure Kernel (F C : Type*) where
  table : Table F
  files : F → Option C

/-- A listening socket with the connections that wait to be accepted, or a connection. -/
inductive Sock (C : Type*) where
  | listening (backlog : Nat)
  | conn (c : C)

/-- A connection. -/
def Sock.isConn : Sock C → Bool
  | .listening _ => false
  | .conn _ => true

/-- Input is all there is to wait for on sockets that a program only reads. -/
def Sock.poll (ready : C → Bool) : Sock C → Events
  | .listening backlog => ⟨0 < backlog, false, false, false⟩
  | .conn c => ⟨ready c, false, false, false⟩

/-- A socket is reported for input only. -/
lemma Sock.select_poll {ready : C → Bool} {i : Interest} {f : Sock C} :
    i.select (f.poll ready) ≠ .none ↔ i.input = true ∧ (f.poll ready).input = true := by
  rw [Interest.select_ne_none]
  cases f <;> simp only [poll, Bool.false_eq_true, and_false, or_false]

namespace Kernel

/-- What is ready on a descriptor. -/
def ready (poll : C → Events) (k : Kernel F C) (f : F) : Events := (k.files f).elim .none poll

/-- The readiness of an open descriptor is that of its file. -/
lemma ready_of_files {poll : C → Events} {k : Kernel F C} {f : F} {c : C}
    (at_f : k.files f = some c) : k.ready poll f = poll c := by
  rw [ready, at_f, Option.elim_some]

variable [DecidableEq F]

/-- A file is opened, or the program changes its state. -/
def put (k : Kernel F C) (f : F) (c : C) :
    Kernel F C := { k with files := Function.update k.files f (some c) }

/-- The state of a file changes from outside, where `key` gets ready. -/
def arrive (k : Kernel F C) (f : F) (c : C) (key : Events) :
    Kernel F C := { k.put f c with table := k.table.wake f key }

/-- `close`. -/
def close (k : Kernel F C) (f : F) :
    Kernel F C := ⟨k.table.remove f, Function.update k.files f none⟩

section Calls

variable (poll : C → Events) (k : Kernel F C) (f : F) (i : Interest)

/-- `epoll_ctl` with `EPOLL_CTL_ADD`, where its result is not looked at. -/
def add : Kernel F C := { k with table := (k.table.add (k.ready poll) f i).getD k.table }

/-- `epoll_ctl` with `EPOLL_CTL_MOD`, where its result is not looked at. -/
def mod : Kernel F C := { k with table := (k.table.mod (k.ready poll) f i).getD k.table }

/-- `epoll_wait`, where it looks at the descriptors `fs` of its list. -/
def wait (fs : List F) : Option (List (F × Events) × Kernel F C) :=
  (k.table.wait (k.ready poll) fs).map fun w => (w.1, { k with table := w.2 })

end Calls

variable {poll : C → Events} {k k' : Kernel F C} {f g : F} {c c' : C} {i : Interest} {key : Events}

/-- The file that was put in. -/
@[simp] lemma put_files_self : (k.put f c).files f = some c := Function.update_self _ _ _

/-- The other files are as before. -/
lemma put_files_of_ne (ne : g ≠ f) : (k.put f c).files g = k.files g := Function.update_of_ne ne _ _

/-- A file stays open when its state changes. -/
lemma put_isSome (open_f : k.files f = some c') (g : F) :
    ((k.put f c).files g).isSome = (k.files g).isSome := by
  by_cases same : g = f
  · rw [same, put_files_self, open_f]
    rfl
  · rw [put_files_of_ne same]

/-- What was open is open. -/
lemma put_ne_none (open_g : k.files g = some c') : (k.put f c).files g ≠ none := by
  by_cases same : g = f
  · rw [same, put_files_self]
    nofun
  · rw [put_files_of_ne same, open_g]
    nofun

/-- What was closed is closed. -/
@[simp] lemma close_files_self : (k.close f).files f = none := Function.update_self _ _ _

/-- The other files stay open. -/
lemma close_files_of_ne (ne : g ≠ f) :
    (k.close f).files g = k.files g := Function.update_of_ne ne _ _

/-- The readiness of the others is as before. -/
lemma ready_put_of_ne (ne : g ≠ f) : (k.put f c).ready poll g = k.ready poll g := by
  rw [ready, put_files_of_ne ne, ready]

/-- `EPOLL_CTL_ADD` of a descriptor that is not in the table. -/
lemma add_table (none : k.table f = none) : (k.add poll f i).table =
    Function.update k.table f (some ⟨i, true, i.select (k.ready poll f) ≠ .none⟩) := by
  rw [add, Table.add_of_none _ _ none, Option.getD_some]

/-- `EPOLL_CTL_MOD` of a descriptor that is in the table. -/
lemma mod_table {e : Entry} (at_f : k.table f = some e) : (k.mod poll f i).table =
    Function.update k.table f (some ⟨i, true, e.listed || i.select (k.ready poll f) ≠ .none⟩) := by
  rw [mod, Table.mod_of_some _ _ at_f, Option.getD_some]

/-- A wait is one of the table, with the files as they are. -/
lemma wait_eq_some {fs : List F} {events : List (F × Events)}
    (st : k.wait poll fs = some (events, k')) :
    k.table.wait (k.ready poll) fs = some (events, k'.table) ∧ k'.files = k.files := by
  obtain ⟨w, waited, res⟩ := Option.map_eq_some_iff.mp st
  cases res
  exact ⟨waited, rfl⟩

end Kernel

/-- Only open descriptors are registered, and nothing is forgotten that is not in the hands of the
program. -/
structure Sound (poll : C → Events) (k : Kernel F C) (busy : F → Prop) : Prop where
  opened : ∀ f, k.files f = none → k.table f = none
  attended : Attended k.table (k.ready poll) busy

namespace Sound

variable {poll : C → Events} {k k' : Kernel F C} {busy busy' : F → Prop} {f : F} {c c' : C}
  {i : Interest} {key : Events}

/-- More descriptors in the hands of the program do no harm. -/
lemma mono (sound : Sound poll k busy) (more : ∀ f, (k.table f).isSome = true → busy f → busy' f) :
    Sound poll k busy' :=
  ⟨sound.opened,
    sound.attended.mono (fun f _ at_f => more f (by rw [at_f]; rfl)) fun _ _ _ _ ne => ne⟩

/-- Nothing is in the table of a new kernel. -/
lemma empty :
    Sound poll (⟨Table.empty, fun _ => none⟩ : Kernel F C) busy := ⟨fun _ _ => rfl, .empty⟩

/-- A descriptor in the table is open. -/
lemma files_isSome (sound : Sound poll k busy) {e : Entry} (at_f : k.table f = some e) :
    ∃ c, k.files f = some c := by
  cases files : k.files f with
  | none => cases (sound.opened f files).symm.trans at_f
  | some c => exact ⟨c, rfl⟩

/-- Where a descriptor is neither on the list nor in the hands of the program, nothing is ready on
it. -/
lemma quiet (sound : Sound poll k busy) {e : Entry} (at_f : k.table f = some e)
    (open_f : k.files f = some c) (free : ¬busy f) (idle : e.listed = false) :
    e.interest.select (poll c) = .none := by
  have dry := sound.attended.quiet at_f free idle
  rwa [Kernel.ready_of_files open_f] at dry

/-- A descriptor on which nothing is ready can be let go. -/
lemma drained (sound : Sound poll k busy) {e : Entry} (at_f : k.table f = some e)
    (open_f : k.files f = some c) (on : e.enabled = true)
    (dry : e.interest.select (poll c) = .none) : Sound poll k fun g => busy g ∧ g ≠ f :=
  ⟨sound.opened, sound.attended.drained at_f on (by rwa [Kernel.ready_of_files open_f])⟩

variable [DecidableEq F]

/-- The program changes the state of a file that nobody waits for, or that it has in its hands. -/
lemma put (sound : Sound poll k busy) (hand : k.table f = none ∨ busy f) :
    Sound poll (k.put f c) busy := by
  refine ⟨fun g closed => ?_, sound.attended.mono (fun _ _ _ b => b) fun g e at_g free some => ?_⟩
  · by_cases same : g = f
    · subst same
      rw [Kernel.put_files_self] at closed
      cases closed
    · rw [Kernel.put_files_of_ne same] at closed
      exact sound.opened g closed
  · have other : g ≠ f := by
      rintro rfl
      rcases hand with none | b
      · cases none.symm.trans at_g
      · exact free b
    rwa [Kernel.ready_put_of_ne other] at some

/-- The program changes the state of a file so that less is ready. -/
lemma less (sound : Sound poll k busy) (open_f : k.files f = some c)
    (less : ∀ i : Interest, i.select (poll c') ≠ .none → i.select (poll c) ≠ .none) :
    Sound poll (k.put f c') busy := by
  refine ⟨fun g closed => ?_, sound.attended.mono (fun _ _ _ b => b) fun g e _ _ some => ?_⟩
  · have same := Kernel.put_isSome (c := c') open_f g
    rw [closed] at same
    exact sound.opened g (Option.isSome_eq_false_iff.mp same.symm |> Option.isNone_iff_eq_none.mp)
  · by_cases same : g = f
    · subst same
      rw [Kernel.ready_of_files Kernel.put_files_self] at some
      rw [Kernel.ready_of_files open_f]
      exact less _ some
    · rwa [Kernel.ready_put_of_ne same] at some

/-- Something happens on an open file. -/
lemma arrive (sound : Sound poll k busy) (open_f : k.files f = some c)
    (gets : ∀ i : Interest, i.select (poll c') ≠ .none → i.select ((poll c).join key) ≠ .none) :
    Sound poll (k.arrive f c' key) busy := by
  refine ⟨fun g closed => ?_,
    (sound.attended.wake f key).mono (fun _ _ _ b => b) fun g e _ _ some => ?_⟩
  · by_cases same : g = f
    · subst same
      cases closed.symm.trans Kernel.put_files_self
    · have none := sound.opened g ((Kernel.put_files_of_ne same).symm.trans closed)
      show Function.update k.table f _ g = _
      rw [Function.update_of_ne same]
      exact none
  · by_cases same : g = f
    · subst same
      rw [Function.update_self, Kernel.ready_of_files open_f]
      have now : (k.arrive g c' key).ready poll g = poll c' :=
        Kernel.ready_of_files Kernel.put_files_self
      exact gets _ (now ▸ some)
    · rw [Function.update_of_ne same]
      exact Kernel.ready_put_of_ne same ▸ some

/-- An open descriptor can be added. -/
lemma add (sound : Sound poll k busy) (open_f : k.files f = some c) :
    Sound poll (k.add poll f i) busy := by
  cases st : k.table.add (k.ready poll) f i with
  | none => rwa [Kernel.add, st]
  | some t =>
    refine ⟨fun g closed => ?_, ?_⟩
    · have other : g ≠ f := by
        rintro rfl
        cases open_f.symm.trans closed
      rw [Table.add] at st
      split at st
      · cases st
      · cases st
        rw [Kernel.add_table ‹_›, Function.update_of_ne other]
        exact sound.opened g closed
    · show Attended ((k.table.add (k.ready poll) f i).getD k.table) _ _
      rw [st]
      exact sound.attended.add st

/-- A descriptor that is modified can be let go. -/
lemma mod (sound : Sound poll k busy) {e : Entry} (at_f : k.table f = some e) :
    Sound poll (k.mod poll f i) fun g => busy g ∧ g ≠ f := by
  refine ⟨fun g closed => ?_, ?_⟩
  · have other : g ≠ f := by
      rintro rfl
      cases (sound.opened g closed).symm.trans at_f
    rw [Kernel.mod_table at_f, Function.update_of_ne other]
    exact sound.opened g closed
  · rw [Kernel.mod_table at_f]
    exact sound.attended.mod (Table.mod_of_some _ _ at_f)

/-- A closed descriptor is in nobody's hands. -/
lemma close (sound : Sound poll k busy) (f : F) :
    Sound poll (k.close f) fun g => busy g ∧ g ≠ f := by
  refine ⟨fun g closed => ?_,
    (sound.attended.remove f).mono (fun _ _ _ b => b) fun g e at_g _ some => ?_⟩
  · show Function.update k.table f none g = none
    by_cases same : g = f
    · rw [same, Function.update_self]
    · rw [Function.update_of_ne same]
      exact sound.opened g ((Kernel.close_files_of_ne same).symm.trans closed)
  · have other : g ≠ f := by
      rintro rfl
      cases (Function.update_self _ _ _).symm.trans at_g
    rwa [Kernel.ready, Kernel.close_files_of_ne other] at some

/-- A wait puts the descriptors of the edge-triggered events into the hands of the program. -/
lemma wait (sound : Sound poll k busy) {fs : List F} {events : List (F × Events)}
    (st : k.wait poll fs = some (events, k')) : Sound poll k' fun g =>
      busy g ∨ ((∃ r, (g, r) ∈ events) ∧ ∃ e, k.table g = some e ∧ e.interest.level = false) := by
  obtain ⟨waited, files⟩ := Kernel.wait_eq_some st
  refine ⟨fun g closed => ?_, ?_⟩
  · have none := sound.opened g (files ▸ closed)
    have same := Table.wait_interest waited g
    rw [none] at same
    exact Option.map_eq_none_iff.mp same
  · have att := sound.attended.wait waited
    have ready : k'.ready poll = k.ready poll := by
      funext g
      rw [Kernel.ready, Kernel.ready, files]
    rwa [ready]

end Sound

end SweetClib.Lib.Epoll
