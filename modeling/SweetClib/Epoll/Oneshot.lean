import SweetClib.Lib.Descriptors
import SweetClib.Lib.Run
import SweetClib.Lib.ByteStream

/-!
# The one-shot server

`lib/epoll/test_epolloneshot.c`: the main thread accepts connections and starts a thread for each
connection that has something to read; the connections are registered one-shot, so that no second
thread is started for one of them before the first has read it empty and called `reset_oneshot`. A
step is one call of the main loop or of a thread on something shared: the table of the epoll
descriptor, the connections, or the variable `fds_for_new_worker` of the main loop, of which
threads are given the address.

The source declares `typedef enum {true=1,false=2} bool`. A test of `false` succeeds, and the
listening socket is registered one-shot as well.

Connections are reset like they are closed. `pthread_create` succeeds. What a connection has sent
before it is accepted is given with the result of `accept`.

C → Lean naming: `fds_for_new_worker.sockfd` → `slot`, the loop of `worker` → `Thread`.
-/

namespace SweetClib.Epoll.Oneshot
open SweetClib.Lib SweetClib.Lib.Epoll

/-- The type `bool` of the source. -/
inductive CBool where
  | true
  | false
deriving DecidableEq

/-- The value of an enumerator. -/
def CBool.value : CBool → Nat
  | .true => 1
  | .false => 2

def BUFFER_SIZE : Nat := 1024

def MAX_EVENT_NUMBER : Nat := 1024

/-- A thread that runs `worker`: before it reads its argument, in its loop, after `EAGAIN`, after
the end of the stream, or returned. -/
inductive Thread where
  | created
  | reading (sockfd : Nat)
  | again (sockfd : Nat)
  | closing (sockfd : Nat)
  | ended
deriving DecidableEq

/-- The thread has not returned. -/
def Thread.live : Thread → Bool
  | .ended => false
  | _ => true

/-- The socket of a thread, where `fds_for_new_worker` holds `slot`. -/
def Thread.target (slot : Nat) : Thread → Nat
  | .reading sockfd => sockfd
  | .again sockfd => sockfd
  | .closing sockfd => sockfd
  | _ => slot

/-- The server. -/
structure Server where
  kernel : Kernel Nat (Sock (ByteStream UInt8))
  events : List (Nat × Events)
  slot : Nat
  threads : List Thread
  accepted : List Nat

/-- The steps of peers, of the main thread and of the other threads. -/
inductive Action where
  | connect
  | write (f : Nat) (bs : List UInt8)
  | finish (f : Nat)
  | wait (fs : List Nat)
  | handle (conn : Option (Nat × List UInt8 × Bool))
  | start (i : Nat)
  | recv (i k : Nat)
  | error (i : Nat)
  | reset (i : Nat)
  | close (i : Nat)

/-- What `addfd` and `reset_oneshot` ask for. -/
def interest (oneshot : Bool) : Interest := ⟨true, false, true, oneshot⟩

/-- What is ready on a socket. -/
def poll : Sock (ByteStream UInt8) → Events := Sock.poll ByteStream.ready

/-- `addfd`; the result of `epoll_ctl` is not looked at. -/
def addfd (k : Kernel Nat (Sock (ByteStream UInt8))) (fd : Nat) (oneshot : CBool) :
    Kernel Nat (Sock (ByteStream UInt8)) :=
  k.add poll fd (interest (oneshot.value ≠ 0))

def resetOneshot (k : Kernel Nat (Sock (ByteStream UInt8))) (fd : Nat) :
    Kernel Nat (Sock (ByteStream UInt8)) :=
  k.mod poll fd (interest true)

/-- The thread with number `i` goes on. -/
def setThread (s : Server) (i : Nat) (th : Thread) : Server :=
  { s with threads := s.threads.set i th }

section Program

variable (listenfd : Nat)

/-- The main loop with the next event; `conn` is the result of `accept` and the connection. -/
def handle (s : Server) (conn : Option (Nat × List UInt8 × Bool)) : Option Server :=
  match s.events with
  | [] => none
  | (sockfd, r) :: events =>
    if sockfd = listenfd then
      match conn, s.kernel.files listenfd with
      -- `addfd` of the result -1 does nothing
      | none, _ => some { s with events }
      | some (connfd, early, ended), some (.listening (backlog + 1)) =>
        if s.kernel.files connfd = none then
          let kernel :=
            (s.kernel.put listenfd (.listening backlog)).put connfd (.conn (.fresh early ended))
          some { s with
            events, kernel := addfd kernel connfd .true, accepted := s.accepted ++ [connfd] }
        else none
      | _, _ => none
    else if r.input then some { s with events, slot := sockfd, threads := s.threads ++ [.created] }
    else some { s with events }

/-- A step; there is none where it cannot be taken. -/
def oneshotStep (s : Server) : Action → Option Server
  | .connect =>
    match s.kernel.files listenfd with
    | some (.listening backlog) =>
      some { s with kernel := s.kernel.arrive listenfd (.listening (backlog + 1)) .onInput }
    | _ => none
  | .write f bs =>
    match s.kernel.files f with
    | some (.conn st) =>
      (st.write bs).map fun st => { s with kernel := s.kernel.arrive f (.conn st) .onInput }
    | _ => none
  | .finish f =>
    match s.kernel.files f with
    | some (.conn st) => some { s with kernel := s.kernel.arrive f (.conn st.finish) .onInput }
    | _ => none
  | .wait fs =>
    if s.events = [] ∧ fs.length ≤ MAX_EVENT_NUMBER then
      (s.kernel.wait poll fs).map fun w => { s with events := w.1, kernel := w.2 }
    else none
  | .handle conn => handle listenfd s conn
  | .start i =>
    if s.threads[i]? = some .created then some (setThread s i (.reading s.slot)) else none
  | .recv i k =>
    match s.threads[i]? with
    | some (.reading sockfd) =>
      match s.kernel.files sockfd with
      | some (.conn st) =>
        let a := st.recv (BUFFER_SIZE - 1) k
        match a.1 with
        | .bytes _ => some { s with kernel := s.kernel.put sockfd (.conn a.2) }
        | .eof => some (setThread s i (.closing sockfd))
        | .again => some (setThread s i (.again sockfd))
      -- `EBADF` or `ENOTCONN`
      | _ => some s
    | _ => none
  -- any other error of `recv`
  | .error i =>
    match s.threads[i]? with
    | some (.reading _) => some s
    | _ => none
  | .reset i =>
    match s.threads[i]? with
    | some (.again sockfd) =>
      some (setThread { s with kernel := resetOneshot s.kernel sockfd } i .ended)
    | _ => none
  | .close i =>
    match s.threads[i]? with
    | some (.closing sockfd) => some (setThread { s with kernel := s.kernel.close sockfd } i .ended)
    | _ => none

/-- The transitions. -/
def OneshotTrans (s : Server) (a : Action) (s' : Server) : Prop :=
  oneshotStep listenfd s a = some s'

/-- The server after `addfd(epollfd, listenfd, false)`; the variable `slot` is not initialised. -/
def oneshotNew (slot : Nat) : Server where
  kernel := addfd (Kernel.put ⟨.empty, fun _ => none⟩ listenfd (.listening 0)) listenfd .false
  events := []
  slot
  threads := []
  accepted := []

end Program

/-- The number of threads that have not returned. -/
def Server.live (s : Server) : Nat := s.threads.countP Thread.live

/-- The number of events that the main loop has still to handle for a descriptor. -/
def Server.pending (s : Server) (f : Nat) : Nat := s.events.countP fun ev => ev.1 = f

/-- The descriptors in the hands of the program. The listening socket is counted as one. -/
def Server.busy (s : Server) (listenfd f : Nat) : Prop :=
  f = listenfd ∨ 0 < s.pending f ∨ (f ∈ s.accepted ∧ 0 < s.live)

/-- For the listening socket and for a connection there is one token: the descriptor is armed, or
an event is to be handled, or it was used up; on a connection it goes on to a thread, and with
`reset_oneshot` back to the table. -/
structure Inv (listenfd : Nat) (s : Server) : Prop where
  interests : ∀ f i, (s.kernel.table f).map Entry.interest = some i → i = interest true
  listen : s.kernel.table.armed listenfd + s.pending listenfd + s.accepted.length ≤ 1
  away : listenfd ∉ s.accepted
  listening : (s.kernel.files listenfd).isSome = true
  conns : ∀ f, f ≠ listenfd → (s.kernel.files f).isSome = true → f ∈ s.accepted ∧
    (s.kernel.table f).isSome = true
  token : ∀ c ∈ s.accepted, s.kernel.table.armed c + s.pending c + s.live ≤ 1
  events : ∀ f r, (f, r) ∈ s.events → r.input = true ∧ (s.kernel.files f).isSome = true
  threads : ∀ th ∈ s.threads, th.live = true →
    th.target s.slot ≠ listenfd ∧ (s.kernel.files (th.target s.slot)).isSome = true
  sound : Sound poll s.kernel (s.busy listenfd)

section Steps

variable {listenfd : Nat} {s s' : Server} {a : Action}

lemma interests_update {t : Table Nat}
    (all : ∀ g i, (t g).map Entry.interest = some i → i = interest true) {f : Nat}
    {e : Option Entry} (new : ∀ i, e.map Entry.interest = some i → i = interest true) (g : Nat)
    (i : Interest) (at_g : (Function.update t f e g).map Entry.interest = some i) :
    i = interest true := by
  by_cases same : g = f
  · subst same
    rw [Function.update_self] at at_g
    exact new i at_g
  · rw [Function.update_of_ne same] at at_g
    exact all g i at_g

lemma Inv.new (slot : Nat) : Inv listenfd (oneshotNew listenfd slot) := by
  have sound :
      Sound poll (oneshotNew listenfd slot).kernel ((oneshotNew listenfd slot).busy listenfd) :=
    (Sound.put .empty (.inl rfl)).add Kernel.put_files_self
  have table : (oneshotNew listenfd slot).kernel.table =
      Function.update Table.empty listenfd (some ⟨interest true, true, false⟩) := by
    rw [oneshotNew, addfd, Kernel.add_table rfl, Kernel.ready_of_files Kernel.put_files_self]
    rfl
  refine ⟨?_, ?_, nofun, ?_, fun f ne some => ?_, nofun, nofun, nofun, sound⟩
  · rw [table]
    exact interests_update (fun _ _ e => by cases e) fun _ e => (Option.some.inj e).symm
  · rw [table, Table.armed_update_self]
    exact le_rfl
  · exact congrArg Option.isSome Kernel.put_files_self
  · cases (congrArg Option.isSome (Kernel.put_files_of_ne ne)).symm.trans some

/-- A step outside of the program: something happens on a descriptor. -/
lemma Inv.arrive (inv : Inv listenfd s) {f : Nat} {c c' : Sock (ByteStream UInt8)}
    (open_f : s.kernel.files f = some c) :
    Inv listenfd { s with kernel := s.kernel.arrive f c' .onInput } := by
  have same : ∀ g, ((s.kernel.arrive f c' .onInput).files g).isSome = (s.kernel.files g).isSome :=
    Kernel.put_isSome open_f
  have interests := Table.wake_interest s.kernel.table f .onInput
  refine ⟨fun g i at_g => inv.interests g i (interests g ▸ at_g), ?_, inv.away,
    (same _).trans inv.listening,
    fun g ne some => ?_, fun c mem => ?_, fun g r mem => ?_, fun th mem live => ?_, ?_⟩
  · rw [Kernel.arrive, Table.armed_wake]
    exact inv.listen
  · rw [Kernel.arrive, isSome_of_interest (interests g)]
    exact inv.conns g ne (same g ▸ some)
  · rw [Kernel.arrive, Table.armed_wake]
    exact inv.token c mem
  · exact ⟨(inv.events g r mem).1, (same g).trans (inv.events g r mem).2⟩
  · exact ⟨(inv.threads th mem live).1, (same _).trans (inv.threads th mem live).2⟩
  · refine inv.sound.arrive open_f fun i some => ?_
    exact (Interest.select_ne_none _ _).mpr (.inl ⟨(Sock.select_poll.mp some).1, Bool.or_true _⟩)

lemma pending_pos {f : Nat} : 0 < s.pending f ↔ ∃ r, (f, r) ∈ s.events := by
  rw [Server.pending, List.countP_pos_iff]
  constructor
  · rintro ⟨⟨g, r⟩, mem, same⟩
    cases of_decide_eq_true same
    exact ⟨r, mem⟩
  · rintro ⟨r, mem⟩
    exact ⟨(f, r), mem, decide_eq_true rfl⟩

lemma Inv.wait (inv : Inv listenfd s) {fs : List Nat} {events : List (Nat × Events)}
    {kernel : Kernel Nat (Sock (ByteStream UInt8))} (none : s.events = [])
    (st : s.kernel.wait poll fs = some (events, kernel)) :
    Inv listenfd { s with events, kernel } := by
  obtain ⟨waited, files⟩ := Kernel.wait_eq_some st
  have interests := Table.wait_interest waited
  have oneshot : ∀ f e, s.kernel.table f = some e → e.interest.oneshot = true := by
    intro f e at_f
    rw [inv.interests f e.interest (by rw [at_f]; rfl)]
    rfl
  have idle : ∀ f, s.pending f = 0 := fun f => by rw [Server.pending, none]; rfl
  refine ⟨fun g i at_g => inv.interests g i (interests g ▸ at_g), ?_,
    inv.away, by rw [files]; exact inv.listening,
    fun g ne some => ?_, fun c mem => ?_, fun g r mem => ?_, by rw [files]; exact inv.threads, ?_⟩
  · have once := Table.wait_armed waited (oneshot listenfd)
    have before := inv.listen
    rw [idle, Nat.add_zero, ← once] at before
    exact before
  · rw [isSome_of_interest (interests g)]
    exact inv.conns g ne (files ▸ some)
  · have once := Table.wait_armed waited (oneshot c)
    have before := inv.token c mem
    rw [idle, Nat.add_zero, ← once] at before
    exact before
  · obtain ⟨some, i, at_g, rfl⟩ := Table.wait_reports waited mem
    obtain ⟨e, here, rfl⟩ := Option.map_eq_some_iff.mp at_g
    obtain ⟨c, open_g⟩ := inv.sound.files_isSome here
    rw [Kernel.ready_of_files open_g] at some ⊢
    obtain ⟨wants, there⟩ := Sock.select_poll.mp some
    exact ⟨(Bool.and_eq_true _ _).mpr ⟨wants, there⟩, by rw [files, open_g]; rfl⟩
  · refine (inv.sound.wait st).mono fun g _ => ?_
    rintro ((listen | pending | thread) | ⟨event, _⟩)
    · exact .inl listen
    · rw [idle] at pending
      cases pending
    · exact .inr (.inr thread)
    · exact .inr (.inl (pending_pos.mpr event))

lemma pending_cons {f g : Nat} {r : Events} {events : List (Nat × Events)}
    (e : s.events = (f, r) :: events) :
    s.pending g = events.countP (fun ev => ev.1 = g) + if f = g then 1 else 0 := by
  rw [Server.pending, e, List.countP_cons]
  simp only [decide_eq_true_eq]

/-- The event is dropped. -/
lemma Inv.pop (inv : Inv listenfd s) {r : Events} {events : List (Nat × Events)}
    (e : s.events = (listenfd, r) :: events) : Inv listenfd { s with events } := by
  have fewer : ∀ g, events.countP (fun ev => ev.1 = g) ≤ s.pending g := fun g => by
    rw [pending_cons e]
    exact Nat.le_add_right _ _
  refine ⟨inv.interests, ?_, inv.away, inv.listening, inv.conns, fun c mem => ?_, fun g r mem => ?_,
    inv.threads, ?_⟩
  · exact le_trans (Nat.add_le_add_right (Nat.add_le_add_left (fewer _) _) _) inv.listen
  · exact le_trans (Nat.add_le_add_right (Nat.add_le_add_left (fewer _) _) _) (inv.token c mem)
  · exact inv.events g r (e ▸ .tail _ mem)
  · refine inv.sound.mono fun g _ => ?_
    rintro (listen | pending | thread)
    · exact .inl listen
    · by_cases here : g = listenfd
      · exact .inl here
      · rw [pending_cons e, if_neg (Ne.symm here)] at pending
        exact .inr (.inl pending)
    · exact .inr (.inr thread)

/-- The socket of a thread is a connection. -/
lemma Inv.known (inv : Inv listenfd s) {th : Thread} (mem : th ∈ s.threads)
    (live : th.live = true) : th.target s.slot ∈ s.accepted :=
  (inv.conns _ (inv.threads th mem live).1 (inv.threads th mem live).2).1

/-- Before the first connection there is no thread. -/
lemma Inv.live_eq_zero (inv : Inv listenfd s) (none : s.accepted = []) : s.live = 0 := by
  rw [Server.live, List.countP_eq_zero]
  intro th mem live
  have known := inv.known mem live
  rw [none] at known
  cases known

lemma Inv.accepted_eq (inv : Inv listenfd s) {c : Nat} (mem : c ∈ s.accepted) :
    s.accepted = [c] := by
  have few := inv.listen
  obtain ⟨x, all⟩ := List.length_eq_one_iff.mp (le_antisymm (by omega) (List.length_pos_of_mem mem))
  rw [all] at mem ⊢
  rw [List.mem_singleton.mp mem]

/-- There is no second connection. -/
lemma Inv.only (inv : Inv listenfd s) {c c' : Nat} (mem : c ∈ s.accepted) (mem' : c' ∈ s.accepted) :
    c = c' := by
  rw [inv.accepted_eq mem'] at mem
  exact List.mem_singleton.mp mem

/-- No event is to be handled for a descriptor that is not open. -/
lemma Inv.pending_eq_zero (inv : Inv listenfd s) {f : Nat} (closed : s.kernel.files f = none) :
    s.pending f = 0 := by
  by_contra some
  obtain ⟨r, mem⟩ := pending_pos.mp (Nat.pos_of_ne_zero some)
  have here := (inv.events f r mem).2
  rw [closed] at here
  cases here

/-- The first connection is accepted. -/
lemma Inv.accept (inv : Inv listenfd s) {r : Events} {events : List (Nat × Events)} {connfd : Nat}
    {l c : Sock (ByteStream UInt8)} (e : s.events = (listenfd, r) :: events)
    (fresh : s.kernel.files connfd = none) :
    Inv listenfd { s with
      events, kernel := addfd ((s.kernel.put listenfd l).put connfd c) connfd .true
      accepted := s.accepted ++ [connfd] } := by
  -- the token of the listening socket is used up
  have token := inv.listen
  have unseen := inv.pending_eq_zero fresh
  rw [pending_cons e, if_pos rfl] at token
  rw [pending_cons e] at unseen
  have first : s.accepted = [] := List.length_eq_zero_iff.mp (by omega)
  have calm : s.live = 0 := inv.live_eq_zero first
  obtain ⟨l₀, here⟩ := Option.isSome_iff_exists.mp inv.listening
  have ne : connfd ≠ listenfd := by
    rintro rfl
    cases fresh.symm.trans here
  have absent := inv.sound.opened connfd fresh
  have inv := inv.pop e
  have files : ∀ g, g ≠ connfd → (((s.kernel.put listenfd l).put connfd c).files g).isSome =
      (s.kernel.files g).isSome := by
    intro g ne
    rw [Kernel.put_files_of_ne ne, Kernel.put_isSome here]
  have more : ∀ g, (s.kernel.files g).isSome = true →
      (((s.kernel.put listenfd l).put connfd c).files g).isSome = true := by
    intro g some
    by_cases same : g = connfd
    · rw [same, Kernel.put_files_self]
      rfl
    · rwa [files g same]
  have sound : Sound poll (addfd ((s.kernel.put listenfd l).put connfd c) connfd .true) _ :=
    ((inv.sound.put (.inr (.inl rfl))).put (.inl absent)).add Kernel.put_files_self
  have table : (addfd ((s.kernel.put listenfd l).put connfd c) connfd .true).table = _ :=
    Kernel.add_table absent
  refine ⟨?_, ?_, ?_, more _ inv.listening, fun g ne some => ?_, fun x mem => ?_, fun g r mem => ?_,
    fun th mem live => ?_, sound.mono fun g _ => ?_⟩
  · rw [table]
    exact interests_update inv.interests fun _ e => (Option.some.inj e).symm
  · rw [table, Table.armed_update_of_ne _ (Ne.symm ne), List.length_append, List.length_singleton]
    show s.kernel.table.armed listenfd + events.countP _ + (s.accepted.length + 1) ≤ 1
    omega
  · rw [first]
    exact fun mem => ne (List.mem_singleton.mp mem).symm
  · rw [table]
    by_cases same : g = connfd
    · subst same
      rw [Function.update_self]
      exact ⟨List.mem_append_right _ (.head _), rfl⟩
    · rw [Function.update_of_ne same]
      obtain ⟨known, registered⟩ := inv.conns g ne ((files g same).symm.trans some)
      exact ⟨List.mem_append_left _ known, registered⟩
  · rw [first] at mem
    cases List.mem_singleton.mp mem
    rw [table, Table.armed_update_self, Bool.toNat_true]
    show 1 + events.countP _ + s.live ≤ 1
    omega
  · exact ⟨(inv.events g r mem).1, more g (inv.events g r mem).2⟩
  · exact ⟨(inv.threads th mem live).1, more _ (inv.threads th mem live).2⟩
  · exact Or.imp_right (Or.imp_right (And.imp_left (List.mem_append_left _)))

/-- A thread is started. -/
lemma Inv.spawn (inv : Inv listenfd s) {f : Nat} {r : Events} {events : List (Nat × Events)}
    (e : s.events = (f, r) :: events) (ne : f ≠ listenfd) :
    Inv listenfd { s with events, slot := f, threads := s.threads ++ [.created] } := by
  have here := (inv.events f r (e ▸ .head _)).2
  have known := (inv.conns f ne here).1
  have token := inv.token f known
  rw [pending_cons e, if_pos rfl] at token
  have calm : s.live = 0 := by omega
  have one : (s.threads ++ [Thread.created]).countP Thread.live = 1 := by
    rw [List.countP_append, ← Server.live, calm]
    rfl
  refine ⟨inv.interests, ?_, inv.away, inv.listening, inv.conns, fun c mem' => ?_,
    fun g r mem => ?_, fun th mem live => ?_, ?_⟩
  · have before := inv.listen
    rw [pending_cons e, if_neg ne] at before
    exact before
  · cases inv.only known mem'
    show s.kernel.table.armed f + events.countP _ + (s.threads ++ [Thread.created]).countP
      Thread.live ≤ 1
    rw [one]
    omega
  · exact inv.events g r (e ▸ .tail _ mem)
  · rcases List.mem_append.mp mem with old | new
    · exact absurd live ((List.countP_eq_zero.mp calm) th old)
    · cases List.mem_singleton.mp new
      exact ⟨ne, here⟩
  · refine inv.sound.mono fun g _ => ?_
    have alive :
        0 < ({ s with events, slot := f, threads := s.threads ++ [.created] } : Server).live :=
      lt_of_lt_of_eq Nat.zero_lt_one one.symm
    rintro (listen | pending | ⟨mem, _⟩)
    · exact .inl listen
    · by_cases same : g = f
      · subst same
        exact .inr (.inr ⟨known, alive⟩)
      · rw [pending_cons e, if_neg (Ne.symm same)] at pending
        exact .inr (.inl pending)
    · exact .inr (.inr ⟨mem, alive⟩)

section Threads

variable {i : Nat} {th th' : Thread}

lemma live_setThread (at_i : s.threads[i]? = some th) (th' : Thread) :
    (setThread s i th').live + th.live.toNat = s.live + th'.live.toNat := by
  obtain ⟨lt, get⟩ := List.getElem?_eq_some_iff.mp at_i
  have here : th ∈ s.threads := List.mem_of_getElem? at_i
  have some : th.live = true → 0 < s.threads.countP Thread.live :=
    fun live => List.countP_pos_iff.mpr ⟨th, here, live⟩
  rw [Server.live, Server.live, setThread, List.countP_set lt, get]
  cases live : th.live with
  | false => cases th'.live <;> simp
  | true =>
    have := some live
    cases th'.live <;> simp <;> omega

/-- A thread goes on with its socket. -/
lemma Inv.go (inv : Inv listenfd s) (at_i : s.threads[i]? = some th) (alive : th.live = true)
    (live : th'.live = true) (target : th'.target s.slot = th.target s.slot) :
    Inv listenfd (setThread s i th') := by
  have same : (setThread s i th').live = s.live := by
    have count := live_setThread at_i th'
    rw [alive, live] at count
    exact Nat.add_right_cancel count
  refine ⟨inv.interests, inv.listen, inv.away, inv.listening, inv.conns, fun c mem => ?_,
    inv.events, fun x mem live => ?_, inv.sound.mono fun g _ => ?_⟩
  · rw [same]
    exact inv.token c mem
  · rcases List.mem_or_eq_of_mem_set mem with old | rfl
    · exact inv.threads x old live
    · show x.target s.slot ≠ listenfd ∧ (s.kernel.files (x.target s.slot)).isSome = true
      rw [target]
      exact inv.threads th (List.mem_of_getElem? at_i) alive
  · rw [Server.busy, Server.busy, same]
    exact id

/-- While a thread is there, the token is not elsewhere. -/
lemma Inv.alone (inv : Inv listenfd s) (at_i : s.threads[i]? = some th) (alive : th.live = true) :
    th.target s.slot ∈ s.accepted ∧ s.live = 1 ∧ (setThread s i .ended).live = 0 ∧
      s.pending (th.target s.slot) = 0 ∧
      ∃ e, s.kernel.table (th.target s.slot) = some e := by
  have mem := List.mem_of_getElem? at_i
  obtain ⟨ne, here⟩ := inv.threads th mem alive
  obtain ⟨known, registered⟩ := inv.conns _ ne here
  have token := inv.token _ known
  have count := live_setThread at_i .ended
  rw [alive, show Thread.ended.live = false from rfl, Bool.toNat_true, Bool.toNat_false] at count
  exact ⟨known, by omega, by omega, by omega, Option.isSome_iff_exists.mp registered⟩

/-- The thread reads from its connection. -/
lemma Inv.read (inv : Inv listenfd s) {f : Nat} {c c' : Sock (ByteStream UInt8)}
    (open_f : s.kernel.files f = some c) (known : f ∈ s.accepted) (alive : 0 < s.live) :
    Inv listenfd { s with kernel := s.kernel.put f c' } := by
  have same : ∀ g, ((s.kernel.put f c').files g).isSome = (s.kernel.files g).isSome :=
    Kernel.put_isSome open_f
  exact ⟨inv.interests, inv.listen, inv.away, (same _).trans inv.listening,
    fun g ne some => inv.conns g ne (same g ▸ some), inv.token, fun g r mem =>
    ⟨(inv.events g r mem).1, (same g).trans (inv.events g r mem).2⟩,
    fun th mem live => ⟨(inv.threads th mem live).1, (same _).trans (inv.threads th mem live).2⟩,
    inv.sound.put (.inr (.inr (.inr ⟨known, alive⟩)))⟩

lemma mem_setThread_live (last : (setThread s i th').live = 0) {x : Thread}
    (mem : x ∈ (setThread s i th').threads) :
    x.live = false := Bool.eq_false_of_not_eq_true (List.countP_eq_zero.mp last x mem)

/-- What is in the hands of the program when the only thread has returned. -/
lemma Inv.released (inv : Inv listenfd s) {f g : Nat} (known : f ∈ s.accepted)
    (hand : s.busy listenfd g ∧ g ≠ f) : g = listenfd ∨ 0 < s.pending g := by
  obtain ⟨listen | pending | ⟨mem, _⟩, ne⟩ := hand
  · exact .inl listen
  · exact .inr pending
  · exact absurd (inv.only mem known) ne

/-- The thread gives the token back to the table. -/
lemma Inv.reset (inv : Inv listenfd s) {f : Nat} (at_i : s.threads[i]? = some (.again f)) :
    Inv listenfd (setThread { s with kernel := resetOneshot s.kernel f } i .ended) := by
  obtain ⟨known, _, last, idle, e, at_f⟩ := inv.alone at_i rfl
  have ne : f ≠ listenfd := fun same => inv.away (same ▸ known)
  have table : (resetOneshot s.kernel f).table = _ := Kernel.mod_table at_f
  refine ⟨?_, ?_, inv.away, inv.listening, fun g ne some => ⟨(inv.conns g ne some).1, ?_⟩,
    fun c mem => ?_, inv.events,
    fun x mem live => ?_, (inv.sound.mod at_f).mono fun g _ hand =>
    (inv.released known hand).imp_right .inl⟩
  · show ∀ g i, ((resetOneshot s.kernel f).table g).map Entry.interest = some i → i = interest true
    rw [table]
    exact interests_update inv.interests fun _ e => (Option.some.inj e).symm
  · show (resetOneshot s.kernel f).table.armed listenfd + s.pending listenfd + s.accepted.length ≤ 1
    rw [table, Table.armed_update_of_ne _ (Ne.symm ne)]
    exact inv.listen
  · show ((resetOneshot s.kernel f).table g).isSome = true
    rw [table]
    by_cases same : g = f
    · rw [same, Function.update_self]
      rfl
    · rw [Function.update_of_ne same]
      exact (inv.conns g ne some).2
  · cases inv.only known mem
    show (resetOneshot s.kernel f).table.armed f + s.pending f + (setThread s i .ended).live ≤ 1
    rw [table, Table.armed_update_self, last, show s.pending f = 0 from idle, Bool.toNat_true]
  · rw [mem_setThread_live last mem] at live
    cases live

/-- The thread closes its connection. -/
lemma Inv.close (inv : Inv listenfd s) {f : Nat} (at_i : s.threads[i]? = some (.closing f)) :
    Inv listenfd (setThread { s with kernel := s.kernel.close f } i .ended) := by
  obtain ⟨known, _, last, idle, _⟩ := inv.alone at_i rfl
  have ne : f ≠ listenfd := fun same => inv.away (same ▸ known)
  have still : ∀ g, g ≠ f → (s.kernel.close f).files g = s.kernel.files g := fun g ne =>
    Kernel.close_files_of_ne ne
  refine ⟨interests_update inv.interests nofun, ?_, inv.away, ?_, fun g ne some => ?_,
    fun c mem => ?_, fun g r mem => ⟨(inv.events g r mem).1, ?_⟩, fun x mem live => ?_,
    (inv.sound.close f).mono fun g _ hand => (inv.released known hand).imp_right .inl⟩
  · show Table.armed (Function.update s.kernel.table f _) listenfd + s.pending listenfd +
      s.accepted.length ≤ 1
    rw [Table.armed_update_of_ne _ (Ne.symm ne)]
    exact inv.listen
  · exact (congrArg Option.isSome (still _ (Ne.symm ne))).trans inv.listening
  · have other : g ≠ f := by
      rintro rfl
      cases (congrArg Option.isSome Kernel.close_files_self).symm.trans some
    obtain ⟨mem, registered⟩ :=
      inv.conns g ne ((congrArg Option.isSome (still g other)).symm.trans some)
    exact ⟨mem, (congrArg Option.isSome (Function.update_of_ne other _ _)).trans registered⟩
  · cases inv.only known mem
    show Table.armed (Function.update s.kernel.table f none) f + s.pending f +
      (setThread s i .ended).live ≤ 1
    rw [Table.armed, Function.update_self, last, show s.pending f = 0 from idle]
    exact Nat.zero_le _
  · have other : g ≠ f := by
      rintro rfl
      exact absurd (pending_pos.mpr ⟨r, mem⟩) (Nat.not_lt.mpr idle.le)
    exact (congrArg Option.isSome (still g other)).trans (inv.events g r mem).2
  · rw [mem_setThread_live last mem] at live
    cases live

end Threads

lemma Inv.handle (inv : Inv listenfd s) {conn : Option (Nat × List UInt8 × Bool)}
    (st : handle listenfd s conn = some s') : Inv listenfd s' := by
  rw [Oneshot.handle] at st
  split at st
  · cases st
  · rename_i f r events e
    split at st
    · rename_i listen
      subst listen
      split at st
      · cases st
        exact inv.pop e
      · obtain ⟨fresh, st⟩ := Option.ite_none_right_eq_some.mp st
        cases st
        exact inv.accept e fresh
      · cases st
    · rename_i ne
      split at st
      · cases st
        exact inv.spawn e ne
      · rename_i no
        exact absurd (inv.events f r (e ▸ .head _)).1 no

lemma Inv.step (inv : Inv listenfd s) (st : OneshotTrans listenfd s a s') : Inv listenfd s' := by
  cases a <;> simp only [OneshotTrans, oneshotStep] at st
  case connect =>
    split at st
    · cases st
      exact inv.arrive ‹_›
    · cases st
  case write f bs =>
    split at st
    · obtain ⟨_, _, rfl⟩ := Option.map_eq_some_iff.mp st
      exact inv.arrive ‹_›
    · cases st
  case finish f =>
    split at st
    · cases st
      exact inv.arrive ‹_›
    · cases st
  case wait fs =>
    obtain ⟨⟨none, _⟩, st⟩ := Option.ite_none_right_eq_some.mp st
    obtain ⟨⟨events, kernel⟩, waited, rfl⟩ := Option.map_eq_some_iff.mp st
    exact inv.wait none waited
  case handle conn => exact inv.handle st
  case start i =>
    obtain ⟨at_i, st⟩ := Option.ite_none_right_eq_some.mp st
    cases st
    exact inv.go at_i rfl rfl rfl
  case recv i k =>
    split at st
    · rename_i f at_i
      obtain ⟨known, one, _⟩ := inv.alone at_i rfl
      split at st
      · rename_i open_f
        split at st
        · cases st
          exact inv.read open_f known (one ▸ Nat.zero_lt_one)
        · cases st
          exact inv.go at_i rfl rfl rfl
        · cases st
          exact inv.go at_i rfl rfl rfl
      · cases st
        exact inv
    · cases st
  case error i =>
    split at st
    · cases st
      exact inv
    · cases st
  case reset i =>
    split at st
    · cases st
      exact inv.reset ‹_›
    · cases st
  case close i =>
    split at st
    · cases st
      exact inv.close ‹_›
    · cases st

lemma Inv.live_le_one (inv : Inv listenfd s) : s.live ≤ 1 := by
  cases all : s.accepted with
  | nil => exact (inv.live_eq_zero all).le.trans zero_le_one
  | cons c cs =>
    have token := inv.token c (all ▸ .head _)
    omega

/-- What is left of a connection when nobody is at work on it. -/
lemma Inv.quiet (inv : Inv listenfd s) {c : Nat} {st : ByteStream UInt8} (mem : c ∈ s.accepted)
    (here : s.kernel.files c = some (.conn st)) (calm : s.events = []) (still : s.live = 0)
    (idle : ∀ e, s.kernel.table c = some e → e.listed = false) : st.ready = false := by
  have ne : c ≠ listenfd := fun same => inv.away (same ▸ mem)
  obtain ⟨e, registered⟩ := Option.isSome_iff_exists.mp (inv.conns c ne (by rw [here]; rfl)).2
  have free : ¬s.busy listenfd c := by
    rintro (listen | pending | ⟨_, live⟩)
    · exact ne listen
    · obtain ⟨r, mem⟩ := pending_pos.mp pending
      rw [calm] at mem
      cases mem
    · rw [still] at live
      cases live
  have dry := inv.sound.quiet registered here free (idle e registered)
  rw [inv.interests c e.interest (by rw [registered]; rfl)] at dry
  by_contra some
  have input : (poll (.conn st)).input = true := Bool.eq_true_of_not_eq_false some
  exact Sock.select_poll.mpr ⟨rfl, input⟩ dry

end Steps

/-- The server accepts no second connection, since the listening socket is registered one-shot as
well. In every run at most one thread is at work, and on a connection that is open, although
threads read the variable of the main loop only later. When the main loop and the threads have
nothing to do and the connection is not on the list of the table, all that its peer wrote was read,
and the peer has not closed: nothing that arrives between `EAGAIN` and `reset_oneshot` is
forgotten. -/
theorem oneshot_server (listenfd slot : Nat) (tr : List Action) (s : Server)
    (run : Run (OneshotTrans listenfd) (oneshotNew listenfd slot) tr s) :
    s.accepted.length ≤ 1 ∧ s.live ≤ 1 ∧
    (∀ th ∈ s.threads, th.live = true →
      s.accepted = [th.target s.slot] ∧ (s.kernel.files (th.target s.slot)).isSome = true) ∧
    (∀ c ∈ s.accepted, ∀ st, s.kernel.files c = some (.conn st) → s.events = [] → s.live = 0 →
      (∀ e, s.kernel.table c = some e → e.listed = false) → st.got = st.wrote ∧
        st.ended = false) := by
  have inv : Inv listenfd s :=
    run.invariant (Inv listenfd) (.new slot) fun _ _ _ inv st => inv.step st
  refine ⟨?_, inv.live_le_one, fun th mem live => ?_, fun c mem st here calm still idle => ?_⟩
  · have few := inv.listen
    omega
  · exact ⟨inv.accepted_eq (inv.known mem live), (inv.threads th mem live).2⟩
  · exact ByteStream.got_of_not_ready (inv.quiet mem here calm still idle)

/-- Two connections arrive. The first is accepted and read by a thread; what comes after `EAGAIN`
is on the list when the thread has returned, and the second connection is still in the backlog. -/
theorem oneshot_server_two : ∃ s,
    Run (OneshotTrans 3) (oneshotNew 3 0)
      [.reset 0, .write 5 [66], .recv 0 0, .recv 0 0, .start 0, .handle none, .wait [5],
        .handle (some (5, [65], false)), .wait [3], .connect, .connect] s ∧
    s.accepted = [5] ∧ s.kernel.table 5 = some ⟨interest true, true, true⟩ ∧ s.live ≤ 1 := by
  have all : (exec (oneshotStep 3) (oneshotNew 3 0)
      [.reset 0, .write 5 [66], .recv 0 0, .recv 0 0, .start 0, .handle none, .wait [5],
        .handle (some (5, [65], false)), .wait [3], .connect, .connect]).any
      (fun s => s.accepted = [5] ∧ s.kernel.table 5 = some ⟨interest true, true, true⟩) = true := by
    decide
  obtain ⟨s, e, facts⟩ := (Option.any_eq_true _ _).mp all
  obtain ⟨accepted, table⟩ := of_decide_eq_true facts
  exact ⟨s, exec_run e, accepted, table, (oneshot_server 3 0 _ _ (exec_run e)).2.1⟩

end SweetClib.Epoll.Oneshot
