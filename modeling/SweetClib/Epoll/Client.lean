import SweetClib.Lib.Epoll
import SweetClib.Lib.Print
import SweetClib.Lib.Run

/-!
# The epoll client

`lib/epoll/epollclient.cpp`: a number of users, each with a connection to a server, that send a
message and read an answer in turns. The events of `epoll_wait` name descriptors; the client finds
the user of a descriptor in `m_iSockFd_UserId`, an array with -1 for descriptors without a user,
and the descriptor of a user in `m_pAllUserStatus`. An index outside of one of the two arrays is a
fault, and there is no step.

The results of `socket`, `send` and `recv` and the events are given. All descriptors are
level-triggered, and `epoll_wait` reports a descriptor at most once. `socket` does not answer 0:
the descriptor of `epoll_create` is older, and would have got that number.

C++ → Lean naming: `m_pAllUserStatus` → `users`, `m_iSockFd_UserId` → `userId`, `iSockFd` →
`sockFd`; -1 is `none`.
-/

namespace SweetClib.Epoll
open SweetClib.Lib SweetClib.Lib.Epoll

def MAX_SOCKFD_COUNT : Nat := 65536

/-- The status of a user (C `iUserStatus`). -/
inductive UserStatus where
  | FREE
  | CONNECT_OK
  | SEND_OK
  | RECV_OK
deriving DecidableEq

/-- A user with its socket. -/
structure User where
  status : UserStatus
  sockFd : Option Nat
deriving DecidableEq

/-- The text of `cSendbuff` with its NUL. -/
def sendbuff (u : Nat) : List UInt8 :=
  text "client: " ++ natText u ++ text " send message \"hello server!\"\n" ++ [0]

/-- The client: its arrays, the descriptors that are registered, those that are open, the events to
be handled, and the number of users of the first loop that are through. -/
structure Client where
  users : Nat → User
  userId : Nat → Option Nat
  table : Nat → Option Interest
  socks : Nat → Bool
  events : List (Nat × Events)
  next : Nat

def EPOLL_IN : Interest := ⟨true, false, false, false⟩

def EPOLL_OUT : Interest := ⟨false, true, false, false⟩

def EPOLL_IN_OUT : Interest := ⟨true, true, false, false⟩

namespace Client

/-- The constructor. -/
def new : Client where
  users _ := ⟨.FREE, none⟩
  userId _ := none
  table _ := none
  socks _ := false
  events := []
  next := 0

/-- Change one user. -/
def setUser (c : Client) (u : Nat) (user : User) : Client :=
  { c with users := Function.update c.users u user }

/-- `epoll_ctl` with `EPOLL_CTL_MOD`; it fails for a descriptor that is not registered. -/
def modEpoll (c : Client) (fd : Nat) (i : Interest) : Client :=
  if (c.table fd).isSome then { c with table := Function.update c.table fd (some i) } else c

/-- `ConnectToServer` for the next user, where `socket` returns `fd`, and the rest of the first
loop of `RunFun`. -/
def connectToServer (c : Client) (fd : Nat) : Client :=
  { c with
    users := Function.update c.users c.next ⟨.CONNECT_OK, some fd⟩
    userId := Function.update c.userId fd (some c.next)
    table := Function.update c.table fd (some EPOLL_IN_OUT)
    socks := Function.update c.socks fd true
    next := c.next + 1 }

/-- `SendToServerData`, where `send` returns `result`. -/
def sendToServerData (c : Client) (u : Nat) (result : Int) : Int × Client :=
  if (c.users u).status = .CONNECT_OK ∨ (c.users u).status = .RECV_OK then
    if result < 0 then (result, c) else (result, c.setUser u ⟨.SEND_OK, (c.users u).sockFd⟩)
  else (-1, c)

/-- `RecvFromServer`, where `recv` returns `result`. -/
def recvFromServer (c : Client) (u : Nat) (result : Int) : Int × Client :=
  if (c.users u).status = .SEND_OK then
    if 0 < result then (result, c.setUser u ⟨.RECV_OK, (c.users u).sockFd⟩) else (result, c)
  else (-1, c)

/-- Take a descriptor out of the table, and out of the array of users (`DelEpoll`). -/
def delEpoll (c : Client) (fd : Nat) : Client :=
  if 0 < fd then
    { c with table := Function.update c.table fd none, userId := Function.update c.userId fd none }
  else c

/-- `CloseUser`; a descriptor that is closed is not registered any more. -/
def closeUser (c : Client) (u : Nat) : Client :=
  match (c.users u).sockFd with
  | some fd =>
    { c.setUser u ⟨.FREE, none⟩ with
      table := Function.update c.table fd none, socks := Function.update c.socks fd false }
  | none => c.setUser u ⟨.FREE, none⟩

/-- The second loop of `RunFun` with an event, for the user of its descriptor. -/
def dispatch (c : Client) (fd : Nat) (r : Events) (u : Nat) (result : Int) : Client :=
  if r.output then
    let a := c.sendToServerData u result
    if 0 < a.1 then a.2.modEpoll fd EPOLL_IN else (a.2.delEpoll fd).closeUser u
  else if r.input then
    let a := c.recvFromServer u result
    if a.1 < 0 then (a.2.delEpoll fd).closeUser u
    else if a.1 = 0 then (a.2.delEpoll fd).closeUser u
    else { a.2 with userId := Function.update a.2.userId fd (some u) }.modEpoll fd EPOLL_OUT
  else (c.delEpoll fd).closeUser u

/-- The next event is handled. -/
def handle (n : Nat) (c : Client) (result : Int) : Option Client :=
  match c.events with
  | [] => none
  | (fd, r) :: events =>
    if fd < MAX_SOCKFD_COUNT then
      match c.userId fd with
      | some u => if u < n then some ({ c with events }.dispatch fd r u result) else none
      | none => none
    else none

end Client

/-- What is given to the client: a descriptor from `socket`, events from `epoll_wait`, or the
result of the call that an event leads to. -/
inductive ClientInput where
  | socket (fd : Option Nat)
  | wait (events : List (Nat × Events))
  | handle (result : Int)

/-- An event that may be reported: the descriptor is registered, and the events are among those
asked for. -/
def Client.reports (c : Client) (ev : Nat × Events) : Bool :=
  (c.table ev.1).any fun i => i.select ev.2 = ev.2 && ev.2 ≠ .none

/-- A step. -/
def clientStep (n : Nat) (c : Client) : ClientInput → Option Client
  -- with the result -1 the array is written at -1
  | .socket none => none
  | .socket (some fd) =>
    if c.next < n ∧ 0 < fd ∧ c.socks fd = false ∧ fd < MAX_SOCKFD_COUNT then
      some (c.connectToServer fd)
    else none
  | .wait events =>
    if c.next = n ∧ c.events = [] ∧ (events.map Prod.fst).Nodup ∧ events.all c.reports then
      some { c with events }
    else none
  | .handle result => c.handle n result

/-- The transitions. -/
def ClientTrans (n : Nat) (c : Client) (i : ClientInput) (c' : Client) : Prop :=
  clientStep n c i = some c'

/-- What a user in a state waits for. -/
def UserStatus.interest : UserStatus → Interest
  | .SEND_OK => EPOLL_IN
  | .RECV_OK => EPOLL_OUT
  | _ => EPOLL_IN_OUT

/-- The arrays and the table agree: they pair users with open descriptors, and a descriptor is
registered for what its user waits for. -/
structure Paired (n : Nat) (c : Client) : Prop where
  bound : c.next ≤ n
  user : ∀ u fd, (c.users u).sockFd = some fd → c.userId fd = some u ∧
    c.table fd = some (c.users u).status.interest ∧
    c.socks fd = true ∧ 0 < fd ∧ fd < MAX_SOCKFD_COUNT ∧ u < c.next
  descriptor : ∀ fd, c.userId fd ≠ none ∨ c.table fd ≠ none ∨ c.socks fd = true →
    ∃ u, (c.users u).sockFd = some fd
  free : ∀ u, (c.users u).status = .FREE ↔ (c.users u).sockFd = none
  distinct : (c.events.map Prod.fst).Nodup
  events : ∀ fd r, (fd, r) ∈ c.events → ∃ u, (c.users u).sockFd = some fd

namespace Client

/-- A user goes on to another state, and is registered for what it waits for there. -/
def proceed (c : Client) (u fd : Nat) (status : UserStatus) : Client :=
  { c with
    users := Function.update c.users u ⟨status, some fd⟩,
    table := Function.update c.table fd (some status.interest) }

/-- A user is given up with its descriptor. -/
def giveUp (c : Client) (u fd : Nat) : Client :=
  { c with
    users := Function.update c.users u ⟨.FREE, none⟩, userId := Function.update c.userId fd none
    table := Function.update c.table fd none, socks := Function.update c.socks fd false }

end Client

section Dispatch

variable {n u fd : Nat} {c c' : Client} {user : User}

/-- A user that is closed with its socket is given up. -/
lemma closeUser_delEpoll (at_u : (c.users u).sockFd = some fd) (pos : 0 < fd) :
    (c.delEpoll fd).closeUser u = c.giveUp u fd := by
  rw [Client.delEpoll, if_pos pos, Client.closeUser]
  simp only [at_u, Client.setUser, Function.update_idem]
  rfl

/-- What a user was set to is lost when it is given up. -/
lemma giveUp_setUser : (c.setUser u user).giveUp u fd = c.giveUp u fd := by
  simp only [Client.giveUp, Client.setUser, Function.update_idem]

/-- What an event leads to for the user of its descriptor: it sends, it reads, or it is given up. -/
lemma dispatch_cases (at_u : (c.users u).sockFd = some fd) (id : c.userId fd = some u)
    (registered : (c.table fd).isSome = true) (pos : 0 < fd) (r : Events) (result : Int) :
    (c.dispatch fd r u result = c.proceed u fd .SEND_OK ∧ r.output = true ∧ 0 < result) ∨
    (c.dispatch fd r u result = c.proceed u fd .RECV_OK ∧ r.output = false ∧ r.input = true ∧
      0 < result) ∨
    (c.dispatch fd r u result = c.giveUp u fd ∧
      ¬(0 < result ∧ r.output = true ∧
        ((c.users u).status = .CONNECT_OK ∨ (c.users u).status = .RECV_OK)) ∧
      ¬(0 < result ∧ r.output = false ∧ r.input = true ∧ (c.users u).status = .SEND_OK)) := by
  have moves : ∀ status : UserStatus, (c.setUser u ⟨status, some fd⟩).modEpoll fd status.interest =
      c.proceed u fd status :=
    fun status => if_pos registered
  have gone :
      ∀ status, ((c.setUser u ⟨status, some fd⟩).delEpoll fd).closeUser u = c.giveUp u fd := by
    intro status
    rw [closeUser_delEpoll (by simp only [Client.setUser, Function.update_self]) pos,
      giveUp_setUser]
  have stays := closeUser_delEpoll at_u pos
  have same : Function.update c.userId fd (some u) = c.userId := by
    rw [← id, Function.update_eq_self]
  cases out : r.output with
  | true =>
    by_cases waits : (c.users u).status = .CONNECT_OK ∨ (c.users u).status = .RECV_OK
    · by_cases fails : result < 0
      · refine .inr (.inr ⟨?_, fun sent => by omega, fun read => by cases read.2.1⟩)
        simp only [Client.dispatch, Client.sendToServerData, out, if_pos waits, if_pos fails,
          if_true]
        rw [if_neg (by omega), stays]
      · by_cases sent : 0 < result
        · refine .inl ⟨?_, rfl, sent⟩
          simp only [Client.dispatch, Client.sendToServerData, out, if_pos waits, if_neg fails,
            if_true, at_u]
          rw [if_pos sent]
          exact moves .SEND_OK
        · refine .inr (.inr ⟨?_, fun was => sent was.1, fun read => by cases read.2.1⟩)
          simp only [Client.dispatch, Client.sendToServerData, out, if_pos waits, if_neg fails,
            if_true, at_u]
          rw [if_neg sent, gone]
    · refine .inr (.inr ⟨?_, fun was => waits was.2.2, fun read => by cases read.2.1⟩)
      simp only [Client.dispatch, Client.sendToServerData, out, if_neg waits, if_true]
      rw [if_neg (by omega), stays]
  | false =>
    cases inp : r.input with
    | true =>
      by_cases waits : (c.users u).status = .SEND_OK
      · by_cases read : 0 < result
        · refine .inr (.inl ⟨?_, rfl, rfl, read⟩)
          simp only [Client.dispatch, Client.recvFromServer, out, inp, if_pos waits, if_pos read,
            if_true, at_u, Bool.false_eq_true, if_false]
          rw [if_neg (by omega), if_neg (by omega), ← moves .RECV_OK]
          simp only [Client.setUser, same]
          rfl
        · refine .inr (.inr ⟨?_, fun was => (by cases was.2.1), fun was => read was.1⟩)
          simp only [Client.dispatch, Client.recvFromServer, out, inp, if_pos waits, if_neg read,
            if_true, Bool.false_eq_true, if_false]
          split
          · exact stays
          · rw [if_pos (by omega), stays]
      · refine .inr (.inr ⟨?_, fun was => (by cases was.2.1), fun was => waits was.2.2.2⟩)
        simp only [Client.dispatch, Client.recvFromServer, out, inp, if_neg waits, if_true,
          Bool.false_eq_true, if_false]
        rw [if_pos (by omega), stays]
    | false =>
      refine .inr (.inr ⟨?_, fun was => (by cases was.2.1), fun was => by cases was.2.2.1⟩)
      simp only [Client.dispatch, out, inp, Bool.false_eq_true, if_false]
      exact stays

/-- A user that proceeds keeps its socket. -/
lemma proceed_sockFd {status : UserStatus} (at_u : (c.users u).sockFd = some fd) (v : Nat) :
    ((c.proceed u fd status).users v).sockFd = (c.users v).sockFd := by
  by_cases same : v = u
  · subst same
    simp only [Client.proceed, Function.update_self, at_u]
  · simp only [Client.proceed, Function.update_of_ne same]

end Dispatch

namespace Paired

variable {n u fd : Nat} {c c' : Client}

/-- No user has a socket at the start. -/
lemma new (n : Nat) : Paired n Client.new where
  bound := Nat.zero_le n
  user := nofun
  descriptor := by simp [Client.new]
  free _ := iff_of_true rfl rfl
  distinct := .nil
  events := nofun

/-- Descriptors belong to one user. -/
lemma user_eq (paired : Paired n c) {v : Nat} (at_u : (c.users u).sockFd = some fd)
    (at_v : (c.users v).sockFd = some fd) :
    u = v := Option.some.inj ((paired.user u fd at_u).1.symm.trans (paired.user v fd at_v).1)

/-- A new socket is for the next user. -/
lemma socket (paired : Paired n c) (lt : c.next < n) (pos : 0 < fd) (fresh : c.socks fd = false)
    (small : fd < MAX_SOCKFD_COUNT) : Paired n (c.connectToServer fd) := by
  have later : ∀ v g, (c.users v).sockFd = some g → v ≠ c.next ∧ g ≠ fd := by
    intro v g at_v
    obtain ⟨_, _, opened, _, _, old⟩ := paired.user v g at_v
    refine ⟨Nat.ne_of_lt old, fun same => ?_⟩
    rw [same, fresh] at opened
    cases opened
  have sockFd : ∀ v g, (c.users v).sockFd = some g →
      ((c.connectToServer fd).users v).sockFd = some g := by
    intro v g at_v
    simp only [Client.connectToServer, Function.update_of_ne (later v g at_v).1]
    exact at_v
  refine ⟨lt, fun v g at_v => ?_, fun g some => ?_, fun v => ?_, paired.distinct, fun g r mem => ?_⟩
  · by_cases new : v = c.next
    · subst new
      simp only [Client.connectToServer, Function.update_self] at at_v
      cases at_v
      simp only [Client.connectToServer, Function.update_self]
      exact ⟨trivial, rfl, trivial, pos, small, Nat.lt_succ_self _⟩
    · simp only [Client.connectToServer, Function.update_of_ne new] at at_v
      have other := (later v g at_v).2
      simp only [Client.connectToServer, Function.update_of_ne new, Function.update_of_ne other]
      obtain ⟨id, table, opened, pos, small, old⟩ := paired.user v g at_v
      exact ⟨id, table, opened, pos, small, Nat.lt_succ_of_lt old⟩
  · by_cases here : g = fd
    · subst here
      exact ⟨c.next, by simp only [Client.connectToServer, Function.update_self]⟩
    · simp only [Client.connectToServer, Function.update_of_ne here] at some
      obtain ⟨v, at_v⟩ := paired.descriptor g some
      exact ⟨v, sockFd v g at_v⟩
  · by_cases new : v = c.next
    · subst new
      simp only [Client.connectToServer, Function.update_self]
      exact iff_of_false nofun nofun
    · simp only [Client.connectToServer, Function.update_of_ne new]
      exact paired.free v
  · obtain ⟨v, at_v⟩ := paired.events g r mem
    exact ⟨v, sockFd v g at_v⟩

/-- A user that proceeds stays paired with its socket. -/
lemma proceed (paired : Paired n c) (at_u : (c.users u).sockFd = some fd) {status : UserStatus}
    (ne : status ≠ .FREE) : Paired n (c.proceed u fd status) := by
  obtain ⟨id, _, opened, pos, small, old⟩ := paired.user u fd at_u
  have sockFd : ∀ v, ((c.proceed u fd status).users v).sockFd = (c.users v).sockFd :=
    proceed_sockFd at_u
  refine ⟨paired.bound, fun v g at_v => ?_, fun g some => ?_, fun v => ?_, paired.distinct,
    fun g r mem => ?_⟩
  · rw [sockFd] at at_v
    obtain ⟨id', table', rest⟩ := paired.user v g at_v
    refine ⟨id', ?_, rest⟩
    by_cases same : v = u
    · subst same
      cases at_u.symm.trans at_v
      simp only [Client.proceed, Function.update_self]
    · have other : g ≠ fd := fun e => same (paired.user_eq (e ▸ at_v) at_u)
      simp only [Client.proceed, Function.update_of_ne same, Function.update_of_ne other]
      exact table'
  · obtain ⟨v, at_v⟩ : ∃ v, (c.users v).sockFd = Option.some g := by
      by_cases same : g = fd
      · exact ⟨u, same ▸ at_u⟩
      · simp only [Client.proceed, Function.update_of_ne same] at some
        exact paired.descriptor g some
    exact ⟨v, (sockFd v).trans at_v⟩
  · rw [sockFd]
    by_cases same : v = u
    · subst same
      simp only [Client.proceed, Function.update_self, at_u]
      exact iff_of_false ne nofun
    · simp only [Client.proceed, Function.update_of_ne same]
      exact paired.free v
  · obtain ⟨v, at_v⟩ := paired.events g r mem
    exact ⟨v, (sockFd v).trans at_v⟩

/-- A user is given up with its socket, about which there is no other event. -/
lemma giveUp (paired : Paired n c) (at_u : (c.users u).sockFd = some fd)
    (once : ∀ r, (fd, r) ∉ c.events) : Paired n (c.giveUp u fd) := by
  have others : ∀ v g, g ≠ fd → (c.users v).sockFd = some g →
      ((c.giveUp u fd).users v).sockFd = some g := by
    intro v g ne at_v
    have other : v ≠ u := by
      rintro rfl
      exact ne (Option.some.inj (at_v.symm.trans at_u))
    simp only [Client.giveUp, Function.update_of_ne other]
    exact at_v
  refine ⟨paired.bound, fun v g at_v => ?_, fun g some => ?_, fun v => ?_, paired.distinct,
    fun g r mem => ?_⟩
  · have other : v ≠ u := by
      rintro rfl
      simp only [Client.giveUp, Function.update_self] at at_v
      cases at_v
    simp only [Client.giveUp, Function.update_of_ne other] at at_v ⊢
    have ne : g ≠ fd := fun same => other (paired.user_eq (same ▸ at_v) at_u)
    simp only [Function.update_of_ne ne]
    exact paired.user v g at_v
  · have ne : g ≠ fd := by
      rintro rfl
      simp [Client.giveUp] at some
    simp only [Client.giveUp, Function.update_of_ne ne] at some
    obtain ⟨v, at_v⟩ := paired.descriptor g some
    exact ⟨v, others v g ne at_v⟩
  · by_cases same : v = u
    · subst same
      simp only [Client.giveUp, Function.update_self]
    · simp only [Client.giveUp, Function.update_of_ne same]
      exact paired.free v
  · obtain ⟨v, at_v⟩ := paired.events g r mem
    exact ⟨v, others v g (fun same => once r (same ▸ mem)) at_v⟩

/-- The event that is handled is the only one about its socket. -/
lemma pop (paired : Paired n c) {r : Events} {events : List (Nat × Events)}
    (e : c.events = (fd, r) :: events) : Paired n { c with events } ∧ ∀ r', (fd, r') ∉ events := by
  have distinct := paired.distinct
  rw [e, List.map_cons, List.nodup_cons] at distinct
  refine ⟨⟨paired.bound, paired.user, paired.descriptor, paired.free, distinct.2,
    fun g r mem => ?_⟩, fun r' mem => ?_⟩
  · exact paired.events g r (e ▸ .tail _ mem)
  · exact distinct.1 (List.mem_map.mpr ⟨_, mem, rfl⟩)

/-- The next event is for a descriptor of a user, and is handled for this user. -/
lemma handle_eq (paired : Paired n c) {r : Events} {events : List (Nat × Events)}
    (e : c.events = (fd, r) :: events) :
    ∃ u, (c.users u).sockFd = some fd ∧ ∀ result,
      c.handle n result = some ({ c with events }.dispatch fd r u result) := by
  obtain ⟨u, at_u⟩ := paired.events fd r (e ▸ .head _)
  obtain ⟨id, _, _, _, small, old⟩ := paired.user u fd at_u
  refine ⟨u, at_u, fun result => ?_⟩
  rw [Client.handle, e]
  simp only [id, if_pos small, if_pos (Nat.lt_of_lt_of_le old paired.bound)]

/-- The three outcomes of an event, for the client without the event. -/
lemma dispatch (paired : Paired n c) (at_u : (c.users u).sockFd = some fd)
    (once : ∀ r, (fd, r) ∉ c.events) (r : Events) (result : Int) :
    Paired n (c.dispatch fd r u result) := by
  obtain ⟨id, table, _, pos, _⟩ := paired.user u fd at_u
  rcases dispatch_cases at_u id (by rw [table]; rfl) pos r result with ⟨e, _⟩ | ⟨e, _⟩ | ⟨e, _⟩
  · exact e ▸ paired.proceed at_u nofun
  · exact e ▸ paired.proceed at_u nofun
  · exact e ▸ paired.giveUp at_u once

/-- Every step keeps users and sockets paired. -/
lemma step (paired : Paired n c) {i : ClientInput} (st : ClientTrans n c i c') : Paired n c' := by
  cases i with
  | socket fd =>
    cases fd with
    | none => cases st
    | some fd =>
      obtain ⟨⟨lt, pos, fresh, small⟩, st⟩ := Option.ite_none_right_eq_some.mp st
      cases st
      exact paired.socket lt pos fresh small
  | wait events =>
    obtain ⟨⟨_, _, nodup, all⟩, st⟩ := Option.ite_none_right_eq_some.mp st
    cases st
    refine ⟨paired.bound, paired.user, paired.descriptor, paired.free, nodup, fun fd r mem => ?_⟩
    obtain ⟨i, registered, _⟩ := (Option.any_eq_true _ _).mp (List.all_eq_true.mp all _ mem)
    exact paired.descriptor fd (.inr (.inl (by rw [registered]; nofun)))
  | handle result =>
    change c.handle n result = some c' at st
    cases e : c.events with
    | nil =>
      rw [Client.handle, e] at st
      cases st
    | cons ev events =>
      obtain ⟨u, at_u, handled⟩ := paired.handle_eq e
      obtain ⟨popped, once⟩ := paired.pop e
      rw [handled] at st
      cases st
      exact popped.dispatch at_u once ev.2 result

end Paired

/-- In every run of the client, whatever events and results it is given, as long as `socket`
succeeds: users and descriptors are paired by the two arrays, and each open descriptor is
registered for what its user waits for; a user is without one when it was given up. Every event is
handled, without an index outside of the arrays, for the user of its descriptor, and all other
users stay as they are. -/
theorem epoll_client (n : Nat) (tr : List ClientInput) (c : Client)
    (run : Run (ClientTrans n) .new tr c) :
    (∀ u fd, (c.users u).sockFd = some fd →
      c.userId fd = some u ∧ c.table fd = some (c.users u).status.interest ∧ c.socks fd = true ∧
        u < n) ∧
    (∀ fd, c.table fd ≠ none ∨ c.socks fd = true → ∃ u, (c.users u).sockFd = some fd) ∧
    (∀ u, (c.users u).status = .FREE ↔ (c.users u).sockFd = none) ∧
    (∀ fd r events, c.events = (fd, r) :: events → ∀ result, ∃ u c', (c.users u).sockFd = some fd ∧
      clientStep n c (.handle result) = some c' ∧ ∀ v, v ≠ u → c'.users v = c.users v) := by
  have paired : Paired n c :=
    run.invariant (Paired n) (.new n) fun _ _ _ paired st => paired.step st
  refine ⟨fun u fd at_u => ?_, fun fd some => paired.descriptor fd (.inr some), paired.free,
    fun fd r events e result => ?_⟩
  · obtain ⟨id, table, opened, _, _, old⟩ := paired.user u fd at_u
    exact ⟨id, table, opened, Nat.lt_of_lt_of_le old paired.bound⟩
  · obtain ⟨u, at_u, handled⟩ := paired.handle_eq e
    obtain ⟨id, table, _, pos, _⟩ := paired.user u fd at_u
    refine ⟨u, _, at_u, handled result, fun v ne => ?_⟩
    have registered : (c.table fd).isSome = true := by rw [table]; rfl
    rcases dispatch_cases (c := { c with events }) at_u id registered pos r result with ⟨e, _⟩ | ⟨e,
      _⟩ | ⟨e, _⟩ <;>
    · rw [e]
      exact Function.update_of_ne ne _ _

/-- Two users connect. The first sends and reads an answer, and the second is given up when its
connection fails. -/
theorem epoll_client_two : ∃ c, Run (ClientTrans 2) .new
      [.handle 20, .handle (-1), .wait [(5, ⟨false, false, true, true⟩), (4, .onInput)], .handle 43,
        .handle 43, .wait [(4, ⟨false, true, false, false⟩), (5, ⟨false, true, false, false⟩)],
        .socket (some 5), .socket (some 4)] c ∧
    c.users 0 = ⟨.RECV_OK, some 4⟩ ∧ c.users 1 = ⟨.FREE, none⟩ ∧ c.userId 4 = some 0 := by
  have all : (exec (clientStep 2) Client.new
      [.handle 20, .handle (-1), .wait [(5, ⟨false, false, true, true⟩), (4, .onInput)], .handle 43,
        .handle 43, .wait [(4, ⟨false, true, false, false⟩), (5, ⟨false, true, false, false⟩)],
        .socket (some 5), .socket (some 4)]).any
      (fun c => c.users 0 = ⟨.RECV_OK, some 4⟩ ∧ c.users 1 = ⟨.FREE, none⟩) = true := by
    decide
  obtain ⟨c, e, facts⟩ := (Option.any_eq_true _ _).mp all
  obtain ⟨first, second⟩ := of_decide_eq_true facts
  exact ⟨c, exec_run e, first, second, ((epoll_client 2 _ _ (exec_run e)).1 0 4 (by rw [first])).1⟩

end SweetClib.Epoll
