import SweetClib.Lib.Run

/-!
# The chat server

Model of `pthread/chat_server.c`: the main thread enters every socket it accepts in the table
`clnt_socks` and creates a thread for it, and the thread sends what it reads to all sockets of the
table, until it reads the end of the stream, takes its socket out of the table and closes it.

The table is guarded by a mutex, and a step of the model is one section of it, or what a thread
does between two of them:
* `connect`: accept a socket, enter it in the table, create a thread.
* `start`: a thread copies its socket from the variable of the main thread that its argument points
  to, whatever this variable holds by then.
* `message`: a thread has read a message, and sends it to all sockets of the table (C `send_msg`).
* `leave`: a thread has read the end of the stream, and takes its socket out of the table.
* `close`: a thread closes its socket.

A client is connected from the `connect` with its socket to the `leave` of a thread that serves it.
`remove_other` says what the loop that takes a socket out of the table really does: it starts
behind the socket, and drops the one after it. The table is right, as long as every client that
leaves is the one that was connected last (`client_table_exact`).
-/

namespace SweetClib.Chat
open Lib

/-- Size of the table (C `MAX_CLNT`). -/
def MAX_CLNT : Nat := 256

/-- Size of the buffer of a message (C `BUF_SIZE`). -/
def BUF_SIZE : Nat := 100

/-- The table of sockets (C `clnt_socks`). -/
abbrev Socks := Vector Int MAX_CLNT

/-- Write an entry of the table; a write behind the table is a fault. -/
def Socks.put (socks : Socks) (i : Nat) (sock : Int) : Option Socks :=
  if h : i < MAX_CLNT then some (socks.set i sock h) else none

/-- `clnt_socks[clnt_cnt++] = clnt_sock` -/
def enter (clntCnt : Int) (socks : Socks) (clntSock : Int) : Option (Int × Socks) := do
  let socks ← socks.put (← clntCnt.toNat?) clntSock
  return (clntCnt + 1, socks)

/-- The inner loop of the removal. Its condition increments `i`, before the body reads and writes
the table. -/
def shiftLoop (clntCnt : Int) : Nat → Nat → Socks → Option Socks
  | 0, _, _ => none
  | rounds + 1, i, socks =>
    if (i : Int) < clntCnt - 1 then do
      let sock ← socks[i + 1 + 1]?
      let socks ← socks.put (i + 1) sock
      shiftLoop clntCnt rounds (i + 1) socks
    else some socks

/-- The outer loop of the removal, which looks for the socket and leaves with the inner loop. -/
def removeLoop (clntSock clntCnt : Int) : Nat → Nat → Socks → Option Socks
  | 0, _, _ => none
  | rounds + 1, i, socks =>
    if (i : Int) < clntCnt then do
      let sock ← socks[i]?
      if clntSock = sock then shiftLoop clntCnt (MAX_CLNT + 1) i socks
      else removeLoop clntSock clntCnt rounds (i + 1) socks
    else some socks

/-- Take a socket out of the table (the section of C `handle_clnt`). -/
def remove (clntSock clntCnt : Int) (socks : Socks) : Option (Int × Socks) := do
  let socks ← removeLoop clntSock clntCnt (MAX_CLNT + 1) 0 socks
  return (clntCnt - 1, socks)

/-- A call of `write`: the socket and the message. -/
abbrev Write := Int × List UInt8

/-- The loop of `send_msg`, with the calls of `write` it makes. -/
def sendLoop (msg : List UInt8) (clntCnt : Int) (socks : Socks) : Nat → Nat → Option (List Write)
  | 0, _ => none
  | rounds + 1, i =>
    if (i : Int) < clntCnt then do
      let sock ← socks[i]?
      let rest ← sendLoop msg clntCnt socks rounds (i + 1)
      return (sock, msg) :: rest
    else some []

/-- Send a message to every socket of the table (C `send_msg`). -/
def sendMsg (msg : List UInt8) (clntCnt : Int) (socks : Socks) : Option (List Write) :=
  sendLoop msg clntCnt socks (MAX_CLNT + 1) 0

/-- Where a thread of a client is (C `handle_clnt`). -/
inductive Thread where
  | created
  | serving (clntSock : Int)
  | closing (clntSock : Int)
  | finished
  deriving DecidableEq

/-- The server: the table, the variable of the main thread that the arguments of all threads point
to, and the threads. Of its surroundings the state has the open sockets and the connected clients,
in the order of their connection. -/
structure Server where
  clntCnt : Int
  clntSocks : Socks
  clntSock : Int
  threads : List Thread
  opened : Finset Int
  connected : List Int

/-- The server at its start; the content of the variable of the main thread does not matter. -/
def init (clntSock : Int) : Server where
  clntCnt := 0
  clntSocks := Vector.replicate MAX_CLNT 0
  clntSock := clntSock
  threads := []
  opened := ∅
  connected := []

/-- The steps of the threads; all but `connect` name the thread by its number. -/
inductive Action where
  | connect (sock : Int)
  | start (t : Nat)
  | message (t : Nat) (msg : List UInt8)
  | leave (t : Nat)
  | close (t : Nat)

/-- A step, with the calls of `write` it makes; `none` is a fault. -/
def serverStep (s : Server) : Action → Option (List Write × Server)
  | .connect sock => do
    let (clntCnt, clntSocks) ← enter s.clntCnt s.clntSocks sock
    return ([], { clntCnt, clntSocks, clntSock := sock, threads := s.threads ++ [.created],
                  opened := insert sock s.opened, connected := s.connected ++ [sock] })
  | .start t => some ([], { s with threads := s.threads.set t (.serving s.clntSock) })
  | .message _ msg => do
    let writes ← sendMsg msg s.clntCnt s.clntSocks
    return (writes, s)
  | .leave t =>
    match s.threads[t]? with
    | some (.serving sock) => do
      let (clntCnt, clntSocks) ← remove sock s.clntCnt s.clntSocks
      return ([], { s with clntCnt, clntSocks, threads := s.threads.set t (.closing sock),
                           connected := s.connected.erase sock })
    | _ => none
  | .close t =>
    match s.threads[t]? with
    | some (.closing sock) =>
      some ([], { s with threads := s.threads.set t .finished, opened := s.opened.erase sock })
    | _ => none

/-- What can happen: `accept` returns a socket that is not open, while there is room for another
client; a thread copies its socket first, reads messages of a connected client, reads the end of
the stream as long as its socket is open, and closes the socket after that. -/
inductive Allowed (s : Server) : Action → Prop where
  | connect {sock} :
    sock ∉ s.opened →
    s.connected.length < MAX_CLNT →
    Allowed s (.connect sock)
  | start {t} :
    s.threads[t]? = some .created →
    Allowed s (.start t)
  | message {t sock msg} :
    s.threads[t]? = some (.serving sock) →
    sock ∈ s.connected →
    msg ≠ [] ∧ msg.length ≤ BUF_SIZE →
    Allowed s (.message t msg)
  | leave {t sock} :
    s.threads[t]? = some (.serving sock) →
    sock ∈ s.opened →
    Allowed s (.leave t)
  | close {t sock} :
    s.threads[t]? = some (.closing sock) →
    Allowed s (.close t)

/-- The client that leaves is the one that was connected last, of those that are connected. -/
def LastLeaves (s : Server) (act : Action) : Prop :=
  ∀ t sock, act = .leave t → s.threads[t]? = some (.serving sock) → s.connected.getLast? = some sock

/-- The steps of the server. -/
def ServerStep (s : Server) (a : Action × List Write) (s' : Server) : Prop :=
  Allowed s a.1 ∧ serverStep s a.1 = some (a.2, s')

/-- The steps of the server in which no other client leaves than the one that was connected last. -/
def LastStep (s : Server) (a : Action × List Write) (s' : Server) : Prop :=
  LastLeaves s a.1 ∧ ServerStep s a s'

section Table

variable {clntCnt clntSock : Int} {socks : Socks} {L : List Int}

/-- The first `clnt_cnt` entries of the table are the list `L`. -/
structure Table (clntCnt : Int) (socks : Socks) (L : List Int) : Prop where
  cnt : clntCnt = L.length
  room : L.length ≤ MAX_CLNT
  entry : ∀ j < L.length, socks[j]? = L[j]?

lemma Table.take_eq (table : Table clntCnt socks L) : socks.toList.take clntCnt.toNat = L := by
  have cnt := table.cnt
  apply List.ext_getElem?
  intro j
  rw [List.getElem?_take]
  by_cases lt : j < L.length
  · rw [if_pos (by omega), Vector.getElem?_toList, table.entry j lt]
  · rw [if_neg (by omega), List.getElem?_eq_none (by omega)]

/-- A new socket goes to the end. -/
lemma enter_spec (table : Table clntCnt socks L) (room : L.length < MAX_CLNT) (clntSock : Int) :
    ∃ socks', enter clntCnt socks clntSock = some (clntCnt + 1, socks') ∧
      Table (clntCnt + 1) socks' (L ++ [clntSock]) := by
  refine ⟨socks.set L.length clntSock room, ?_, ?_, ?_, ?_⟩
  · rw [enter, table.cnt]
    simp [Socks.put, Int.toNat?, room]
  · rw [table.cnt, List.length_append]
    rfl
  · rw [List.length_append]
    exact room
  · intro j lt
    rw [List.length_append, List.length_singleton] at lt
    rw [Vector.getElem?_set, List.getElem?_append]
    by_cases last : j = L.length
    · simp [last]
    · rw [if_neg (Ne.symm last), if_pos (by omega), table.entry j (by omega)]

/-- The loop of `send_msg` from an entry on. -/
lemma sendLoop_spec (table : Table clntCnt socks L) (msg : List UInt8) {rounds i : Nat}
    (le : i ≤ L.length) (enough : L.length < i + rounds) :
    sendLoop msg clntCnt socks rounds i = some ((L.drop i).map fun sock => (sock, msg)) := by
  induction rounds generalizing i with
  | zero => omega
  | succ rounds ih =>
    have cnt := table.cnt
    rw [sendLoop]
    by_cases lt : i < L.length
    · rw [if_pos (by omega), table.entry i lt, List.getElem?_eq_getElem lt, ih lt (by omega),
        List.drop_eq_getElem_cons lt]
      rfl
    · rw [if_neg (by omega), List.drop_eq_nil_of_le (by omega)]
      rfl

/-- `send_msg` writes the message to every socket of the table, in the order of the table. -/
lemma sendMsg_spec (table : Table clntCnt socks L) (msg : List UInt8) :
    sendMsg msg clntCnt socks = some (L.map fun sock => (sock, msg)) :=
  sendLoop_spec table msg (Nat.zero_le _) (by have := table.room; omega)

/-- The inner loop of the removal moves the entries behind the one after `i` forward, if the table
is not full. -/
lemma shiftLoop_spec (socks : Socks) (rounds i : Nat) (lt : i < clntCnt)
    (enough : clntCnt < i + 1 + rounds) (room : clntCnt < MAX_CLNT) :
    ∃ socks', shiftLoop clntCnt rounds i socks = some socks' ∧
      ∀ j : Nat, socks'[j]? = if i < j ∧ (j : Int) < clntCnt then socks[j + 1]? else socks[j]? := by
  induction rounds generalizing i socks with
  | zero => omega
  | succ rounds ih =>
    rw [shiftLoop]
    by_cases last : i < clntCnt - 1
    · have inside : i + 1 + 1 < MAX_CLNT := by omega
      obtain ⟨socks', loop, entry⟩ :=
        ih (socks.set (i + 1) socks[i + 1 + 1]) (i + 1) (by omega) (by omega)
      refine ⟨socks', ?_, ?_⟩
      · rw [if_pos last, Vector.getElem?_eq_getElem inside]
        simp only [Option.bind_eq_bind, Option.bind_some, Socks.put,
          dif_pos (Nat.lt_of_succ_lt inside)]
        exact loop
      · intro j
        rw [entry j, Vector.getElem?_set, Vector.getElem?_set]
        by_cases first : j = i + 1
        · subst first
          rw [if_neg (by omega), if_pos rfl, if_pos (by omega), Vector.getElem?_eq_getElem inside]
        · by_cases behind : i < j ∧ (j : Int) < clntCnt
          · rw [if_pos behind, if_pos (by omega), if_neg (by omega)]
          · rw [if_neg behind, if_neg (by omega), if_neg (Ne.symm first)]
    · refine ⟨socks, if_neg last, ?_⟩
      intro j
      rw [if_neg (by omega)]

/-- There is nothing to move behind the last entry. -/
lemma shiftLoop_last {rounds i : Nat} (last : clntCnt = i + 1) :
    shiftLoop clntCnt (rounds + 1) i socks = some socks := by
  rw [shiftLoop, if_neg (by omega)]

variable {A B : List Int}

/-- The outer loop of the removal finds the first entry with the socket. -/
lemma removeLoop_spec (table : Table clntCnt socks (A ++ clntSock :: B)) (first : clntSock ∉ A)
    {rounds i : Nat} (le : i ≤ A.length) (enough : A.length < i + rounds) :
    removeLoop clntSock clntCnt rounds i socks = shiftLoop clntCnt
      (MAX_CLNT + 1) A.length socks := by
  have cnt : clntCnt = A.length + (B.length + 1) := by simpa using table.cnt
  induction rounds generalizing i with
  | zero => omega
  | succ rounds ih =>
    have entry := table.entry i (by simp; omega)
    rw [removeLoop, if_pos (by omega), entry]
    by_cases here : i = A.length
    · subst here
      simp
    · have lt : i < A.length := by omega
      have other : clntSock ≠ A[i] := fun e => first (e ▸ List.getElem_mem lt)
      rw [List.getElem?_append_left lt, List.getElem?_eq_getElem lt]
      simp only [Option.bind_eq_bind, Option.bind_some, if_neg other]
      exact ih lt (by omega)

/-- The socket that was connected last is taken out of the table. -/
lemma remove_last (table : Table clntCnt socks (A ++ [clntSock])) (first : clntSock ∉ A) :
    remove clntSock clntCnt socks = some (clntCnt - 1, socks) ∧ Table (clntCnt - 1) socks A := by
  have cnt : clntCnt = A.length + 1 := by simpa using table.cnt
  have room : A.length + 1 ≤ MAX_CLNT := by simpa using table.room
  constructor
  · rw [remove, removeLoop_spec table first (Nat.zero_le _) (by omega), shiftLoop_last cnt]
    rfl
  · refine ⟨by omega, by omega, ?_⟩
    intro j lt
    rw [table.entry j (by simp; omega), List.getElem?_append_left lt]

/-- For any other socket the one after it is taken out of the table, if the table is not full. -/
lemma remove_other {next : Int} (table : Table clntCnt socks (A ++ clntSock :: next :: B))
    (first : clntSock ∉ A) (room : clntCnt < MAX_CLNT) :
    ∃ socks', remove clntSock clntCnt socks = some (clntCnt - 1, socks') ∧
      Table (clntCnt - 1) socks' (A ++ clntSock :: B) := by
  have cnt : clntCnt = A.length + (B.length + 1 + 1) := by simpa using table.cnt
  obtain ⟨socks', shift, entry⟩ :=
    shiftLoop_spec socks (MAX_CLNT + 1) A.length (by omega) (by omega) room
  refine ⟨socks', ?_, by simp; omega, by simp; omega, ?_⟩
  · rw [remove, removeLoop_spec table first (Nat.zero_le _) (by omega), shift]
    rfl
  · intro j lt
    simp only [List.length_append, List.length_cons] at lt
    rw [entry j]
    by_cases behind : A.length < j
    · obtain ⟨k, rfl⟩ := Nat.exists_eq_add_of_lt behind
      rw [if_pos (by omega), table.entry _ (by simp; omega), List.getElem?_append_right (by omega),
        List.getElem?_append_right (by omega),
        show A.length + k + 1 + 1 - A.length = k + 1 + 1 by omega,
        show A.length + k + 1 - A.length = k + 1 by omega]
      simp
    · rw [if_neg (by omega), table.entry j (by simp; omega)]
      by_cases here : j = A.length
      · simp [here]
      · rw [List.getElem?_append_left (by omega), List.getElem?_append_left (by omega)]

end Table

/-- The thread has taken its socket out of the table, and not closed it. -/
abbrev Closing (threads : List Thread) (t : Nat) (sock : Int) : Prop :=
  threads[t]? = some (.closing sock)

/-- A new thread does not close a socket. -/
lemma Closing.of_append {threads : List Thread} {t : Nat} {sock : Int}
    (h : Closing (threads ++ [.created]) t sock) : Closing threads t sock := by
  rw [Closing, List.getElem?_append] at h
  by_cases old : t < threads.length
  · rw [if_pos old] at h
    exact h
  · rw [if_neg old] at h
    have created := List.mem_singleton.mp (List.mem_of_getElem? h)
    cases created

/-- The threads that close a socket after a step of the thread `t`. -/
lemma closing_set {threads : List Thread} {t t' : Nat} {x : Thread} {sock : Int}
    (h : Closing (threads.set t x) t' sock) :
    t = t' ∧ x = .closing sock ∨ t ≠ t' ∧ Closing threads t' sock := by
  rw [Closing, List.getElem?_set] at h
  by_cases same : t = t'
  · rw [if_pos same] at h
    by_cases lt : t' < threads.length
    · rw [same, if_pos lt] at h
      exact .inl ⟨same, Option.some.inj h⟩
    · rw [same, if_neg lt] at h
      cases h
  · rw [if_neg same] at h
    exact .inr ⟨same, h⟩

/-- What holds between the steps: the table has the connected clients, these are open sockets, and
no connected client has a thread that is about to close its socket. -/
structure ServerOk (s : Server) : Prop where
  table : Table s.clntCnt s.clntSocks s.connected
  distinct : s.connected.Nodup
  opened : ∀ sock ∈ s.connected, sock ∈ s.opened
  closing : ∀ t sock, Closing s.threads t sock → sock ∈ s.opened ∧ sock ∉ s.connected
  closer : ∀ t t' sock, Closing s.threads t sock → Closing s.threads t' sock → t = t'

lemma ServerOk.init (clntSock : Int) : ServerOk (init clntSock) where
  table := ⟨rfl, Nat.zero_le _, fun j lt => absurd lt (Nat.not_lt_zero j)⟩
  distinct := List.nodup_nil
  opened _ mem := absurd mem List.not_mem_nil
  closing t sock h := by simp [Chat.init, Closing] at h
  closer t t' sock h := by simp [Chat.init, Closing] at h

section Steps

variable {s : Server} {t : Nat} {sock : Int}

lemma ServerOk.connect (ok : ServerOk s) (fresh : sock ∉ s.opened)
    (room : s.connected.length < MAX_CLNT) :
    ∃ out s', serverStep s (.connect sock) = some (out, s') ∧ ServerOk s' := by
  obtain ⟨socks', e, table⟩ := enter_spec ok.table room sock
  have new : sock ∉ s.connected := fun mem => fresh (ok.opened sock mem)
  refine ⟨[], _, by simp only [serverStep, e]; rfl, table, ?_, ?_, ?_, ?_⟩
  · exact List.nodup_append.mpr ⟨ok.distinct, List.nodup_singleton sock, fun x mem y mem' e =>
      new (List.mem_singleton.mp mem' ▸ e ▸ mem)⟩
  · intro sock' mem
    rcases List.mem_append.mp mem with mem | mem
    · exact Finset.mem_insert_of_mem (ok.opened sock' mem)
    · rw [List.mem_singleton.mp mem]
      exact Finset.mem_insert_self _ _
  · intro t sock' h
    obtain ⟨opened, gone⟩ := ok.closing t sock' h.of_append
    refine ⟨Finset.mem_insert_of_mem opened, ?_⟩
    intro mem
    rcases List.mem_append.mp mem with mem | mem
    · exact gone mem
    · exact fresh (List.mem_singleton.mp mem ▸ opened)
  · intro t t' sock' h h'
    exact ok.closer t t' sock' h.of_append h'.of_append

lemma ServerOk.start (ok : ServerOk s) :
    ∃ out s', serverStep s (.start t) = some (out, s') ∧ ServerOk s' := by
  have same {t' sock} (h : Closing (s.threads.set t (.serving s.clntSock)) t' sock) :
      Closing s.threads t' sock := by
    rcases closing_set h with ⟨_, serving⟩ | ⟨_, h⟩
    · cases serving
    · exact h
  refine ⟨[], _, rfl, ok.table, ok.distinct, ok.opened, ?_, ?_⟩
  · intro t' sock h
    exact ok.closing t' sock (same h)
  · intro t₁ t₂ sock h₁ h₂
    exact ok.closer t₁ t₂ sock (same h₁) (same h₂)

lemma ServerOk.message (ok : ServerOk s) (msg : List UInt8) :
    ∃ out s', serverStep s (.message t msg) = some (out, s') ∧ ServerOk s' := by
  refine ⟨s.connected.map fun sock => (sock, msg), s, ?_, ok⟩
  simp only [serverStep, sendMsg_spec ok.table]
  rfl

lemma ServerOk.leave (ok : ServerOk s) (h : s.threads[t]? = some (.serving sock))
    (last : s.connected.getLast? = some sock) :
    ∃ out s', serverStep s (.leave t) = some (out, s') ∧ ServerOk s' := by
  obtain ⟨A, split⟩ := List.getLast?_eq_some_iff.mp last
  have distinct := ok.distinct
  have table := ok.table
  rw [split] at distinct table
  have mem : sock ∈ s.connected := split ▸ List.mem_append_right A (List.mem_singleton_self sock)
  have sub {x} (mem : x ∈ A) : x ∈ s.connected := split ▸ List.mem_append_left _ mem
  have gone : sock ∉ A := by
    intro mem
    exact (List.nodup_append.mp distinct).2.2 sock mem sock (List.mem_singleton_self sock) rfl
  have erase : s.connected.erase sock = A := by
    rw [split, List.erase_append_right _ gone, List.erase_cons_head, List.append_nil]
  -- no other thread is about to close the socket of a connected client
  have old {t' sock'} (closing : Closing s.threads t' sock') : sock' ≠ sock := by
    rintro rfl
    exact (ok.closing t' _ closing).2 mem
  obtain ⟨e, table'⟩ := remove_last table gone
  refine ⟨[],
    _, by simp only [serverStep, h, e, erase]; rfl, table', (List.nodup_append.mp distinct).1, ?_,
      ?_, ?_⟩
  · intro x mem
    exact ok.opened x (sub mem)
  · intro t' sock' h
    rcases closing_set h with ⟨_, e⟩ | ⟨_, h⟩
    · cases e
      exact ⟨ok.opened sock mem, gone⟩
    · obtain ⟨opened, gone⟩ := ok.closing t' sock' h
      exact ⟨opened, fun mem => gone (sub mem)⟩
  · intro t₁ t₂ sock' h₁ h₂
    rcases closing_set h₁ with ⟨rfl, e₁⟩ | ⟨_, h₁⟩ <;>
      rcases closing_set h₂ with ⟨rfl, e₂⟩ | ⟨_, h₂⟩
    · rfl
    · cases e₁
      exact absurd rfl (old h₂)
    · cases e₂
      exact absurd rfl (old h₁)
    · exact ok.closer t₁ t₂ sock' h₁ h₂

lemma ServerOk.close (ok : ServerOk s) (h : Closing s.threads t sock) :
    ∃ out s', serverStep s (.close t) = some (out, s') ∧ ServerOk s' := by
  have gone := (ok.closing t sock h).2
  have old {t' sock'} (h : Closing (s.threads.set t .finished) t' sock') : t ≠ t' ∧
      Closing s.threads t' sock' := by
    rcases closing_set h with ⟨_, e⟩ | h
    · cases e
    · exact h
  refine ⟨[], { s with threads := s.threads.set t .finished, opened := s.opened.erase sock }, ?_,
    ok.table, ok.distinct, ?_, ?_, ?_⟩
  · simp only [serverStep, h]
  · intro x mem
    refine Finset.mem_erase_of_ne_of_mem ?_ (ok.opened x mem)
    rintro rfl
    exact gone mem
  · intro t' sock' h'
    obtain ⟨ne, closing⟩ := old h'
    obtain ⟨opened, gone'⟩ := ok.closing t' sock' closing
    refine ⟨Finset.mem_erase_of_ne_of_mem ?_ opened, gone'⟩
    rintro rfl
    exact ne (ok.closer t t' _ h closing)
  · intro t₁ t₂ sock' h₁ h₂
    exact ok.closer t₁ t₂ sock' (old h₁).2 (old h₂).2

/-- The steps of `LastStep` do not fault, and keep the invariant. -/
lemma ServerOk.step {act : Action} (ok : ServerOk s) (allowed : Allowed s act)
    (last : LastLeaves s act) : ∃ out s', serverStep s act = some (out, s') ∧ ServerOk s' := by
  cases allowed with
  | connect fresh room => exact ok.connect fresh room
  | start => exact ok.start
  | @message _ _ msg => exact ok.message msg
  | leave h => exact ok.leave h (last _ _ rfl h)
  | close h => exact ok.close h

end Steps

/-- In every run in which no other client leaves than the one that was connected last, the first
`clnt_cnt` entries of the table are after every step the connected clients, each once and in the
order of connection, `send_msg` writes a message to each of them once and to no closed socket, and
no step faults. -/
theorem client_table_exact (clntSock : Int) {tr : List (Action × List Write)} {s : Server}
    (run : Run LastStep (init clntSock) tr s) :
    s.clntCnt = s.connected.length ∧ s.clntSocks.toList.take s.clntCnt.toNat = s.connected ∧
      s.connected.Nodup ∧
      (∀ msg, sendMsg msg s.clntCnt s.clntSocks = some (s.connected.map fun sock => (sock, msg))) ∧
      (∀ sock ∈ s.connected, sock ∈ s.opened) ∧
      ∀ act, Allowed s act → LastLeaves s act → ∃ out s', serverStep s act = some (out, s') := by
  have ok : ServerOk s := by
    refine run.invariant ServerOk (ServerOk.init clntSock) ?_
    rintro s a s' ok ⟨last, allowed, st⟩
    obtain ⟨out, s₁, st₁, ok₁⟩ := ok.step allowed last
    rw [st] at st₁
    cases st₁
    exact ok₁
  refine ⟨ok.table.cnt, ok.table.take_eq, ok.distinct, sendMsg_spec ok.table, ok.opened, ?_⟩
  intro act allowed last
  obtain ⟨out, s', st, _⟩ := ok.step allowed last
  exact ⟨out, s', st⟩

/-- Two clients are connected, and the second one leaves. -/
theorem client_table_exact_two :
    ∃ tr s, Run LastStep (init 0) tr s ∧ s.connected = [5] ∧
      s.clntSocks.toList.take s.clntCnt.toNat = s.connected := by
  have others {s : Server} {act : Action} (other : ∀ t, act ≠ .leave t) : LastLeaves s act :=
    fun t _ e => absurd e (other t)
  have run : Run LastStep (init 0)
      [(.leave 1, []), (.start 1, []), (.connect 6, []), (.start 0, []), (.connect 5, [])] _ :=
    .cons (.cons
      (.cons (.cons (.cons .nil ⟨others (by simp), .connect (by decide) (by decide), rfl⟩)
      ⟨others (by simp), .start rfl, rfl⟩)
        ⟨others (by simp), .connect (by decide) (by decide), rfl⟩)
      ⟨others (by simp), .start rfl, rfl⟩)
        ⟨by rintro t sock ⟨⟩ ⟨⟩; rfl, .leave rfl (by decide), rfl⟩
  exact ⟨_, _, run, rfl, (client_table_exact 0 run).2.1⟩

/-- Two clients are connected, and the first one leaves: its closed socket stays in the table, the
second client is no longer in it, and the next message of the second client is written to the
closed socket only. -/
theorem first_client_stays :
    ∃ tr s, Run ServerStep (init 0) tr s ∧ s.connected = [6] ∧
      s.clntSocks.toList.take s.clntCnt.toNat = [5] ∧
      5 ∉ s.opened ∧ Allowed s (.message 1 [104, 105]) ∧
      ∃ s', serverStep s (.message 1 [104, 105]) = some ([(5, [104, 105])], s') := by
  have run : Run ServerStep (init 0)
      [(.close 0, []), (.leave 0, []), (.start 1, []), (.connect 6, []), (.start 0, []),
          (.connect 5, [])] _ :=
    .cons (.cons
      (.cons (.cons (.cons (.cons .nil ⟨.connect (by decide) (by decide), rfl⟩) ⟨.start rfl, rfl⟩)
      ⟨.connect (by decide) (by decide), rfl⟩) ⟨.start rfl, rfl⟩) ⟨.leave rfl (by decide), rfl⟩)
        ⟨.close rfl, rfl⟩
  exact ⟨_, _, run, rfl, rfl, by decide, .message rfl (by decide) (by decide), _, rfl⟩

end SweetClib.Chat
