import SweetClib.Pirate.Lazy

/-!
# The books of the lazy pirate client

Which numbers the client of `lpclient.c` has sent, how often, and which were replied to (`Ledger`).
The books are kept by every step of the client, and those of the servers and of the network leave
them alone. An error that is not an interrupt leaves the socket with a request that is still waited
for, and the reply to it is malformed then; without one the client is `Smooth`.
-/

namespace SweetClib.Pirate.Lazy
open SweetClib.Lib

/-- What a call of the client does to the system. -/
lemma put_sent (s : System) (r : Lpclient × Option Msg) :
    (s.put r).client = r.1 ∧ (s.put r).requests.sent = s.requests.sent ++ r.2.toList := by
  rcases r with ⟨client, _ | m⟩
  · exact ⟨rfl, (List.append_nil _).symm⟩
  · exact ⟨rfl, rfl⟩

/-- The numbers that were replied to when no error left one out: all up to the current one, which
is still missing while the client waits, and when it gave up. -/
def replied (c : Lpclient) : List Nat :=
  List.range' 1 (if c.point = .poll ∨ c.retriesLeft = 0 then c.sequence - 1 else c.sequence)

/-- No reply is for another number than the current one, as long as the socket waits for nothing
else. -/
structure Smooth (c : Lpclient) : Prop where
  wellFormed : c.malformed = []
  accepted : c.accepted = replied c
  waits : c.point = .poll → c.awaiting = some c.request
  free : c.point = .send → c.retriesLeft ≠ 0 → c.awaiting = none

/-- The books of the client. -/
structure Ledger (c : Lpclient) (sent : List Msg) : Prop where
  left : 0 ≤ c.retriesLeft ∧ c.retriesLeft + c.timeouts = REQUEST_RETRIES
  stopped : c.point = .done → c.interrupted ∨ c.retriesLeft = 0
  started : c.point = .poll → 1 ≤ c.sequence
  tries : c.point = .poll → 1 ≤ c.retriesLeft ∧
    sends sent c.sequence + c.retriesLeft ≤ REQUEST_RETRIES + 1
  most : ∀ n, sends sent n ≤ REQUEST_RETRIES
  unsent : ∀ n, c.sequence < n → sends sent n = 0
  order : c.accepted.Pairwise (· < ·)
  bound : ∀ n ∈ c.accepted, n ≤ c.sequence ∧ (c.point = .poll → n < c.sequence)
  account : ∀ n, 1 ≤ n → n ≤ c.sequence →
    n ∈ c.accepted ∨ n ∈ c.broken ∨ n = c.sequence ∧ (c.point = .poll ∨ c.retriesLeft = 0)
  smooth : c.broken = [] → Smooth c

section Ledger

variable {c c' : Lpclient} {sent sent' : List Msg}

/-- The number `k` was sent at most once more. -/
def Again (sent sent' : List Msg) (k : Nat) : Prop :=
  ∀ n, sends sent' n ≤ sends sent n + if n = k then 1 else 0

/-- One more message for its number. -/
lemma Again.self {k : Nat} (again : Again sent sent' k) : sends sent' k ≤ sends sent k + 1 := by
  have := again k
  rwa [if_pos rfl] at this

/-- No more messages for another number. -/
lemma Again.other {k n : Nat} (again : Again sent sent' k) (ne : n ≠ k) :
    sends sent' n ≤ sends sent n := by
  have := again n
  rwa [if_neg ne] at this

/-- A send is for the number of the request. -/
lemma again_zstrSend (number : c.request = natText c.sequence) :
    Again sent (sent ++ (zstrSend c).2.toList) c.sequence := by
  intro n
  rw [sends, List.map_append, List.count_append, zstrSend]
  refine Nat.add_le_add_left ?_ _
  split
  · exact Nat.zero_le _
  · by_cases same : n = c.sequence
    · simp [number, same]
    · have other : natText c.sequence ≠ natText n := fun e => same (natText_inj e.symm)
      simp [number, same, other]

/-- The ledger of a client that has not started. -/
lemma Ledger.new : Ledger lazyNew.client [] where
  left := ⟨by decide, rfl⟩
  stopped := nofun
  started := nofun
  tries := nofun
  most _ := Nat.zero_le _
  unsent _ _ := rfl
  order := .nil
  bound := nofun
  account n one le := absurd (one.trans le) (by decide)
  smooth _ := ⟨rfl, rfl, nofun, fun _ _ => rfl⟩

/-- The next number is sent. -/
lemma Ledger.send (ledger : Ledger c sent) (here : c.point = .send) (more : c.retriesLeft ≠ 0)
    (again : Again sent sent' (c.sequence + 1)) :
    Ledger { c with point := .poll, sequence := c.sequence + 1, request := natText (c.sequence + 1),
                    awaiting := some (c.awaiting.getD (natText (c.sequence + 1))) } sent' := by
  obtain ⟨pos, left⟩ := ledger.left
  have first : sends sent' (c.sequence + 1) ≤ 1 := by
    have := again.self
    have := ledger.unsent (c.sequence + 1) (Nat.lt_succ_self _)
    omega
  refine ⟨⟨pos, left⟩, nofun, fun _ => Nat.le_add_left 1 _, fun _ => ⟨?_, ?_⟩, fun n => ?_,
    fun n lt => ?_, ledger.order, fun n mem => ?_, fun n one le => ?_, fun none => ?_⟩
  · show 1 ≤ c.retriesLeft
    omega
  · show (sends sent' (c.sequence + 1) : Int) + c.retriesLeft ≤ _
    omega
  · by_cases same : n = c.sequence + 1
    · rw [same]
      exact first.trans (by decide)
    · exact (again.other same).trans (ledger.most n)
  · have lt : c.sequence + 1 < n := lt
    have := again.other (n := n) (by omega)
    have := ledger.unsent n (by omega)
    omega
  · have le := (ledger.bound n mem).1
    exact ⟨Nat.le_succ_of_le le, fun _ => Nat.lt_succ_of_le le⟩
  · obtain old | rfl := Nat.le_succ_iff.mp le
    · obtain mem | mem | ⟨_, waits | zero⟩ := ledger.account n one old
      · exact .inl mem
      · exact .inr (.inl mem)
      · exact absurd (here.symm.trans waits) (by decide)
      · exact absurd zero more
    · exact .inr (.inr ⟨rfl, .inl rfl⟩)
  · have smooth := ledger.smooth none
    refine ⟨smooth.wellFormed, ?_, fun _ => ?_, nofun⟩
    · show c.accepted = _
      rw [smooth.accepted, replied, replied, here]
      simp [more]
    · show some (c.awaiting.getD _) = _
      rw [smooth.free here more]
      rfl

/-- The number is left because of an error. -/
lemma Ledger.error (ledger : Ledger c sent) :
    Ledger { c with point := .send, broken := c.broken ++ [c.sequence] } sent where
  left := ledger.left
  stopped := nofun
  started := nofun
  tries := nofun
  most := ledger.most
  unsent := ledger.unsent
  order := ledger.order
  bound n mem := ⟨(ledger.bound n mem).1, nofun⟩
  account n one le := by
    obtain mem | mem | ⟨same, _⟩ := ledger.account n one le
    · exact .inl mem
    · exact .inr (.inl (List.mem_append_left _ mem))
    · exact .inr (.inl (List.mem_append_right _ (List.mem_singleton.mpr same)))
  smooth none := absurd none (by simp)

/-- The reply to the current number. -/
lemma Ledger.accept (ledger : Ledger c sent) (here : c.point = .poll) :
    Ledger { c with point := .send, awaiting := none, retriesLeft := REQUEST_RETRIES, timeouts := 0,
                    accepted := c.accepted ++ [c.sequence] } sent where
  left := ⟨Int.natCast_nonneg _, rfl⟩
  stopped := nofun
  started := nofun
  tries := nofun
  most := ledger.most
  unsent := ledger.unsent
  order := by
    refine List.pairwise_append.mpr ⟨ledger.order, List.pairwise_singleton _ _, ?_⟩
    intro n mem m last
    rw [List.mem_singleton.mp last]
    exact (ledger.bound n mem).2 here
  bound n mem := by
    refine ⟨?_, nofun⟩
    obtain mem | mem := List.mem_append.mp mem
    · exact (ledger.bound n mem).1
    · exact (List.mem_singleton.mp mem).le
  account n one le := by
    obtain mem | mem | ⟨same, _⟩ := ledger.account n one le
    · exact .inl (List.mem_append_left _ mem)
    · exact .inr (.inl mem)
    · exact .inl (List.mem_append_right _ (List.mem_singleton.mpr same))
  smooth none := by
    have smooth := ledger.smooth none
    refine ⟨smooth.wellFormed, ?_, nofun, fun _ _ => rfl⟩
    show c.accepted ++ [c.sequence] = _
    obtain ⟨k, next⟩ := Nat.exists_eq_add_of_le' (ledger.started here)
    rw [smooth.accepted, replied, replied, here, next]
    simp [REQUEST_RETRIES, List.range'_concat, Nat.add_comm]

/-- A reply to another number; there is none unless an error left a number out. -/
lemma Ledger.reject (ledger : Ledger c sent) (here : c.point = .poll)
    (current : c.request = natText c.sequence) {t : List UInt8} (waits : c.awaiting = some t)
    (other : t ≠ natText c.sequence) :
    Ledger { c with awaiting := none, malformed := c.malformed ++ [t] } sent where
  left := ledger.left
  stopped := ledger.stopped
  started := ledger.started
  tries := ledger.tries
  most := ledger.most
  unsent := ledger.unsent
  order := ledger.order
  bound := ledger.bound
  account := ledger.account
  smooth none := by
    have awaited := (ledger.smooth none).waits here
    rw [waits, current] at awaited
    exact absurd (Option.some.inj awaited) other

/-- The client gives up. -/
lemma Ledger.abandon (ledger : Ledger c sent) (here : c.point = .poll) (last : c.retriesLeft = 1) :
    Ledger { c with point := .send, retriesLeft := 0, timeouts := c.timeouts + 1 } sent where
  left := by
    have := ledger.left.2
    refine ⟨le_rfl, ?_⟩
    show 0 + ((c.timeouts + 1 : Nat) : Int) = _
    push_cast
    omega
  stopped := nofun
  started := nofun
  tries := nofun
  most := ledger.most
  unsent := ledger.unsent
  order := ledger.order
  bound n mem := ⟨(ledger.bound n mem).1, nofun⟩
  account n one le := by
    obtain mem | mem | ⟨same, _⟩ := ledger.account n one le
    · exact .inl mem
    · exact .inr (.inl mem)
    · exact .inr (.inr ⟨same, .inr rfl⟩)
  smooth none := by
    have smooth := ledger.smooth none
    refine ⟨smooth.wellFormed, ?_, nofun, fun _ ne => absurd rfl ne⟩
    show c.accepted = _
    rw [smooth.accepted, replied, replied, here]
    simp

/-- The number is sent once more. -/
lemma Ledger.retry (ledger : Ledger c sent) (here : c.point = .poll) (more : c.retriesLeft ≠ 1)
    (again : Again sent sent' c.sequence) :
    Ledger { c with retriesLeft := c.retriesLeft - 1, timeouts := c.timeouts + 1,
                    socket := c.socket + 1, awaiting := some c.request } sent' := by
  obtain ⟨pos, left⟩ := ledger.left
  obtain ⟨some_left, tries⟩ := ledger.tries here
  have once := again.self
  refine ⟨⟨?_, ?_⟩, fun done => ?_, ledger.started, fun _ => ⟨?_, ?_⟩, fun n => ?_, fun n lt => ?_,
    ledger.order, ledger.bound, fun n one le => ?_, fun none => ?_⟩
  · show 0 ≤ c.retriesLeft - 1
    omega
  · show c.retriesLeft - 1 + ((c.timeouts + 1 : Nat) : Int) = _
    push_cast
    omega
  · exact absurd (here.symm.trans done) (by decide)
  · show 1 ≤ c.retriesLeft - 1
    omega
  · show (sends sent' c.sequence : Int) + (c.retriesLeft - 1) ≤ _
    omega
  · by_cases same : n = c.sequence
    · rw [same]
      omega
    · exact (again.other same).trans (ledger.most n)
  · have lt : c.sequence < n := lt
    have := again.other (n := n) (by omega)
    have := ledger.unsent n lt
    omega
  · obtain mem | mem | ⟨same, _⟩ := ledger.account n one le
    · exact .inl mem
    · exact .inr (.inl mem)
    · exact .inr (.inr ⟨same, .inl here⟩)
  · have smooth := ledger.smooth none
    refine ⟨smooth.wellFormed, ?_, fun _ => rfl, fun send => ?_⟩
    · show c.accepted = _
      rw [smooth.accepted, replied, replied, here]
      simp
    · exact absurd (here.symm.trans send) (by decide)

/-- An interrupt sends nothing. -/
lemma Ledger.interrupt (ledger : Ledger c sent) : Ledger { c with interrupted := true } sent := by
  refine ⟨ledger.left, fun _ => .inl rfl, ledger.started, ledger.tries, ledger.most, ledger.unsent,
    ledger.order, ledger.bound, ledger.account, fun none => ?_⟩
  have smooth := ledger.smooth none
  exact ⟨smooth.wellFormed, smooth.accepted, smooth.waits, smooth.free⟩

/-- The client leaves its loop. -/
lemma Ledger.stop (ledger : Ledger c sent) (here : c.point = .send)
    (ends : c.interrupted ∨ c.retriesLeft = 0) : Ledger { c with point := .done } sent := by
  refine ⟨ledger.left, fun _ => ends, nofun, nofun, ledger.most, ledger.unsent, ledger.order,
    fun n mem => ⟨(ledger.bound n mem).1, nofun⟩, fun n one le => ?_, fun none => ?_⟩
  · obtain mem | mem | ⟨same, waits | zero⟩ := ledger.account n one le
    · exact .inl mem
    · exact .inr (.inl mem)
    · exact absurd (here.symm.trans waits) (by decide)
    · exact .inr (.inr ⟨same, .inr zero⟩)
  · have smooth := ledger.smooth none
    refine ⟨smooth.wellFormed, ?_, nofun, nofun⟩
    show c.accepted = _
    rw [smooth.accepted, replied, replied, here]
    simp

/-- Every step of the system keeps the ledger. -/
lemma Ledger.step {s s' : System} (ledger : Ledger s.client s.requests.sent) (flow : Flow s)
    (st : Trans s s') : Ledger s'.client s'.requests.sent := by
  cases st with
  | stop here ends => exact ledger.stop here ends
  | @send d here more _ e =>
    obtain ⟨client, sent⟩ := put_sent s (zstrSend d)
    rw [client, sent]
    have again : Again s.requests.sent _ d.sequence := again_zstrSend (by rw [e])
    subst e
    exact ledger.send here more again
  | error => exact ledger.error
  | accept here => exact ledger.accept here
  | @reject t replies number here took read other =>
    obtain ⟨current, short⟩ := flow.current here
    refine ledger.reject here current (flow.awaited (Channel.receive_eq_some took).1) ?_
    rintro rfl
    rw [takeWhile_natText, atoi_natText short] at read
    exact other (Option.some.inj read).symm
  | abandon here last => exact ledger.abandon here last
  | @retry d here more e =>
    obtain ⟨client, sent⟩ := put_sent s (zstrSend d)
    rw [client, sent]
    have again : Again s.requests.sent _ d.sequence :=
      again_zstrSend (by rw [e]; exact (flow.current here).1)
    subst e
    exact ledger.retry here more again
  | interrupt => exact ledger.interrupt
  | take _ took =>
    rw [(Channel.receive_eq_some took).2.1]
    exact ledger
  | answer => exact ledger
  | leave => exact ledger
  | loseRequest => exact ledger
  | loseReply => exact ledger

end Ledger

/-- Every number that was replied to was read by a server. -/
def Heard (s : System) : Prop := ∀ n ∈ s.client.accepted, natText n ∈ s.handled

section Heard

variable {s s' : System}

/-- What the server has heard, it has heard later on. -/
lemma Heard.of_sublist (heard : Heard s) (same : s'.client.accepted = s.client.accepted)
    (more : s.requests.received.Sublist s'.requests.received) : Heard s' := by
  intro n mem
  rw [same] at mem
  exact (more.map Prod.snd).subset (heard n mem)

/-- A call of the client does not receive a request. -/
lemma put_received (s : System) (r : Lpclient × Option Msg) :
    (s.put r).requests.received = s.requests.received := by
  rcases r with ⟨client, _ | m⟩ <;> rfl

/-- Every step keeps what was heard. -/
lemma Heard.step (heard : Heard s) (flow : Flow s) (st : Trans s s') : Heard s' := by
  cases st with
  | stop => exact heard
  | @send d here more short e =>
    refine heard.of_sublist ?_ (put_received s _ ▸ .refl _)
    rw [(put_sent s (zstrSend d)).1, e]
    rfl
  | error => exact heard
  | @accept t replies here took read =>
    intro n mem
    obtain mem | mem := List.mem_append.mp mem
    · exact heard n mem
    · obtain ⟨underway, _⟩ := Channel.receive_eq_some took
      rw [List.mem_singleton.mp mem, ← flow.text_of_atoi underway read]
      exact List.mem_map_of_mem (flow.replies_received underway)
  | reject => exact heard
  | abandon => exact heard
  | @retry d here more e =>
    refine heard.of_sublist ?_ (put_received s _ ▸ .refl _)
    rw [(put_sent s (zstrSend d)).1, e]
    rfl
  | interrupt => exact heard
  | take _ took =>
    obtain ⟨_, _, _, received⟩ := Channel.receive_eq_some took
    exact heard.of_sublist rfl (received ▸ List.sublist_append_left _ _)
  | answer => exact heard
  | leave => exact heard
  | loseRequest => exact heard
  | loseReply => exact heard

end Heard

/-- What is asked of the client and the servers. -/
structure Dialogue (s : System) : Prop where
  order : s.client.accepted.Pairwise (· < ·)
  account : ∀ n, 1 ≤ n → n ≤ s.client.sequence →
    n ∈ s.client.accepted ∨ n ∈ s.client.broken ∨ n = s.client.sequence ∧
      (s.client.point = .poll ∨ s.client.retriesLeft = 0)
  heard : ∀ n ∈ s.client.accepted, natText n ∈ s.handled
  most : ∀ n, s.handled.count (natText n) ≤ REQUEST_RETRIES
  smooth : s.client.broken = [] → s.client.malformed = [] ∧
    s.client.accepted = List.range' 1 s.client.accepted.length
  stops : s.client.point = .done → s.client.interrupted ∨ s.client.timeouts = REQUEST_RETRIES
  expected : ∀ text, (s.client.socket, text) ∈ s.replies.underway → s.client.point = .poll →
    ∃ s', lazyStep s (.reply text) = some s'

/-- In every run of the client, with servers that come and go and messages that are lost: the
numbers that were replied to rise, so that no reply is counted twice; every number up to the
current one was replied to, was left because of an error, or is the current one while the client
waits or after it gave up; each number that was replied to was read by a server, and no number was
read more than `REQUEST_RETRIES` times. Unless an error left a number out, no reply is malformed,
and the numbers that were replied to are all from the first one on. The client ends when it is
interrupted or when `REQUEST_RETRIES` waits in a row timed out, and it never faults on what
arrives. -/
theorem lazy_pirate : ∀ tr s, Run LazyTrans lazyNew tr s → Dialogue s := by
  intro tr s run
  have flow : Flow s := run.invariant Flow .new fun _ _ _ flow st => flow.step (trans_of_step st)
  have ledger : Ledger s.client s.requests.sent :=
    run.invariant_under Flow (fun s => Ledger s.client s.requests.sent) .new
      (fun _ _ _ flow st => flow.step (trans_of_step st)) .new
      (fun _ _ _ flow ledger st => ledger.step flow (trans_of_step st))
  have heard : Heard s :=
    run.invariant_under Flow Heard .new (fun _ _ _ flow st => flow.step (trans_of_step st)) nofun
      (fun _ _ _ flow heard st => heard.step flow (trans_of_step st))
  refine ⟨ledger.order, ledger.account, heard, fun n => ?_, fun none => ?_, fun done => ?_,
    fun text mem here => ?_⟩
  · have le := Multiset.map_le_map (f := Prod.snd) s.requests.received_le
    rw [Multiset.map_coe, Multiset.map_coe, Multiset.coe_le] at le
    exact (le.count_le _).trans (ledger.most n)
  · have smooth := ledger.smooth none
    refine ⟨smooth.wellFormed, ?_⟩
    rw [smooth.accepted, replied, List.length_range']
  · obtain interrupted | zero := ledger.stopped done
    · exact .inl interrupted
    · have := ledger.left.2
      exact .inr (by omega)
  · obtain ⟨n, number, short⟩ := flow.replies_text mem
    have number : text = natText n := number
    obtain ⟨client, read⟩ : ∃ client, lpclientReply s.client text = some client := by
      rw [lpclientReply, number, takeWhile_natText, atoi_natText short, Option.bind_eq_bind,
        Option.bind_some]
      split <;> exact ⟨_, rfl⟩
    have awaits : s.client.awaiting.isSome := by
      rw [flow.awaited mem]
      rfl
    obtain ⟨replies, took⟩ := Channel.receive_of_mem mem
    refine ⟨{ s with client, replies }, ?_⟩
    rw [lazyStep, if_pos ⟨here, awaits⟩, took, Option.bind_eq_bind, Option.bind_some, read]
    rfl

/-- The first request is lost and sent again on another socket; a server reads it and answers, and
the client goes on to the next number. -/
theorem lazy_pirate_retry : ∃ s : System,
    Run LazyTrans lazyNew
      [.send, .reply [49], .answer, .take (1, [49]), .timeout, .loseRequest (0, [49]), .start,
        .send] s ∧
    s.client.accepted = [1] ∧ s.client.sequence = 2 ∧ s.handled = [[49]] ∧ Dialogue s := by
  have all : (exec lazyStep lazyNew
      [.send, .reply [49], .answer, .take (1, [49]), .timeout, .loseRequest (0, [49]), .start,
        .send]).any
      (fun s => s.client.accepted = [1] ∧ s.client.sequence = 2 ∧ s.handled = [[49]]) = true := by
    decide +kernel
  obtain ⟨s, e, facts⟩ := (Option.any_eq_true _ _).mp all
  obtain ⟨accepted, sequence, handled⟩ := of_decide_eq_true facts
  exact ⟨s, exec_run e, accepted, sequence, handled, lazy_pirate _ _ (exec_run e)⟩

end SweetClib.Pirate.Lazy
