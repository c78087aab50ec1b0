import Mathlib.Data.Multiset.AddSub
import Mathlib.Tactic

/-!
# Unreliable channels

A channel carries messages from a sender to a receiver. It may lose what is under way and may
deliver it in any order, but it does not invent and does not duplicate: what is under way and what
was received are, with repetitions, among what was sent. This is a field of `Channel`, so that the
operations keep it by construction, and all that was received was sent (`Channel.received_le`).

A process that takes messages from one channel and puts them on the next one keeps the account
`Relays`: what it has in hand and what it has passed on are among what it received. `Repeats` is
the account of one that passes on each message several times. Accounts of processes in a row
compose with those of the channels between them.
-/

namespace SweetClib.Lib

variable {M : Type*}

/-- A channel: what was put on it, what is under way, and what was taken from it. -/
structure Channel (M : Type*) where
  sent : List M
  underway : List M
  received : List M
  balance : (underway : Multiset M) + received ≤ sent

namespace Channel

/-- A channel that was not used. -/
def empty : Channel M := ⟨[], [], [], le_rfl⟩

/-- A send keeps the balance. -/
lemma balance_send (c : Channel M) (m : M) :
    ((c.underway ++ [m] : List M) : Multiset M) + c.received ≤ (c.sent ++ [m] : List M) := by
  rw [← Multiset.coe_add, ← Multiset.coe_add, add_right_comm]
  exact add_le_add_left c.balance _

/-- Put a message on the channel. -/
def send (c : Channel M) (m : M) : Channel M where
  sent := c.sent ++ [m]
  underway := c.underway ++ [m]
  received := c.received
  balance := c.balance_send m

/-- Put messages on the channel, one after the other. -/
def sendAll (c : Channel M) (ms : List M) : Channel M := ms.foldl send c

/-- What was sent, after several sends. -/
@[simp] lemma sendAll_sent (c : Channel M) (ms : List M) : (c.sendAll ms).sent = c.sent ++ ms := by
  induction ms generalizing c with
  | nil => exact (List.append_nil _).symm
  | cons m ms ih =>
    rw [sendAll, List.foldl_cons, ← sendAll, ih, send, List.append_assoc]
    rfl

/-- A send receives nothing. -/
@[simp] lemma sendAll_received (c : Channel M) (ms : List M) :
    (c.sendAll ms).received = c.received := by
  induction ms generalizing c with
  | nil => rfl
  | cons m ms ih =>
    rw [sendAll, List.foldl_cons, ← sendAll, ih]
    rfl

/-- Nothing is received that was not sent. -/
lemma received_le (c : Channel M) : (c.received : Multiset M) ≤ c.sent :=
  le_trans (Multiset.le_add_left _ _) c.balance

/-- What is underway was sent. -/
lemma mem_sent (c : Channel M) {m : M} (mem : m ∈ c.underway) : m ∈ c.sent :=
  Multiset.mem_of_le (le_trans (Multiset.le_add_right _ _) c.balance) mem

variable [DecidableEq M]

/-- A receive keeps the balance. -/
lemma balance_receive (c : Channel M) {m : M} (mem : m ∈ c.underway) :
    (c.underway.erase m : Multiset M) + (c.received ++ [m] : List M) ≤ c.sent := by
  have split : ({m} : Multiset M) + c.underway.erase m = c.underway :=
    Multiset.coe_eq_coe.mpr (List.perm_cons_erase mem).symm
  calc (c.underway.erase m : Multiset M) + (c.received ++ [m] : List M)
      = ({m} : Multiset M) + c.underway.erase m + c.received := by
        rw [← Multiset.coe_add, Multiset.coe_singleton]
        abel
    _ = (c.underway : Multiset M) + c.received := by rw [split]
    _ ≤ c.sent := c.balance

/-- So does a loss. -/
lemma balance_lose (c : Channel M) (m : M) :
    (c.underway.erase m : Multiset M) + c.received ≤ c.sent := by
  refine le_trans ?_ c.balance
  gcongr
  exact Multiset.coe_le.mpr List.erase_sublist.subperm

/-- Take a message that is under way. -/
def receive (c : Channel M) (m : M) : Option (Channel M) :=
  if mem : m ∈ c.underway then
    some ⟨c.sent, c.underway.erase m, c.received ++ [m], c.balance_receive mem⟩
  else none

/-- Lose a message, if it is under way. -/
def lose (c : Channel M) (m : M) : Channel M :=
  ⟨c.sent, c.underway.erase m, c.received, c.balance_lose m⟩

variable {c c' : Channel M} {m : M}

/-- What is underway can be received. -/
lemma receive_of_mem (mem : m ∈ c.underway) : ∃ c', c.receive m = some c' := ⟨_, dif_pos mem⟩

/-- What a receive does. -/
lemma receive_eq_some (e : c.receive m = some c') :
    m ∈ c.underway ∧ c'.sent = c.sent ∧ c'.underway = c.underway.erase m ∧
      c'.received = c.received ++ [m] := by
  rw [receive] at e
  split at e
  · rename_i mem
    cases e
    exact ⟨mem, rfl, rfl, rfl⟩
  · cases e

/-- What is taken was sent, and not taken before as often as it was sent. -/
lemma receive_le (e : c.receive m = some c') :
    ((c.received ++ [m] : List M) : Multiset M) ≤ c.sent := by
  obtain ⟨_, sent, _, received⟩ := receive_eq_some e
  rw [← received, ← sent]
  exact c'.received_le

end Channel

/-- The account of a process between two channels: what it has in hand, and what it has passed on,
are among what it received. -/
def Relays (received hand passed : List M) : Prop := (hand : Multiset M) + passed ≤ received

section Relays

variable {received hand passed : List M} {m : M}

/-- Nothing was relayed at the start. -/
lemma Relays.nil : Relays ([] : List M) [] [] := le_rfl

/-- The process takes a message in its hand. -/
lemma Relays.take (relays : Relays received hand passed) (m : M) :
    Relays (received ++ [m]) (m :: hand) passed := by
  rw [Relays, ← Multiset.coe_add, ← Multiset.cons_coe, Multiset.cons_add, ← Multiset.singleton_add,
    add_comm, Multiset.coe_singleton]
  exact add_le_add_left relays _

/-- It passes on what it has in its hand. -/
lemma Relays.pass (relays : Relays received (m :: hand) passed) :
    Relays received hand (passed ++ [m]) := by
  have all : ((m :: hand : List M) : Multiset M) + passed ≤ received := relays
  refine le_of_eq_of_le ?_ all
  rw [← Multiset.coe_add, Multiset.coe_singleton, ← Multiset.cons_coe, ← Multiset.singleton_add]
  abel

/-- It drops what it has in its hand. -/
lemma Relays.drop (relays : Relays received hand passed) : Relays received [] passed :=
  le_trans (add_le_add_left (Multiset.zero_le _) _) relays

end Relays

/-- The account of a process that passes on each message at most `k` times: with those it still
owes, it has passed on a message at most `k` times as often as it received it. -/
def Repeats [BEq M] (k : Nat) (received : List M) (owed : M → Nat) (passed : List M) : Prop :=
  ∀ m, passed.count m + owed m ≤ k * received.count m

section Repeats

variable [BEq M] [LawfulBEq M] [DecidableEq M] {k r : Nat} {received passed : List M}
  {owed owed' : M → Nat} {m : M}

/-- The process takes a message, to pass it on `r` times. -/
lemma Repeats.take (repeats : Repeats k received owed passed) (le : r ≤ k)
    (more : ∀ m', owed' m' = owed m' + if m' = m then r else 0) :
    Repeats k (received ++ [m]) owed' passed := by
  intro m'
  have before := repeats m'
  rw [more, List.count_append, List.count_singleton, Nat.mul_add]
  by_cases same : m' = m
  · simp only [same, beq_self_eq_true, if_true] at before ⊢
    omega
  · have other : (m == m') = false := beq_eq_false_iff_ne.mpr (Ne.symm same)
    simp only [same, other, if_false, Bool.false_eq_true] at before ⊢
    omega

/-- It passes on what it owes. -/
lemma Repeats.pass (repeats : Repeats k received owed passed)
    (less : ∀ m', owed m' = owed' m' + if m' = m then 1 else 0) :
    Repeats k received owed' (passed ++ [m]) := by
  intro m'
  have before := repeats m'
  rw [less] at before
  rw [List.count_append, List.count_singleton]
  by_cases same : m' = m
  · simp only [same, beq_self_eq_true, if_true] at before ⊢
    omega
  · have other : (m == m') = false := beq_eq_false_iff_ne.mpr (Ne.symm same)
    simp only [same, other, if_false, Bool.false_eq_true] at before ⊢
    omega

end Repeats

end SweetClib.Lib
