import SweetClib.Majordomo.Zmsg

/-!
# The client APIs

A model of `lib/zeromq/MDP/mdcliapi.c`, which waits for the reply on a REQ socket, and of
`lib/zeromq/MDP/mdcliapi2.c`, which sends and receives on a DEALER socket. A REQ socket puts an
empty frame before what it sends and takes it off what it receives; a DEALER socket does neither.
The polls of a socket are given by what they lead to, and a list of them that ends stands for a
program that is interrupted. The timeout and what the programs print are left out.

C → Lean naming:
* `mdcli_send` of `mdcliapi.c` → `mdcliSend`, with `mdcliSendLoop` for its loop and `mdcliReply`
  for what it does with a reply
* `mdcli_send` and `mdcli_recv` of `mdcliapi2.c` → `mdcli2Send`, the message it sends, and
  `mdcli2Recv`
-/

namespace SweetClib.Majordomo

/-- What a REQ socket sends. -/
def reqSend (msg : Zmsg) : Zmsg :=
  [] :: msg

/-- What a REQ socket receives; it drops a message without the empty frame. -/
def reqRecv : Zmsg → Option Zmsg
  | [] :: msg => some msg
  | _ => none

/-- What a poll leads to: an error, a message, or nothing in time. -/
inductive Polled where
  | error
  | msg (msg : Zmsg)
  | timeout

/-- The checks of C `mdcli_send` on a reply. -/
def mdcliReply (service : Str) (msg : Zmsg) : Option Zmsg :=
  if 3 ≤ msg.length then
    match msg with
    | header :: replyService :: msg =>
      if header = MDPC_CLIENT ∧ replyService = service then some msg else none
    | _ => none
  else none

/-- The loop of C `mdcli_send`: the messages sent, each on a socket of its own, and the reply if
there is one. -/
def mdcliSendLoop (service : Str) (request : Zmsg) :
    Nat → List Polled → Option (List Zmsg × Option Zmsg)
  | 0, _ => some ([], none)
  | _ + 1, [] => some ([], none)
  | _ + 1, .error :: _ => some ([request], none)
  | _ + 1, .msg msg :: _ => (mdcliReply service msg).map fun reply => ([request], some reply)
  | retriesLeft + 1, .timeout :: polled =>
    (mdcliSendLoop service request retriesLeft polled).map fun r => (request :: r.1, r.2)

/-- C `mdcli_send` of `mdcliapi.c`. -/
def mdcliSend (service : Str) (request : Zmsg) (retries : Nat) (polled : List Polled) :
    Option (List Zmsg × Option Zmsg) :=
  mdcliSendLoop service (MDPC_CLIENT :: service :: request) retries polled

/-- C `mdcli_send` of `mdcliapi2.c`. -/
def mdcli2Send (service : Str) (request : Zmsg) : Zmsg :=
  [] :: MDPC_CLIENT :: service :: request

/-- C `mdcli_recv` of `mdcliapi2.c`. -/
def mdcli2Recv : Polled → Option (Option Zmsg)
  | .error => some none
  | .timeout => some none
  | .msg msg =>
    if 4 ≤ msg.length then
      match msg with
      | empty :: header :: _ :: msg =>
        if empty = [] ∧ header = MDPC_CLIENT then some (some msg) else none
      | _ => none
    else none

/-- C `mdcli_send` sends the request once more after every timeout, and returns the reply if it is
one for the service. -/
lemma mdcliSend_reply {service : Str} {msg reply : Zmsg}
    (ok : mdcliReply service msg = some reply) (request : Zmsg) {retries timeouts : Nat}
    (lt : timeouts < retries) (polled : List Polled) :
    mdcliSend service request retries (List.replicate timeouts .timeout ++ .msg msg :: polled) =
      some (List.replicate (timeouts + 1) (MDPC_CLIENT :: service :: request), some reply) := by
  rw [mdcliSend]
  induction timeouts generalizing retries with
  | zero =>
    obtain ⟨left, rfl⟩ := Nat.exists_eq_add_one.mpr lt
    simp [mdcliSendLoop, ok]
  | succ timeouts ih =>
    obtain ⟨left, rfl⟩ := Nat.exists_eq_add_one.mpr (Nat.zero_lt_of_lt lt)
    rw [List.replicate_succ, List.cons_append, mdcliSendLoop, ih (Nat.lt_of_succ_lt_succ lt)]
    rfl

end SweetClib.Majordomo
