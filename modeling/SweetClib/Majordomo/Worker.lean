import SweetClib.Majordomo.Zmsg

/-!
# The worker API

A model of `lib/zeromq/MDP/mdwrkapi.c`. A session is in its application until that calls
`mdwrk_recv`, and then polls its socket until a request arrives. The functions here say what a
session does with what it gets; the sockets are those of the system around it. A worker that is
interrupted takes no further steps, and the delay before a reconnection is time that passes.

C → Lean naming:
* `mdwrk_t` → `Mdwrk`, without the context, the endpoint, the socket and the delay
* `s_mdwrk_send_to_broker` → `sMdwrkSendToBroker`, the message it sends
* `s_mdwrk_connect_to_broker` → `sMdwrkConnectToBroker`
* `mdwrk_new`, `mdwrk_set_heartbeat` → `mdwrkNew`, `mdwrkSetHeartbeat`
* `mdwrk_recv` → `mdwrkRecvReply` before its loop; in a round of the loop `mdwrkRecvMsg` or
  `mdwrkRecvTimeout`
-/

namespace SweetClib.Majordomo

/-- C `HEARTBEAT_LIVENESS` of the worker API. -/
def WORKER_LIVENESS : Nat := 3

/-- A worker session (C `mdwrk_t`); `polling` says that the application is inside `mdwrk_recv`. -/
structure Mdwrk where
  service : Str
  heartbeatAt : Nat
  liveness : Nat
  heartbeat : Nat
  expectReply : Bool
  replyTo : Option Frame
  polling : Bool

/-- The message of C `s_mdwrk_send_to_broker`. -/
def sMdwrkSendToBroker (command : Str) (option : Option Str) (msg : Option Zmsg) : Zmsg :=
  let msg := msg.getD []
  let msg := match option with
    | some option => option :: msg
    | none => msg
  [] :: MDPW_WORKER :: command :: msg

/-- C `s_mdwrk_connect_to_broker`: the session and the message sent on the new socket. -/
def sMdwrkConnectToBroker (self : Mdwrk) (now : Nat) : Mdwrk × Zmsg :=
  ({ self with liveness := WORKER_LIVENESS, heartbeatAt := now + self.heartbeat },
    sMdwrkSendToBroker MDPW_READY (some self.service) none)

/-- The session of C `mdwrk_new` before it connects. -/
def mdwrkNew (service : Str) : Mdwrk :=
  { service := service, heartbeatAt := 0, liveness := 0, heartbeat := 2500, expectReply := false,
    replyTo := none, polling := false }

/-- C `mdwrk_set_heartbeat`. -/
def mdwrkSetHeartbeat (self : Mdwrk) (heartbeat : Nat) : Mdwrk :=
  { self with heartbeat := heartbeat }

/-- C `mdwrk_recv` is called: the reply is sent, and polling begins. -/
def mdwrkRecvReply (self : Mdwrk) (reply : Option Zmsg) : Option (Mdwrk × List Zmsg) :=
  let polling := { self with expectReply := true, polling := true }
  match reply with
  | none => if self.expectReply then none else some (polling, [])
  | some reply =>
    match self.replyTo with
    | none => none
    | some client =>
      some (polling, [sMdwrkSendToBroker MDPW_REPLY none (some (zmsgWrap reply client))])

/-- How a round of the loop of C `mdwrk_recv` goes on: return to the application, stay, or connect
again. -/
inductive Outcome where
  | request (msg : Zmsg)
  | stay
  | reconnect
  deriving DecidableEq

/-- A message arrives in the loop of C `mdwrk_recv`. -/
def mdwrkRecvMsg (self : Mdwrk) (msg : Zmsg) : Option (Mdwrk × Outcome) :=
  let self := { self with liveness := WORKER_LIVENESS }
  match msg with
  | empty :: header :: command :: msg =>
    if empty = [] ∧ header = MDPW_WORKER then
      if command = MDPW_REQUEST then
        match zmsgUnwrap msg with
        | none => none
        | some (client, msg) =>
          some ({ self with replyTo := some client, polling := false }, .request msg)
      else if command = MDPW_HEARTBEAT then some (self, .stay)
      else if command = MDPW_DISCONNECT then some (self, .reconnect)
      else some (self, .stay)
    else none
  | _ => none

/-- Nothing arrives in the loop of C `mdwrk_recv`. -/
def mdwrkRecvTimeout (self : Mdwrk) : Mdwrk × Outcome :=
  let self := { self with liveness := self.liveness - 1 }
  (self, if self.liveness = 0 then .reconnect else .stay)

end SweetClib.Majordomo
