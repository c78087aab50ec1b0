import SweetClib.Lib.Heap
import SweetClib.Majordomo.Zmsg

/-!
# The Majordomo broker

A model of `lib/zeromq/MDP/mdbroker.c`. The workers live in a heap, since three containers refer to
them and deleting one frees it; a service is never freed before the broker itself is, so its name
stands for the pointer to it. A `zlist_t` is a list, of which `zlist_remove` removes one
occurrence, a `zhash_t` is a finite map. `none` is a fault of the program: a failed assertion, the
null pointer, a freed cell or an allocation that `zmalloc` does not get.

The `n`-th call of `zclock_time` returns `clock n`, and `reads` counts the calls. The address a new
worker gets comes with the message that registers it. What the program prints is left out.

C → Lean naming:
* `broker_t`, `service_t`, `worker_t` → `Broker`, `Service`, `Worker`
* `s_broker_new`, `s_broker_worker_msg`, `s_broker_client_msg`, `s_broker_purge` → `sBrokerNew`,
  `sBrokerWorkerMsg`, `sBrokerClientMsg`, `sBrokerPurge`
* `s_service_require`, `s_service_dispatch` → `sServiceRequire`, `sServiceDispatch`
* `s_worker_require`, `s_worker_delete`, `s_worker_send`, `s_worker_waiting` → `sWorkerRequire`,
  `sWorkerDelete`, `sWorkerSend`, `sWorkerWaiting`
* the body of the loop of `main` → `brokerRecv` and `brokerTick`
-/

namespace SweetClib.Majordomo
open SweetClib.Lib

/-- C `HEARTBEAT_LIVENESS`. -/
def HEARTBEAT_LIVENESS : Nat := 3

/-- C `HEARTBEAT_INTERVAL`, in milliseconds. -/
def HEARTBEAT_INTERVAL : Nat := 2500

/-- C `HEARTBEAT_EXPIRY`. -/
def HEARTBEAT_EXPIRY : Nat := HEARTBEAT_INTERVAL * HEARTBEAT_LIVENESS

/-- A worker (C `worker_t`); its `id_string` is its identity in hexadecimal. -/
structure Worker where
  idString : Str
  identity : Frame
  service : Option Str
  expiry : Nat
  hex : idString = zframeStrhex identity
  deriving DecidableEq

/-- A client request in the hands of the broker; `seq` numbers the accepted requests, so that two
requests of the same contents are still two. -/
structure Request where
  seq : Nat
  msg : Zmsg
  deriving DecidableEq

/-- A service (C `service_t`); `workers` is a `size_t`. -/
structure Service where
  requests : List Request
  waiting : List Addr
  workers : UInt64

/-- A record of a request sent: the service, the worker as it was, whether it was registered, and
the latest reading of the clock. -/
structure Sent where
  service : Str
  worker : Worker
  registered : Bool
  request : Request
  now : Nat

/-- The broker (C `broker_t`). The last three fields are its history: the messages sent on the
socket, the requests accepted for each service and the requests sent to workers. -/
structure Broker where
  heap : Heap Worker
  services : Str → Option Service
  workers : Str → Option Addr
  waiting : List Addr
  heartbeatAt : Nat
  reads : Nat
  out : List Zmsg
  accepted : List (Str × Request)
  sent : List Sent

/-- Read the clock (C `zclock_time`). -/
def zclockTime (clock : Nat → Nat) (b : Broker) : Nat × Broker :=
  (clock b.reads, { b with reads := b.reads + 1 })

/-- Send a message on the socket (C `zmsg_send`). -/
def zmsgSend (b : Broker) (msg : Zmsg) : Broker :=
  { b with out := b.out ++ [msg] }

/-- Store a service under its name. -/
def Broker.setService (b : Broker) (name : Str) (s : Service) : Broker :=
  { b with services := Function.update b.services name (some s) }

/-- C `s_broker_new`. -/
def sBrokerNew (clock : Nat → Nat) : Broker :=
  { heap := Heap.empty, services := fun _ => none, workers := fun _ => none, waiting := [],
    heartbeatAt := clock 0 + HEARTBEAT_INTERVAL, reads := 1, out := [], accepted := [], sent := [] }

/-- C `s_worker_send`. -/
def sWorkerSend (b : Broker) (self : Worker) (command : Str) (option : Option Str)
    (msg : Option Zmsg) : Broker :=
  let msg := msg.getD []
  let msg := match option with
    | some option => option :: msg
    | none => msg
  zmsgSend b (zmsgWrap (MDPW_WORKER :: command :: msg) self.identity)

/-- C `s_worker_delete`; taking the worker out of `workers` frees it. -/
def sWorkerDelete (b : Broker) (self : Addr) (disconnect : Bool) : Option Broker := do
  let w ← b.heap self
  let b := if disconnect then sWorkerSend b w MDPW_DISCONNECT none none else b
  let b ← match w.service with
    | none => some b
    | some name => do
      let s ← b.services name
      some (b.setService name { s with waiting := s.waiting.erase self, workers := s.workers - 1 })
  let b := { b with waiting := b.waiting.erase self }
  match b.workers w.idString with
  | none => some b
  | some p =>
    some { b with workers := Function.update b.workers w.idString none, heap := b.heap.free p }

/-- The loop of `s_broker_purge`; it takes a worker off the list each time round. -/
def purgeLoop (clock : Nat → Nat) : Nat → Broker → Option Broker
  | 0, b => some b
  | n + 1, b =>
    match b.waiting with
    | [] => some b
    | worker :: _ => do
      let w ← b.heap worker
      let (now, b) := zclockTime clock b
      if now < w.expiry then
        some b
      else do
        let b ← sWorkerDelete b worker false
        purgeLoop clock n b

/-- C `s_broker_purge`. -/
def sBrokerPurge (clock : Nat → Nat) (b : Broker) : Option Broker :=
  purgeLoop clock b.waiting.length b

/-- C `s_service_require`. -/
def sServiceRequire (b : Broker) (serviceFrame : Frame) : Str × Broker :=
  let name := zframeStrdup serviceFrame
  match b.services name with
  | none => (name, b.setService name { requests := [], waiting := [], workers := 0 })
  | some _ => (name, b)

/-- The loop of `s_service_dispatch`; it takes a request off the queue each time round. -/
def dispatchLoop (clock : Nat → Nat) (name : Str) : Nat → Broker → Option Broker
  | 0, b => some b
  | n + 1, b => do
    let self ← b.services name
    match self.waiting, self.requests with
    | worker :: waiting, msg :: requests => do
      let b := b.setService name { self with waiting := waiting, requests := requests }
      let b := { b with waiting := b.waiting.erase worker }
      let w ← b.heap worker
      let b := sWorkerSend b w MDPW_REQUEST none (some msg.msg)
      let entry : Sent :=
        { service := name, worker := w, registered := b.workers w.idString = some worker,
          request := msg, now := clock (b.reads - 1) }
      dispatchLoop clock name n { b with sent := b.sent ++ [entry] }
    | _, _ => some b

/-- C `s_service_dispatch`. -/
def sServiceDispatch (clock : Nat → Nat) (b : Broker) (name : Str) (msg : Option Zmsg) :
    Option Broker := do
  let self ← b.services name
  let b := match msg with
    | some msg =>
      let request : Request := { seq := b.accepted.length, msg := msg }
      let b := b.setService name { self with requests := self.requests ++ [request] }
      { b with accepted := b.accepted ++ [(name, request)] }
    | none => b
  let b ← sBrokerPurge clock b
  let self ← b.services name
  dispatchLoop clock name self.requests.length b

/-- C `s_worker_require`; a new worker is allocated at `offer`. -/
def sWorkerRequire (b : Broker) (identity : Frame) (offer : Addr) : Option (Addr × Broker) :=
  let idString := zframeStrhex identity
  match b.workers idString with
  | some worker => some (worker, b)
  | none =>
    match b.heap.malloc (some offer) with
    | none => none
    | some p =>
      let w : Worker :=
        { idString := idString, identity := identity, service := none, expiry := 0, hex := rfl }
      some (p, { b with
        heap := b.heap.set p w
        workers := Function.update b.workers idString (some p) })

/-- C `s_worker_waiting`. -/
def sWorkerWaiting (clock : Nat → Nat) (b : Broker) (self : Addr) : Option Broker := do
  let w ← b.heap self
  let b := { b with waiting := b.waiting ++ [self] }
  let name ← w.service
  let s ← b.services name
  let b := b.setService name { s with waiting := s.waiting ++ [self] }
  let (now, b) := zclockTime clock b
  let b := { b with heap := b.heap.set self { w with expiry := now + HEARTBEAT_EXPIRY } }
  sServiceDispatch clock b name none

/-- Frames that start with `"mmi."`. -/
def isMmi (frame : Frame) : Bool :=
  4 ≤ frame.length ∧ frame.take 4 = [109, 109, 105, 46]

/-- C `s_broker_worker_msg`. -/
def sBrokerWorkerMsg (clock : Nat → Nat) (b : Broker) (sender : Frame) (msg : Zmsg) (offer : Addr) :
    Option Broker :=
  match msg with
  | [] => none
  | command :: msg => do
    let workerReady := (b.workers (zframeStrhex sender)).isSome
    let (worker, b) ← sWorkerRequire b sender offer
    if command = MDPW_READY then
      if workerReady then
        sWorkerDelete b worker true
      else if isMmi sender then
        sWorkerDelete b worker true
      else
        match msg with
        | [] => none
        | serviceFrame :: _ => do
          let (service, b) := sServiceRequire b serviceFrame
          let w ← b.heap worker
          let s ← b.services service
          let b := b.setService service { s with workers := s.workers + 1 }
          let b := { b with heap := b.heap.set worker { w with service := some service } }
          sWorkerWaiting clock b worker
    else if command = MDPW_REPLY then
      if workerReady then do
        let (client, msg) ← zmsgUnwrap msg
        let w ← b.heap worker
        let service ← w.service
        let b := zmsgSend b (zmsgWrap (MDPC_CLIENT :: service :: msg) client)
        sWorkerWaiting clock b worker
      else
        sWorkerDelete b worker true
    else if command = MDPW_HEARTBEAT then
      if workerReady then do
        let w ← b.heap worker
        let (now, b) := zclockTime clock b
        some { b with heap := b.heap.set worker { w with expiry := now + HEARTBEAT_EXPIRY } }
      else
        sWorkerDelete b worker true
    else if command = MDPW_DISCONNECT then
      sWorkerDelete b worker false
    else
      some b

/-- The service `"mmi.service"`. -/
def MMI_SERVICE : Str := [109, 109, 105, 46, 115, 101, 114, 118, 105, 99, 101]

/-- The answer to a request for a service of the broker itself: `"200"`, `"404"` or `"501"`. -/
def mmiCode (b : Broker) (serviceFrame lastFrame : Frame) : Str :=
  if serviceFrame = MMI_SERVICE then
    match b.services (zframeStrdup lastFrame) with
    | some s => if s.workers ≠ 0 then [50, 48, 48] else [52, 48, 52]
    | none => [52, 48, 52]
  else
    [53, 48, 49]

/-- C `s_broker_client_msg`. -/
def sBrokerClientMsg (clock : Nat → Nat) (b : Broker) (sender : Frame) (msg : Zmsg) :
    Option Broker :=
  match msg with
  | serviceFrame :: frame :: msg => do
    let (service, b) := sServiceRequire b serviceFrame
    let msg := zmsgWrap (frame :: msg) sender
    if isMmi serviceFrame then do
      let lastFrame ← msg.getLast?
      let msg := msg.dropLast ++ [mmiCode b serviceFrame lastFrame]
      let (client, msg) ← zmsgUnwrap msg
      some (zmsgSend b (zmsgWrap (MDPC_CLIENT :: serviceFrame :: msg) client))
    else
      sServiceDispatch clock b service (some msg)
  | _ => none

/-- Handle a message: the first half of the loop of C `main`. -/
def brokerRecv (clock : Nat → Nat) (b : Broker) (msg : Zmsg) (offer : Addr) : Option Broker :=
  match msg with
  | sender :: _ :: header :: msg =>
    if header = MDPC_CLIENT then
      sBrokerClientMsg clock b sender msg
    else if header = MDPW_WORKER then
      sBrokerWorkerMsg clock b sender msg offer
    else
      some b
  | _ => none

/-- Send a heartbeat to each of the workers. -/
def heartbeatLoop : List Addr → Broker → Option Broker
  | [], b => some b
  | worker :: waiting, b => do
    let w ← b.heap worker
    heartbeatLoop waiting (sWorkerSend b w MDPW_HEARTBEAT none none)

/-- Purge and send heartbeats when they are due: the second half of the loop of C `main`. -/
def brokerTick (clock : Nat → Nat) (b : Broker) : Option Broker :=
  let (now, b) := zclockTime clock b
  if now > b.heartbeatAt then do
    let b ← sBrokerPurge clock b
    let b ← heartbeatLoop b.waiting b
    let (now, b) := zclockTime clock b
    some { b with heartbeatAt := now + HEARTBEAT_INTERVAL }
  else
    some b

/-- What the broker does next: handle a message, with the address a new worker would get, or look
at the clock. -/
inductive Event where
  | recv (msg : Zmsg) (offer : Addr)
  | tick

/-- One step of the broker. -/
def brokerStep (clock : Nat → Nat) (b : Broker) : Event → Option Broker
  | .recv msg offer => brokerRecv clock b msg offer
  | .tick => brokerTick clock b

end SweetClib.Majordomo
