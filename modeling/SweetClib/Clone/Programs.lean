import SweetClib.Lib.Run
import SweetClib.Clone.Kvsimple

/-!
# The clone server and its clients

The programs `clonesrv2.c` and `clonecli2.c`. The main thread of the server publishes each update
to its subscribers and then forwards it to the state manager through a pipe; the state manager
applies what comes through the pipe and answers requests for a snapshot. A client asks for a
snapshot, loads it, and then applies the updates it is subscribed to that are newer than what it
has.

The channels are lossless and keep their order, but for subscriptions: any update may miss any
client. What was published, which updates missed a client and the sequence of the snapshot it
loaded are recorded on the side. The keys of updates are not the key that ends a snapshot. A peer
that is no clone client may send any request, and a bad one ends the state manager.

C → Lean naming:
* `main` of `clonesrv2.c` → `publish` and `forward`
* `state_manager` → `stateManagerPipe` and `stateManagerSnapshot`
* `main` of `clonecli2.c` → `clientSnapshot` and `clientUpdate`
-/

namespace SweetClib.Clone
open SweetClib.Lib
open SweetClib.Majordomo (Frame Str Zmsg)

/-- The request for a snapshot, `"ICANHAZ?"`. -/
def ICANHAZ : Str := [73, 67, 65, 78, 72, 65, 90, 63]

/-- The key that ends a snapshot, `"KTHXBAI"`. -/
def KTHXBAI : Str := [75, 84, 72, 88, 66, 65, 73]

/-- The frames of a message as they are read from a socket. -/
def zmsgInput : Zmsg → Input
  | [] => []
  | [frame] => [(frame, false)]
  | frame :: frames => (frame, true) :: zmsgInput frames

/-- An update: the texts of its key and its body. -/
structure Update where
  key : Str
  body : Str

/-- Where a client is: not there, a peer that is no clone client, in its snapshot loop, in its
update loop, or after it. -/
inductive Phase where
  | off
  | peer
  | loading
  | live
  | stopped
deriving DecidableEq

/-- A client: its state, what is under way to it on its two sockets, the numbers of the updates
that missed it, and the sequence of its snapshot. -/
structure Client where
  phase : Phase
  sequence : BitVec 64
  kvmap : Kvmap
  snapshot : Input
  subscriber : Input
  missed : List Nat
  loaded : BitVec 64

/-- The system: what was published; the sequence of the main thread and the message it is still to
forward; the pipe; the sequence and the map of the state manager and whether it runs; the requests
under way to it; and the clients, by the identities of their sockets. -/
structure CloneState where
  published : List Update
  sequence : BitVec 64
  held : Option Kvmsg
  pipe : Input
  managerSequence : BitVec 64
  managerKvmap : Kvmap
  running : Bool
  requests : Frame → List Str
  clients : Frame → Client

/-- The steps; an update comes with those it is delivered to, and a snapshot with the order of its
keys. -/
inductive Action where
  | publish (u : Update) (delivered : Frame → Bool)
  | forward
  | apply
  | answer (id : Frame) (order : List Str)
  | request (id : Frame) (text : Str)
  | start (id : Frame)
  | load (id : Frame)
  | update (id : Frame)

section Steps

variable (codec : Codec)

/-- The message of an update. -/
def updateMsg (sequence : BitVec 64) (u : Update) : Kvmsg :=
  kvmsgFmtBody (kvmsgFmtKey (kvmsgNew codec sequence) u.key) u.body

/-- The message that ends a snapshot. -/
def kthxbai (sequence : BitVec 64) : Kvmsg :=
  kvmsgSetBody (kvmsgSetKey (kvmsgNew codec sequence) KTHXBAI) []

/-- An update reaches a client or misses it. -/
def Client.publish (self : Client) (kvmsg : Kvmsg) (number : Nat) (delivered : Bool) : Client :=
  if delivered ∧ (self.phase = .loading ∨ self.phase = .live) then
    { self with subscriber := self.subscriber ++ zmsgInput (kvmsgSend kvmsg) }
  else { self with missed := self.missed ++ [number] }

/-- The main thread publishes the next update. -/
def publish (s : CloneState) (u : Update) (delivered : Frame → Bool) : Option CloneState :=
  -- `++sequence` overflows at the greatest sequence
  if s.held.isSome ∨ s.sequence = BitVec.intMax 64 then none
  else
    let kvmsg := updateMsg codec (s.sequence + 1) u
    if (kvmsgKey kvmsg).1 = some KTHXBAI then none
    else some { s with
      published := s.published ++ [u]
      sequence := s.sequence + 1
      held := some kvmsg
      clients := fun id => (s.clients id).publish kvmsg (s.published.length + 1) (delivered id) }

/-- The main thread forwards the update to the state manager. -/
def forward (s : CloneState) : Option CloneState :=
  s.held.map fun kvmsg => { s with held := none, pipe := s.pipe ++ zmsgInput (kvmsgSend kvmsg) }

/-- The state manager reads its pipe (C `state_manager`). -/
def stateManagerPipe (s : CloneState) : Option CloneState :=
  if s.running then
    match kvmsgRecv s.pipe with
    | none => none
    | some (none, pipe) => some { s with running := false, pipe }
    | some (some kvmsg, pipe) =>
      (kvmsgSequence codec kvmsg).map fun sequence =>
        { s with
          pipe, managerSequence := sequence, managerKvmap := kvmsgStore kvmsg s.managerKvmap }
  else none

/-- The frames of a snapshot, its entries in some order of their keys. -/
def snapshotInput (sequence : BitVec 64) (kvmap : Kvmap) (order : List Str) : Input :=
  order.flatMap (fun key => zmsgInput (((kvmap.lookup key).map kvmsgSend).getD []))
    ++ zmsgInput (kvmsgSend (kthxbai codec sequence))

/-- The state manager reads a request (C `state_manager`). -/
def stateManagerSnapshot (s : CloneState) (id : Frame) (order : List Str) : Option CloneState :=
  match s.running, s.requests id with
  | true, text :: requests =>
    if text = ICANHAZ then
      if order.Perm s.managerKvmap.keys then
        let self := s.clients id
        let snapshot := self.snapshot ++ snapshotInput codec s.managerSequence s.managerKvmap order
        some { s with
          requests := Function.update s.requests id requests
          clients := Function.update s.clients id { self with snapshot } }
      else none
    else some { s with running := false, requests := Function.update s.requests id requests }
  | _, _ => none

/-- One round of the snapshot loop of a client. -/
def clientSnapshot (self : Client) : Option Client :=
  match kvmsgRecv self.snapshot with
  | none => none
  | some (none, snapshot) => some { self with phase := .live, snapshot }
  | some (some kvmsg, snapshot) =>
    match kvmsgKey kvmsg with
    | (none, _) => none
    | (some key, kvmsg) =>
      if key = KTHXBAI then
        (kvmsgSequence codec kvmsg).map fun sequence =>
          { self with phase := .live, snapshot, sequence, loaded := sequence }
      else some { self with snapshot, kvmap := kvmsgStore kvmsg self.kvmap }

/-- One round of the update loop of a client. -/
def clientUpdate (self : Client) : Option Client :=
  match kvmsgRecv self.subscriber with
  | none => none
  | some (none, subscriber) => some { self with phase := .stopped, subscriber }
  | some (some kvmsg, subscriber) =>
    (kvmsgSequence codec kvmsg).map fun sequence =>
      if self.sequence.slt sequence then
        { self with subscriber, sequence, kvmap := kvmsgStore kvmsg self.kvmap }
      else { self with subscriber }

/-- One step of the system; `none` when the step cannot be taken. -/
def cloneStep (s : CloneState) : Action → Option CloneState
  | .publish u delivered => publish codec s u delivered
  | .forward => forward s
  | .apply => stateManagerPipe codec s
  | .answer id order => stateManagerSnapshot codec s id order
  | .request id text =>
    let self := s.clients id
    if self.phase = .off ∨ self.phase = .peer then
      some { s with
        requests := Function.update s.requests id (s.requests id ++ [text])
        clients := Function.update s.clients id { self with phase := .peer } }
    else none
  | .start id =>
    let self := s.clients id
    if self.phase = .off then
      some { s with
        requests := Function.update s.requests id [ICANHAZ]
        clients := Function.update s.clients id { self with phase := .loading } }
    else none
  | .load id =>
    if (s.clients id).phase = .loading then
      (clientSnapshot codec (s.clients id)).map fun self =>
        { s with clients := Function.update s.clients id self }
    else none
  | .update id =>
    if (s.clients id).phase = .live then
      (clientUpdate codec (s.clients id)).map fun self =>
        { s with clients := Function.update s.clients id self }
    else none

/-- The transitions of the system. -/
def CloneTrans (s : CloneState) (a : Action) (s' : CloneState) : Prop :=
  cloneStep codec s a = some s'

end Steps

/-- A client that is not there yet. -/
def clientNew : Client :=
  { phase := .off, sequence := 0, kvmap := ∅, snapshot := [], subscriber := [], missed := [],
    loaded := 0 }

/-- The system at the start. -/
def cloneNew : CloneState :=
  { published := [], sequence := 0, held := none, pipe := [], managerSequence := 0,
    managerKvmap := ∅, running := true, requests := fun _ => [], clients := fun _ => clientNew }

end SweetClib.Clone
