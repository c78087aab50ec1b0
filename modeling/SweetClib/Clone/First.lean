import SweetClib.Clone.Converge

/-!
# The clone server and its clients without snapshots

The programs `clonesrv1.c` and `clonecli1.c`, from which the second ones were made: the server
publishes updates and keeps its own map, and a client stores what it is subscribed to. There are no
snapshots, and a client does not look at the sequence of an update.

As in `Programs`, subscriptions keep their order, and any update may miss any client. What was
published, since which update a client is there, and the updates that reached or missed it since
then are recorded on the side. A client that missed nothing and has read everything has the values
of the server for the keys that were updated since it is there, and no other keys (`first_clone`):
it never learns about a key that is not updated again.

C → Lean naming: the loop of `main` of `clonesrv1.c` → `publish`, that of `clonecli1.c` →
`clientUpdate`.
-/

namespace SweetClib.Clone.First
open SweetClib.Lib
open SweetClib.Majordomo (Frame Str)

/-- A client: whether it is there, its map and its count of updates, what is under way to it, and
what is recorded of it. -/
structure Client where
  running : Bool
  kvmap : Kvmap
  sequence : BitVec 64
  updates : Input
  since : Nat
  reached : List (Update × Nat)
  missed : List Nat

/-- The system: what was published, the sequence and the map of the server, and the clients. -/
structure State where
  published : List Update
  sequence : BitVec 64
  kvmap : Kvmap
  clients : Frame → Client

/-- The steps; an update comes with those it is delivered to. -/
inductive Action where
  | publish (u : Update) (delivered : Frame → Bool)
  | start (id : Frame)
  | update (id : Frame)

section Steps

variable (codec : Codec)

/-- An update reaches a client or misses it. -/
def Client.publish (self : Client) (kvmsg : Kvmsg) (e : Update × Nat) (delivered : Bool) : Client :=
  if self.running then
    if delivered then
      { self with
        updates := self.updates ++ zmsgInput (kvmsgSend kvmsg), reached := self.reached ++ [e] }
    else { self with missed := self.missed ++ [e.2] }
  else self

/-- A round of the server: an update is sent and stored. -/
def publish (s : State) (u : Update) (delivered : Frame → Bool) : Option State :=
  -- `++sequence` overflows at the greatest sequence
  if s.sequence = BitVec.intMax 64 then none
  else
    let kvmsg := updateMsg codec (s.sequence + 1) u
    some
      { published := s.published ++ [u]
        sequence := s.sequence + 1
        kvmap := kvmsgStore kvmsg s.kvmap
        clients := fun id => (s.clients id).publish kvmsg (u, s.published.length) (delivered id) }

/-- A round of a client; a null pointer of `kvmsg_recv` ends it. -/
def clientUpdate (self : Client) : Option Client :=
  match kvmsgRecv self.updates with
  | none => none
  | some (none, updates) => some { self with running := false, updates }
  | some (some kvmsg, updates) =>
    some { self with updates, kvmap := kvmsgStore kvmsg self.kvmap, sequence := self.sequence + 1 }

/-- A step of the server or of a client. -/
def firstStep (s : State) : Action → Option State
  | .publish u delivered => publish codec s u delivered
  | .start id =>
    if (s.clients id).running then none
    else
      let self : Client := ⟨true, ∅, 0, [], s.published.length, [], []⟩
      some { s with clients := Function.update s.clients id self }
  | .update id =>
    if (s.clients id).running then
      (clientUpdate (s.clients id)).map fun self =>
        { s with clients := Function.update s.clients id self }
    else none

/-- The transitions of the system. -/
def FirstTrans (s : State) (a : Action) (s' : State) : Prop := firstStep codec s a = some s'

end Steps

/-- The system at the start. -/
def firstNew : State := ⟨[], 0, ∅, fun _ => ⟨false, ∅, 0, [], 0, [], []⟩⟩

/-- The map after some updates of the log, with their places in it: under every key the message of
the last update of this key. -/
def stored (codec : Codec) (es : List (Update × Nat)) : Kvmap :=
  es.foldl (fun kvmap e =>
    kvmap.insert (updateKey e.1) (storedMsg codec (BitVec.ofNat 64 (e.2 + 1)) e.1)) ∅

section Stored

variable {codec : Codec} {es : List (Update × Nat)} {e : Update × Nat} {k : Str}

/-- One more update is stored over the others. -/
lemma stored_append : stored codec (es ++ [e]) =
    (stored codec es).insert (updateKey e.1) (storedMsg codec (BitVec.ofNat 64 (e.2 + 1)) e.1) := by
  rw [stored, List.foldl_append, List.foldl_cons, List.foldl_nil]
  rfl

/-- A value is that of an update. -/
lemma stored_lookup {v : Kvmsg} (h : (stored codec es).lookup k = some v) :
    ∃ e ∈ es, updateKey e.1 = k ∧ v = storedMsg codec (BitVec.ofNat 64 (e.2 + 1)) e.1 := by
  induction es using List.reverseRecOn with
  | nil => cases h
  | append_singleton es e ih =>
    rw [stored_append] at h
    by_cases key : k = updateKey e.1
    · rw [key, AList.lookup_insert] at h
      exact ⟨e, List.mem_append_right _ List.mem_cons_self, key.symm, (Option.some.inj h).symm⟩
    · rw [AList.lookup_insert_ne key] at h
      obtain ⟨e', mem, rest⟩ := ih h
      exact ⟨e', List.mem_append_left _ mem, rest⟩

/-- The updates before do not matter for the keys of the last ones, and those of the last ones not
for the other keys. -/
lemma stored_last (before : List (Update × Nat)) (k : Str) :
    (stored codec es).lookup k =
      if ∃ e ∈ es, updateKey e.1 = k then (stored codec (before ++ es)).lookup k else none := by
  induction es using List.reverseRecOn with
  | nil => rw [if_neg (by rintro ⟨e, mem, -⟩; exact List.not_mem_nil mem)]; rfl
  | append_singleton es e ih =>
    rw [← List.append_assoc, stored_append, stored_append]
    by_cases key : k = updateKey e.1
    · have here : ∃ e' ∈ es ++ [e], updateKey e'.1 = k :=
        ⟨e, List.mem_append_right _ List.mem_cons_self, key.symm⟩
      rw [if_pos here, key, AList.lookup_insert, AList.lookup_insert]
    · have same : (∃ e' ∈ es ++ [e], updateKey e'.1 = k) ↔ ∃ e' ∈ es, updateKey e'.1 = k := by
        simp only [List.mem_append, List.mem_singleton, or_and_right, exists_or, exists_eq_left,
          Ne.symm key, or_false]
      rw [AList.lookup_insert_ne key, AList.lookup_insert_ne key, ih]
      simp only [same]

end Stored

/-- What holds of a client: it has stored the first of the updates that reached it, and the others
are under way; these are updates since it is there, and all of them if it missed none. -/
structure ClientInv (codec : Codec) (log : List Update) (client : Client) : Prop where
  since : client.since ≤ log.length
  read : ∃ got es, client.reached = got ++ es ∧ client.updates = es.flatMap (wire codec) ∧
    client.kvmap = stored codec got ∧
    client.sequence = BitVec.ofNat 64 got.length
  reached : client.reached.Sublist (log.zipIdx.drop client.since)
  complete : client.running = true → client.missed = [] →
    client.reached = log.zipIdx.drop client.since

/-- The server has stored the whole log, and each client what reached it. -/
structure Inv (codec : Codec) (s : State) : Prop where
  sequence : s.sequence = BitVec.ofNat 64 s.published.length
  kvmap : s.kvmap = stored codec s.published.zipIdx
  clients : ∀ id, ClientInv codec s.published (s.clients id)

section Invariant

variable {codec : Codec} {log : List Update} {self : Client} {s s' : State}

/-- The positions of a log with one more update. -/
lemma zipIdx_concat (log : List Update) (u : Update) :
    (log ++ [u]).zipIdx = log.zipIdx ++ [(u, log.length)] := by
  rw [List.zipIdx_append, Nat.zero_add]
  rfl

/-- A part of the log, with one more update. -/
lemma drop_concat {n : Nat} (le : n ≤ log.length) (u : Update) :
    (log ++ [u]).zipIdx.drop n = log.zipIdx.drop n ++ [(u, log.length)] := by
  rw [zipIdx_concat, List.drop_append_of_le_length (by rwa [List.length_zipIdx])]

/-- A client is sent an update, which may be lost. -/
lemma ClientInv.publish (inv : ClientInv codec log self) (u : Update) (delivered : Bool) :
    ClientInv codec (log ++ [u])
      (self.publish (updateMsg codec (BitVec.ofNat 64 (log.length + 1)) u)
        (u, log.length) delivered) := by
  obtain ⟨since, ⟨got, es, cut, updates, kvmap, sequence⟩, reached, complete⟩ := inv
  have since' : self.since ≤ (log ++ [u]).length := by
    rw [List.length_append]
    exact Nat.le_add_right_of_le since
  have later : (log.zipIdx.drop self.since).Sublist ((log ++ [u]).zipIdx.drop self.since) := by
    rw [drop_concat since]
    exact List.sublist_append_left _ _
  rw [Client.publish]
  split
  next running =>
    split
    · refine ⟨since', ⟨got, es ++ [(u, log.length)], ?_, ?_, kvmap, sequence⟩, ?_, fun _ none => ?_⟩
      · rw [cut, List.append_assoc]
      · rw [updates, List.flatMap_append, List.flatMap_singleton]
        rfl
      · dsimp only
        rw [drop_concat since]
        exact reached.append (List.Sublist.refl _)
      · dsimp only
        rw [drop_concat since, complete running none]
    · refine ⟨since', ⟨got, es, cut, updates, kvmap, sequence⟩, reached.trans later,
        fun _ none => ?_⟩
      exact absurd none (List.append_ne_nil_of_right_ne_nil _ (List.cons_ne_nil _ _))
  next off =>
    exact ⟨since', ⟨got, es, cut, updates, kvmap, sequence⟩, reached.trans later,
      fun on => absurd on off⟩

/-- A round of a client stores the next update that reached it. -/
lemma ClientInv.update (inv : ClientInv codec log self) (ne : self.updates ≠ []) :
    ∃ self', clientUpdate self = some self' ∧ self'.running = self.running ∧
      ClientInv codec log self' := by
  obtain ⟨since, ⟨got, es, cut, updates, kvmap, sequence⟩, reached, complete⟩ := inv
  cases es with
  | nil => exact absurd updates ne
  | cons e es =>
    rw [List.flatMap_cons] at updates
    let kvmsg := updateMsg codec (BitVec.ofNat 64 (e.2 + 1)) e.1
    let self' : Client := { self with
      updates := es.flatMap (wire codec), kvmap := kvmsgStore kvmsg self.kvmap, sequence :=
        self.sequence + 1 }
    have step : clientUpdate self = some self' := by
      rw [clientUpdate, updates, kvmsgRecv_wire]
    refine ⟨self', step, rfl, since, ⟨got ++ [e], es, ?_, rfl, ?_, ?_⟩, reached, complete⟩
    · show self.reached = _
      rw [cut, List.append_assoc]
      rfl
    · rw [stored_append, ← kvmap, ← kvmsgStore_updateMsg]
    · show self.sequence + 1 = _
      rw [sequence, List.length_append, List.length_singleton, BitVec.ofNat_add]
      rfl

/-- The server publishes an update. -/
lemma Inv.publish (inv : Inv codec s) {u : Update} {delivered : Frame → Bool}
    (e : publish codec s u delivered = some s') : Inv codec s' := by
  obtain ⟨sequence, kvmap, clients⟩ := inv
  rw [First.publish] at e
  split at e
  · cases e
  · cases e
    have next : s.sequence + 1 = BitVec.ofNat 64 (s.published.length + 1) := by
      rw [sequence, BitVec.ofNat_add]
      rfl
    refine ⟨?_, ?_, fun id => ?_⟩
    · rw [next, List.length_append, List.length_singleton]
    · rw [next, kvmap, zipIdx_concat, stored_append, kvmsgStore_updateMsg]
    · rw [next]
      exact (clients id).publish u (delivered id)

/-- One client has moved. -/
lemma Inv.client (inv : Inv codec s) (id : Frame) (client : ClientInv codec s.published self) :
    Inv codec { s with clients := Function.update s.clients id self } := by
  refine ⟨inv.sequence, inv.kvmap, fun n => ?_⟩
  dsimp only
  by_cases same : n = id
  · subst same
    rwa [Function.update_self]
  · rw [Function.update_of_ne same]
    exact inv.clients n

/-- Every step keeps the invariant. -/
lemma Inv.step (inv : Inv codec s) {a : Action} (st : FirstTrans codec s a s') : Inv codec s' := by
  cases a with
  | publish u delivered => exact inv.publish st
  | start id =>
    simp only [FirstTrans, firstStep] at st
    split at st
    · cases st
    · cases st
      refine inv.client id ⟨le_rfl, ⟨[], [], rfl, rfl, rfl, rfl⟩, List.nil_sublist _, fun _ _ => ?_⟩
      exact (List.drop_eq_nil_of_le (by rw [List.length_zipIdx])).symm
  | update id =>
    simp only [FirstTrans, firstStep] at st
    split at st
    · obtain ⟨self, e, rfl⟩ := Option.map_eq_some_iff.mp st
      have ne : (s.clients id).updates ≠ [] := by
        intro empty
        simp [clientUpdate, empty, kvmsgRecv, recvFrames] at e
      obtain ⟨self', e', -, client⟩ := (inv.clients id).update ne
      rw [e] at e'
      cases e'
      exact inv.client id client
    · cases st

/-- The log is empty at the start. -/
lemma Inv.new : Inv codec firstNew :=
  ⟨rfl, rfl,
    fun _ =>
    ⟨le_rfl, ⟨[], [], rfl, rfl, rfl, rfl⟩, List.nil_sublist _,
      fun on => absurd on Bool.false_ne_true⟩⟩

end Invariant

/-- A round of a client takes a message from the socket. -/
lemma clientUpdate_length {self self' : Client} (e : clientUpdate self = some self') :
    self'.updates.length < self.updates.length := by
  rw [clientUpdate] at e
  split at e
  · cases e
  next rest recv =>
    cases e
    exact kvmsgRecv_length recv
  next kvmsg rest recv =>
    cases e
    exact kvmsgRecv_length recv

/-- In every run, for every client: each value it has is that of an update of this key since the
client is there. If it missed nothing and has read everything, it has the values of the server for
the keys of these updates, and no other key. No round ends it, and each takes a message from the
socket. -/
theorem first_clone (codec : Codec) {tr : List Action} {s : State}
    (run : Run (FirstTrans codec) firstNew tr s) (id : Frame) :
    let self := s.clients id
    (∀ k v, self.kvmap.lookup k = some v → ∃ n u, self.since ≤ n ∧ s.published[n]? = some u ∧
      updateKey u = k ∧
      v = storedMsg codec (BitVec.ofNat 64 (n + 1)) u) ∧
    (self.running = true → self.missed = [] → self.updates = [] → ∀ k, self.kvmap.lookup k =
      if ∃ u ∈ s.published.drop self.since, updateKey u = k then s.kvmap.lookup k else none) ∧
    (self.running = true → self.updates ≠ [] →
      ∃ s', FirstTrans codec s (.update id) s' ∧ (s'.clients id).running = true ∧
        (s'.clients id).updates.length < self.updates.length) := by
  intro self
  have inv : Inv codec s := run.invariant (Inv codec) .new fun s a s' inv st => inv.step st
  have client : ClientInv codec s.published self := inv.clients id
  obtain ⟨got, es, cut, updates, kvmap, -⟩ := client.read
  refine ⟨fun k v h => ?_, fun running none drained k => ?_, fun running ne => ?_⟩
  · rw [kvmap] at h
    obtain ⟨e, mem, key, value⟩ := stored_lookup h
    have reached : e ∈ s.published.zipIdx.drop self.since :=
      client.reached.subset (cut ▸ List.mem_append_left _ mem)
    obtain ⟨i, place⟩ := List.mem_iff_getElem?.mp reached
    rw [List.getElem?_drop, List.getElem?_zipIdx, Nat.zero_add] at place
    obtain ⟨u, published, rfl⟩ := Option.map_eq_some_iff.mp place
    exact ⟨self.since + i, u, Nat.le_add_right _ _, published, key, value⟩
  · have all : got = s.published.zipIdx.drop self.since := by
      rw [← client.complete running none, cut]
      cases es with
      | nil => rw [List.append_nil]
      | cons e es =>
        rw [updates] at drained
        cases drained
    have keys : (∃ e ∈ got, updateKey e.1 = k) ↔ ∃ u ∈ s.published.drop self.since,
        updateKey u = k := by
      have updated : s.published.drop self.since = got.map Prod.fst := by
        rw [all, List.map_drop, List.zipIdx_map_fst]
      rw [updated]
      constructor
      · rintro ⟨e, mem, key⟩
        exact ⟨e.1, List.mem_map_of_mem mem, key⟩
      · rintro ⟨u, mem, key⟩
        obtain ⟨e, stored, rfl⟩ := List.mem_map.mp mem
        exact ⟨e, stored, key⟩
    rw [kvmap, stored_last (s.published.zipIdx.take self.since), all, List.take_append_drop, ← all,
      ← inv.kvmap]
    simp only [keys]
  · obtain ⟨self', e, same, -⟩ := client.update ne
    have step : clientUpdate (s.clients id) = some self' := e
    refine ⟨{ s with clients := Function.update s.clients id self' }, ?_, ?_⟩
    · rw [FirstTrans, firstStep, if_pos running, step]
      rfl
    · dsimp only
      rw [Function.update_self, same]
      exact ⟨running, clientUpdate_length step⟩

/-- A client starts after the first of three updates. It has the value of the server for the key of
the others, and not the key of the first one. -/
theorem first_clone_late :
    ∃ s, Run (FirstTrans kvsimple) firstNew
      [.update [67], .update [67], .publish ⟨[50], [53]⟩ fun _ => true,
        .publish ⟨[50], [52]⟩ fun _ => true, .start [67], .publish ⟨[49], [51]⟩ fun _ => true] s ∧
      (s.kvmap.lookup [49]).isSome = true ∧ (s.clients [67]).kvmap.lookup [49] = none ∧
      (s.clients [67]).kvmap.lookup [50] = s.kvmap.lookup [50] := by
  have all : (exec (firstStep kvsimple) firstNew
      [.update [67], .update [67], .publish ⟨[50], [53]⟩ fun _ => true,
        .publish ⟨[50], [52]⟩ fun _ => true,
        .start [67], .publish ⟨[49], [51]⟩ fun _ => true]).any (fun s =>
      (s.kvmap.lookup [49]).isSome = true ∧ (s.clients [67]).running = true ∧
        (s.clients [67]).missed = [] ∧
        (s.clients [67]).updates = [] ∧ (s.published.drop (s.clients [67]).since).map updateKey =
            [[50], [50]]) = true := by
    decide +kernel
  obtain ⟨s, e, facts⟩ := (Option.any_eq_true _ _).mp all
  obtain ⟨has, running, missed, updates, keys⟩ := of_decide_eq_true facts
  have run : Run (FirstTrans kvsimple) firstNew _ s := exec_run e
  have value := (first_clone kvsimple run [67]).2.1 running missed updates
  have key : ∀ k, (∃ u ∈ s.published.drop (s.clients [67]).since, updateKey u = k) ↔
      k ∈ [[50], [50]] := by
    intro k
    rw [← keys, List.mem_map]
  refine ⟨s, run, has, ?_, ?_⟩
  · rw [value, if_neg (by rw [key]; decide)]
  · rw [value, if_pos (by rw [key]; decide)]

end SweetClib.Clone.First
