import Mathlib.Data.List.TakeWhile
import SweetClib.Lib.Replica
import SweetClib.Clone.Programs

/-!
# Clients converge to the server

Whatever the interleaving, a client in its update loop holds the map of the first updates up to its
sequence, provided that nothing published after its snapshot missed it and that the codec gives
back the sequences that were written (`clone_converges`).

`ClientInv` is the invariant of a client: what it is still to read from its subscription is a
`Stream` of the log, and its map and its snapshot socket are those of its phase (`PhaseInv`).
`CloneInv` adds that the state manager has applied a prefix of the log and that the rest of the log
is in the pipe or in the hands of the main thread.
-/

namespace SweetClib.Clone
open SweetClib.Lib
open SweetClib.Majordomo (Frame Str Zmsg)

/-- The codec gives back the sequences up to a bound. -/
def Codec.Faithful (codec : Codec) (bound : Nat) : Prop :=
  ∀ n ≤ bound, codec.decode (codec.encode (BitVec.ofNat 64 n)) = some (BitVec.ofNat 64 n)

/-- The key of an update as a C string. -/
def updateKey (u : Update) : Str :=
  (u.key.take (KVMSG_KEY_MAX - 1)).takeWhile (· ≠ 0)

/-- The message of an update as it is stored, its key in the buffer. -/
def storedMsg (codec : Codec) (sequence : BitVec 64) (u : Update) : Kvmsg :=
  { updateMsg codec sequence u with key := updateKey u }

/-- The map after the updates of a log: under every key the message of the last update of this
key. -/
def replayed (codec : Codec) (log : List Update) : Kvmap :=
  replay (fun kvmap n u => kvmap.insert (updateKey u) (storedMsg codec (BitVec.ofNat 64 n) u)) ∅ log

/-- The frames of an update of the log. -/
def wire (codec : Codec) (e : Update × Nat) : Input :=
  zmsgInput (kvmsgSend (updateMsg codec (BitVec.ofNat 64 (e.2 + 1)) e.1))

variable {codec : Codec}

/-- The key of an update fits the buffer and has no zero byte. -/
lemma updateKey_buffer (u : Update) : (updateKey u).take KVMSG_KEY_MAX = updateKey u ∧
    (updateKey u).takeWhile (· ≠ 0) = updateKey u := by
  constructor
  · apply List.take_of_length_le
    have cut := (List.takeWhile_sublist (l := u.key.take (KVMSG_KEY_MAX - 1)) (· ≠ 0)).length_le
    have len := List.length_take_le (KVMSG_KEY_MAX - 1) u.key
    exact (cut.trans len).trans (Nat.sub_le _ _)
  · rw [updateKey, List.takeWhile_eq_self_iff]
    intro x mem
    have nonzero := List.mem_takeWhile_imp mem
    exact nonzero

/-- The key of a message of an update is that of the update. -/
lemma kvmsgKey_updateMsg (sequence : BitVec 64) (u : Update) :
    kvmsgKey (updateMsg codec sequence u) = (some (updateKey u), storedMsg codec sequence u) := by
  obtain ⟨fits, zero⟩ := updateKey_buffer u
  have frame : (updateMsg codec sequence u).frameKey = some (updateKey u) := rfl
  have empty : (updateMsg codec sequence u).key = [] := rfl
  simp only [kvmsgKey, frame, empty, List.headD_nil, if_true, fits, zero]
  rfl

/-- A stored message has its key in the buffer. -/
lemma kvmsgKey_storedMsg (sequence : BitVec 64) (u : Update) :
    kvmsgKey (storedMsg codec sequence u) = (some (updateKey u), storedMsg codec sequence u) := by
  obtain ⟨fits, zero⟩ := updateKey_buffer u
  have frame : (storedMsg codec sequence u).frameKey = some (updateKey u) := rfl
  have buffer : (storedMsg codec sequence u).key = updateKey u := rfl
  simp only [kvmsgKey, frame, buffer, fits, ite_self, zero]
  rfl

/-- What an update stores. -/
lemma kvmsgStore_updateMsg (sequence : BitVec 64) (u : Update) (kvmap : Kvmap) :
    kvmsgStore (updateMsg codec sequence u) kvmap = kvmap.insert (updateKey u)
      (storedMsg codec sequence u) := by
  have frames : (updateMsg codec sequence u).frameKey.isSome ∧
      (updateMsg codec sequence u).frameBody.isSome :=
    ⟨rfl, rfl⟩
  rw [kvmsgStore, if_pos frames, kvmsgKey_updateMsg]

/-- The same, from a snapshot. -/
lemma kvmsgStore_storedMsg (sequence : BitVec 64) (u : Update) (kvmap : Kvmap) :
    kvmsgStore (storedMsg codec sequence u) kvmap = kvmap.insert (updateKey u)
      (storedMsg codec sequence u) := by
  have frames : (storedMsg codec sequence u).frameKey.isSome ∧
      (storedMsg codec sequence u).frameBody.isSome :=
    ⟨rfl, rfl⟩
  rw [kvmsgStore, if_pos frames, kvmsgKey_storedMsg]

/-- An update is read from a socket. -/
lemma kvmsgRecv_wire (e : Update × Nat) (input : Input) :
    kvmsgRecv (wire codec e ++ input) =
      some (some (updateMsg codec (BitVec.ofNat 64 (e.2 + 1)) e.1), input) :=
  rfl

/-- The log up to the next update. -/
lemma replayed_take_succ {log : List Update} {n : Nat} {u : Update} (h : log[n]? = some u) :
    replayed codec (log.take (n + 1)) = (replayed codec (log.take n)).insert (updateKey u)
      (storedMsg codec (BitVec.ofNat 64 (n + 1)) u) := by
  rw [replayed, replay_take_succ _ _ h]
  rfl

/-- Maps that agree, agree after a store. -/
lemma lookup_insert_congr {m m' : Kvmap} (same : ∀ k, m.lookup k = m'.lookup k) (key : Str)
    (v : Kvmsg) (k : Str) : (m.insert key v).lookup k = (m'.insert key v).lookup k := by
  by_cases h : k = key
  · subst h
    rw [AList.lookup_insert, AList.lookup_insert]
  · rw [AList.lookup_insert_ne h, AList.lookup_insert_ne h, same k]

/-- What the map holds are updates, under their own keys. -/
lemma replayed_lookup {log : List Update} {k : Str} {v : Kvmsg}
    (keys : ∀ u ∈ log, updateKey u ≠ KTHXBAI) (h : (replayed codec log).lookup k = some v) :
    k ≠ KTHXBAI ∧ ∃ n u, v = storedMsg codec n u ∧ k = updateKey u := by
  refine replay_invariant _ _ (fun m : Kvmap => ∀ k v, m.lookup k = some v →
    k ≠ KTHXBAI ∧ ∃ n u, v = storedMsg codec n u ∧
      k = updateKey u) (fun k v h => by simp at h) ?_ k v h
  intro m n u mem ih k v h
  by_cases hk : k = updateKey u
  · subst hk
    rw [AList.lookup_insert, Option.some.injEq] at h
    exact ⟨keys u mem, _, u, h.symm, rfl⟩
  · rw [AList.lookup_insert_ne hk] at h
    exact ih k v h

/-- A sequence number below 2⁶³ is not cut off. -/
lemma toNat_ofNat {n : Nat} (lt : n < 2 ^ 63) : (BitVec.ofNat 64 n).toNat = n := by
  rw [BitVec.toNat_ofNat, Nat.mod_eq_of_lt (by omega)]

/-- Nor is it negative. -/
lemma toInt_eq_toNat {a : BitVec 64} (lt : a.toNat < 2 ^ 63) : a.toInt = a.toNat :=
  BitVec.toInt_eq_toNat_of_lt (by omega)

/-- Such numbers are compared as they are. -/
lemma slt_ofNat {a : BitVec 64} {n : Nat} (ha : a.toNat < 2 ^ 63) (hn : n < 2 ^ 63) :
    a.slt (BitVec.ofNat 64 n) = decide (a.toNat < n) := by
  have small : (BitVec.ofNat 64 n).toNat = n := toNat_ofNat hn
  rw [BitVec.slt, toInt_eq_toNat ha, toInt_eq_toNat (small.symm ▸ hn), small]
  simp

/-- Nothing published after its snapshot missed a client. -/
def Client.Complete (self : Client) : Prop :=
  ∀ n ∈ self.missed, n ≤ self.loaded.toNat

/-- What a client has, phase by phase. -/
inductive PhaseInv (codec : Codec) (log : List Update) (requests : List Str) (self : Client) :
    Prop where
  | off :
    self.phase = .off →
    self.sequence = 0 →
    self.kvmap = ∅ →
    self.snapshot = [] →
    requests = [] →
    PhaseInv codec log requests self
  | peer :
    self.phase = .peer →
    self.sequence = 0 →
    PhaseInv codec log requests self
  | asking :
    self.phase = .loading →
    self.sequence = 0 →
    self.kvmap = ∅ →
    self.snapshot = [] →
    requests = [ICANHAZ] →
    PhaseInv codec log requests self
  | loading (n : Nat) (read rest : List Str) :
    self.phase = .loading →
    self.sequence = 0 →
    requests = [] →
    n ≤ log.length →
    (read ++ rest).Perm (replayed codec (log.take n)).keys →
    self.snapshot = snapshotInput codec (BitVec.ofNat 64 n) (replayed codec (log.take n)) rest →
    (∀ k, self.kvmap.lookup k = if k ∈ read then (replayed codec (log.take n)).lookup k else none) →
    PhaseInv codec log requests self
  | live :
    self.phase = .live →
    requests = [] →
    self.loaded.toNat ≤ self.sequence.toNat →
    self.sequence.toNat ≤ log.length →
    (self.Complete → ∀ k,
      self.kvmap.lookup k = (replayed codec (log.take self.sequence.toNat)).lookup k) →
    PhaseInv codec log requests self

/-- The invariant of a client. -/
structure ClientInv (codec : Codec) (log : List Update) (requests : List Str) (client : Client) :
    Prop where
  stream : ∃ es, client.subscriber = es.flatMap (wire codec) ∧
    Stream log (fun i => i + 1 ∈ client.missed) client.sequence.toNat es
  phase : PhaseInv codec log requests client

/-- The invariant of the system. -/
structure CloneInv (codec : Codec) (s : CloneState) : Prop where
  small : s.published.length < 2 ^ 63
  sequence : s.sequence = BitVec.ofNat 64 s.published.length
  keys : ∀ u ∈ s.published, updateKey u ≠ KTHXBAI
  manager : ∃ n es hs, n ≤ s.published.length ∧ s.managerSequence = BitVec.ofNat 64 n ∧
    s.managerKvmap = replayed codec (s.published.take n) ∧ s.pipe = es.flatMap (wire codec) ∧
    s.held.toList = hs.map (fun e => updateMsg codec (BitVec.ofNat 64 (e.2 + 1)) e.1) ∧
    es ++ hs = s.published.zipIdx.drop n
  clients : ∀ id, ClientInv codec s.published (s.requests id) (s.clients id)

variable {log : List Update} {requests : List Str} {self : Client} {s s' : CloneState}

/-- The phase stays as it is while the log grows. -/
lemma PhaseInv.grow {self' : Client} (inv : PhaseInv codec log requests self) (u : Update)
    (phase : self'.phase = self.phase) (sequence : self'.sequence = self.sequence)
    (kvmap : self'.kvmap = self.kvmap) (snapshot : self'.snapshot = self.snapshot)
    (loaded : self'.loaded = self.loaded) (missed : ∀ n ∈ self.missed, n ∈ self'.missed) :
    PhaseInv codec (log ++ [u]) requests self' := by
  have short : ∀ n ≤ log.length, (log ++ [u]).take n = log.take n :=
    fun n le => List.take_append_of_le_length le
  cases inv with
  | off ph sq km sn rq =>
    exact .off (phase.trans ph) (sequence.trans sq) (kvmap.trans km) (snapshot.trans sn) rq
  | peer ph sq => exact .peer (phase.trans ph) (sequence.trans sq)
  | asking ph sq km sn rq =>
    exact .asking (phase.trans ph) (sequence.trans sq) (kvmap.trans km) (snapshot.trans sn) rq
  | loading n read rest ph sq rq le perm sn km =>
    refine .loading n read rest (phase.trans ph) (sequence.trans sq) rq ?_ ?_ ?_ ?_
    · exact le.trans (by simp)
    · rwa [short n le]
    · rw [short n le, snapshot]
      exact sn
    · rw [short n le, kvmap]
      exact km
  | live ph rq ge le km =>
    refine .live (phase.trans ph) rq ?_ ?_ fun complete => ?_
    · rwa [loaded, sequence]
    · rw [sequence]
      exact le.trans (by simp)
    · rw [kvmap, sequence, short _ le]
      refine km fun n mem => ?_
      rw [← loaded]
      exact complete n (missed n mem)

/-- What holds of a client that reads updates. -/
lemma PhaseInv.of_live (inv : PhaseInv codec log requests self) (ph : self.phase = .live) :
    requests = [] ∧ self.loaded.toNat ≤ self.sequence.toNat ∧ self.sequence.toNat ≤ log.length ∧
      (self.Complete → ∀ k,
        self.kvmap.lookup k = (replayed codec (log.take self.sequence.toNat)).lookup k) := by
  cases inv with
  | off ph' => simp [ph] at ph'
  | peer ph' => simp [ph] at ph'
  | asking ph' => simp [ph] at ph'
  | loading _ _ _ ph' => simp [ph] at ph'
  | live _ rq ge le km => exact ⟨rq, ge, le, km⟩

/-- An update is published to a client. -/
lemma ClientInv.publish (inv : ClientInv codec log requests self) (u : Update) (delivered : Bool) :
    ClientInv codec (log ++ [u]) requests
      (self.publish (updateMsg codec (BitVec.ofNat 64 (log.length + 1)) u)
        (log.length + 1) delivered) := by
  obtain ⟨es, sub, stream⟩ := inv.stream
  rw [Client.publish]
  split
  · refine ⟨⟨es ++ [(u, log.length)], ?_, stream.deliver u⟩,
      inv.phase.grow u rfl rfl rfl rfl rfl fun _ mem => mem⟩
    rw [List.flatMap_append, sub, List.flatMap_singleton]
    rfl
  · refine ⟨⟨es, sub, stream.miss (fun i mem => List.mem_append_left _ mem) ?_⟩,
      inv.phase.grow u rfl rfl rfl rfl rfl fun _ mem => List.mem_append_left _ mem⟩
    exact List.mem_append_right _ (List.mem_singleton_self _)

/-- A client reads an entry of a snapshot. -/
lemma clientSnapshot_entry {sequence : BitVec 64} {u : Update} {input : Input}
    (ne : updateKey u ≠ KTHXBAI)
    (sn : self.snapshot = zmsgInput (kvmsgSend (storedMsg codec sequence u)) ++ input) :
    clientSnapshot codec self = some { self with
      snapshot := input, kvmap :=
        self.kvmap.insert (updateKey u) (storedMsg codec sequence u) } := by
  have recv : kvmsgRecv self.snapshot = some (some (updateMsg codec sequence u), input) := by
    rw [sn]
    rfl
  simp only [clientSnapshot, recv, kvmsgKey_updateMsg, if_neg ne, kvmsgStore_storedMsg]

/-- A client reads the end of a snapshot. -/
lemma clientSnapshot_kthxbai {sequence : BitVec 64}
    (sn : self.snapshot = zmsgInput (kvmsgSend (kthxbai codec sequence)))
    (codes : codec.decode (codec.encode sequence) = some sequence) :
    clientSnapshot codec self = some { self with
      phase := .live, snapshot := [], sequence, loaded := sequence } := by
  have recv : kvmsgRecv self.snapshot = some (some (kthxbai codec sequence), []) := by
    rw [sn]
    rfl
  have key : kvmsgKey (kthxbai codec sequence) =
      (some KTHXBAI, { kthxbai codec sequence with key := KTHXBAI }) := rfl
  have seq : kvmsgSequence codec { kthxbai codec sequence with key := KTHXBAI } = some sequence :=
    codes
  simp only [clientSnapshot, recv, key, if_true, seq, Option.map_some]

/-- A client reads an update from the wire. -/
lemma clientUpdate_wire {e : Update × Nat} {input : Input}
    (sub : self.subscriber = wire codec e ++ input)
    (codes : codec.decode (codec.encode (BitVec.ofNat 64 (e.2 + 1))) =
      some (BitVec.ofNat 64 (e.2 + 1))) :
    clientUpdate codec self = some
      (if self.sequence.slt (BitVec.ofNat 64 (e.2 + 1)) then
        { self with
          subscriber := input
          sequence := BitVec.ofNat 64 (e.2 + 1)
          kvmap :=
            self.kvmap.insert (updateKey e.1) (storedMsg codec (BitVec.ofNat 64 (e.2 + 1)) e.1) }
      else { self with subscriber := input }) := by
  have seq : kvmsgSequence codec (updateMsg codec (BitVec.ofNat 64 (e.2 + 1)) e.1) =
      some (BitVec.ofNat 64 (e.2 + 1)) := codes
  simp only [clientUpdate, sub, kvmsgRecv_wire, seq, Option.map_some, kvmsgStore_updateMsg]

/-- A round in which a client reads its snapshot. -/
lemma ClientInv.load (inv : ClientInv codec log requests self) (small : log.length < 2 ^ 63)
    (keys : ∀ u ∈ log, updateKey u ≠ KTHXBAI) (faithful : codec.Faithful log.length)
    (ph : self.phase = .loading) (ne : self.snapshot ≠ []) :
    ∃ self', clientSnapshot codec self = some self' ∧ ClientInv codec log requests self' ∧
      self.sequence.toNat ≤ self'.sequence.toNat := by
  obtain ⟨es, sub, stream⟩ := inv.stream
  cases inv.phase with
  | off ph' => simp [ph] at ph'
  | peer ph' => simp [ph] at ph'
  | live ph' => simp [ph] at ph'
  | asking _ _ _ sn => exact absurd sn ne
  | loading n read rest _ sq rq le perm sn km =>
    rw [sq] at stream
    cases rest with
    | nil =>
      -- the snapshot ends, and all keys were read
      have toNat : (BitVec.ofNat 64 n).toNat = n := toNat_ofNat (by omega)
      refine ⟨_, clientSnapshot_kthxbai sn (faithful n le),
        ⟨⟨es, sub, stream.raise (Nat.zero_le _)⟩,
        .live rfl rq le_rfl (toNat.symm ▸ le) fun _ k => ?_⟩, sq ▸ Nat.zero_le _⟩
      rw [toNat]
      refine (km k).trans ?_
      split
      · rfl
      next out =>
        have absent : k ∉ replayed codec (log.take n) := by
          intro mem
          exact out (by simpa using perm.symm.subset (AList.mem_keys.mp mem))
        exact (AList.lookup_eq_none.mpr absent).symm
    | cons k rest =>
      have mem : k ∈ (replayed codec (log.take n)).keys := perm.subset (by simp)
      obtain ⟨v, hv⟩ :=
        Option.isSome_iff_exists.mp (AList.lookup_isSome.mpr (AList.mem_keys.mpr mem))
      obtain ⟨nk, m, u, rfl, rfl⟩ :=
        replayed_lookup (fun u mem => keys u (List.mem_of_mem_take mem)) hv
      have sn' : self.snapshot = zmsgInput (kvmsgSend (storedMsg codec m u)) ++
          snapshotInput codec (BitVec.ofNat 64 n) (replayed codec (log.take n)) rest := by
        rw [sn, snapshotInput, List.flatMap_cons, hv, List.append_assoc]
        rfl
      refine ⟨_, clientSnapshot_entry nk sn', ⟨⟨es, sub, sq ▸ stream⟩,
        .loading n (read ++ [updateKey u]) rest ph sq rq le (by simpa using perm) rfl fun k => ?_⟩,
        le_rfl⟩
      by_cases h : k = updateKey u
      · subst h
        rw [AList.lookup_insert, if_pos (by simp), hv]
      · rw [AList.lookup_insert_ne h, km k]
        simp [h]

/-- A round in which a client reads an update. -/
lemma ClientInv.update (inv : ClientInv codec log requests self) (small : log.length < 2 ^ 63)
    (faithful : codec.Faithful log.length) (ph : self.phase = .live) (ne : self.subscriber ≠ []) :
    ∃ self', clientUpdate codec self = some self' ∧ ClientInv codec log requests self' ∧
      self.sequence.toNat ≤ self'.sequence.toNat := by
  obtain ⟨es, sub, stream⟩ := inv.stream
  obtain ⟨rq, ge, le, km⟩ := inv.phase.of_live ph
  cases es with
  | nil => exact absurd sub ne
  | cons e es =>
    obtain ⟨u, i⟩ := e
    have entry := stream.entry (u, i) List.mem_cons_self
    obtain ⟨lt, _⟩ := List.getElem?_eq_some_iff.mp entry
    have lt : i < log.length := lt
    have toNat : (BitVec.ofNat 64 (i + 1)).toNat = i + 1 := toNat_ofNat (by omega)
    have codes := faithful (i + 1) lt
    have read := stream.read
    refine ⟨_, clientUpdate_wire sub codes, ?_⟩
    rw [slt_ofNat (by omega) (by omega)]
    by_cases new : self.sequence.toNat < i + 1
    · rw [Nat.max_eq_right new.le] at read
      simp only [new, decide_true, if_true]
      refine ⟨⟨⟨es, rfl, toNat.symm ▸ read⟩,
        .live ph rq (toNat.symm ▸ ge.trans new.le) (toNat.symm ▸ lt)
        fun complete k => ?_⟩, toNat.symm ▸ new.le⟩
      -- nothing in between was missed, so this is the next update
      have next : i = self.sequence.toNat := by
        refine stream.next (Nat.lt_succ_iff.mp new) fun j missed => ?_
        exact (Nat.lt_of_succ_le (complete _ missed)).trans_le ge
      rw [toNat, replayed_take_succ entry]
      refine lookup_insert_congr (fun k => ?_) _ _ k
      rw [km complete k, ← next]
    · rw [Nat.max_eq_left (Nat.le_of_not_lt new)] at read
      simp only [new, decide_false, Bool.false_eq_true, if_false]
      exact ⟨⟨⟨es, rfl, read⟩, .live ph rq ge le km⟩, le_rfl⟩

/-- No client falls back. -/
def Grown (s s' : CloneState) : Prop :=
  ∀ id, (s.clients id).sequence.toNat ≤ (s'.clients id).sequence.toNat

/-- One client is changed and does not fall back. -/
lemma Grown.client {id : Frame} (hc : s'.clients = Function.update s.clients id self)
    (le : (s.clients id).sequence.toNat ≤ self.sequence.toNat) : Grown s s' := by
  intro n
  rw [hc]
  by_cases hn : n = id
  · subst hn
    simpa using le
  · simp [hn]

/-- The rest of a log with its first entry. -/
lemma zipIdx_drop {n : Nat} (e : Update × Nat) {es : List (Update × Nat)}
    (h : e :: es = log.zipIdx.drop n) :
    e.2 = n ∧ log[n]? = some e.1 ∧ es = log.zipIdx.drop (n + 1) := by
  have lt : n < log.zipIdx.length := by
    by_contra ge
    rw [List.drop_eq_nil_of_le (Nat.le_of_not_lt ge)] at h
    cases h
  rw [List.drop_eq_getElem_cons lt, List.cons.injEq, List.getElem_zipIdx] at h
  obtain ⟨rfl, rfl⟩ := h
  rw [List.length_zipIdx] at lt
  simp [lt]

/-- The state manager applies the next update of its pipe. -/
lemma CloneInv.apply (inv : CloneInv codec s) (faithful : codec.Faithful s.published.length)
    (running : s.running = true) (ne : s.pipe ≠ []) :
    ∃ s', stateManagerPipe codec s = some s' ∧ CloneInv codec s' ∧ Grown s s' := by
  obtain ⟨n, es, hs, le, sq, km, pipe, held, rest⟩ := inv.manager
  cases es with
  | nil => exact absurd pipe ne
  | cons e es =>
    obtain ⟨rfl, next, rest'⟩ := zipIdx_drop e rest
    obtain ⟨lt, _⟩ := List.getElem?_eq_some_iff.mp next
    have codes : kvmsgSequence codec (updateMsg codec (BitVec.ofNat 64 (e.2 + 1)) e.1) =
        some (BitVec.ofNat 64 (e.2 + 1)) := faithful (e.2 + 1) lt
    have step : stateManagerPipe codec s = some { s with
        pipe := es.flatMap (wire codec)
        managerSequence := BitVec.ofNat 64 (e.2 + 1)
        managerKvmap := replayed codec (s.published.take (e.2 + 1)) } := by
      rw [replayed_take_succ next, ← km, ← kvmsgStore_updateMsg]
      simp only [stateManagerPipe, running, if_true, pipe, List.flatMap_cons, kvmsgRecv_wire, codes,
        Option.map_some]
    exact ⟨_, step, ⟨inv.small, inv.sequence, inv.keys,
      ⟨e.2 + 1, es, hs, lt, rfl, rfl, rfl, held, rest'⟩, inv.clients⟩, fun _ => le_rfl⟩

/-- The server publishes an update. -/
lemma CloneInv.publish (inv : CloneInv codec s) {u : Update} {delivered : Frame → Bool}
    (e : publish codec s u delivered = some s') : CloneInv codec s' ∧ Grown s s' := by
  obtain ⟨n, es, hs, le, sq, km, pipe, held, rest⟩ := inv.manager
  unfold Clone.publish at e
  split at e
  · cases e
  next ready =>
    obtain ⟨empty, room⟩ := not_or.mp ready
    dsimp only at e
    split at e
    · cases e
    next key =>
      have small := inv.small
      have bound : s.published.length + 1 < 2 ^ 63 := by
        by_contra ge
        have last : s.published.length = 2 ^ 63 - 1 := by omega
        exact room (by rw [inv.sequence, last]; rfl)
      have next : s.sequence + 1 = BitVec.ofNat 64 (s.published.length + 1) := by
        rw [inv.sequence, BitVec.ofNat_add]
        rfl
      have none : s.held = none := by simpa using empty
      rw [kvmsgKey_updateMsg, Option.some.injEq] at key
      rw [next] at e
      cases e
      refine ⟨⟨by simpa using bound, by simp, fun v mem => ?_,
        ⟨n, es, [(u, s.published.length)], ?_, sq, ?_, pipe, rfl, ?_⟩,
        fun id => (inv.clients id).publish u (delivered id)⟩, fun id => ?_⟩
      · obtain mem | mem := List.mem_append.mp mem
        · exact inv.keys v mem
        · rw [List.mem_singleton.mp mem]
          exact key
      · exact le.trans (by simp)
      · rw [km, List.take_append_of_le_length le]
      · rw [none] at held
        have empty : hs = [] := by simpa using held.symm
        rw [empty, List.append_nil] at rest
        rw [List.zipIdx_append, List.drop_append_of_le_length (by simpa using le), rest]
        simp
      · simp only [Client.publish]
        split <;> exact le_rfl

/-- The server passes an update on to its state manager. -/
lemma CloneInv.forward (inv : CloneInv codec s) (e : forward s = some s') :
    CloneInv codec s' ∧ Grown s s' := by
  obtain ⟨n, es, hs, le, sq, km, pipe, held, rest⟩ := inv.manager
  obtain ⟨kvmsg, hk, rfl⟩ := Option.map_eq_some_iff.mp e
  rw [hk, Option.toList_some] at held
  obtain ⟨h, rfl, hh⟩ := List.map_eq_singleton_iff.mp held.symm
  refine ⟨⟨inv.small, inv.sequence, inv.keys, ⟨n, es ++ [h], [], le, sq, km, ?_, rfl, ?_⟩,
    inv.clients⟩, fun _ => le_rfl⟩
  · rw [List.flatMap_append, List.flatMap_singleton, ← pipe, ← hh]
    rfl
  · rw [List.append_nil]
    exact rest

/-- A client and the requests it has made are changed. -/
lemma CloneInv.client (inv : CloneInv codec s) (id : Frame)
    (h : ClientInv codec s.published requests self) :
    CloneInv codec { s with
      requests := Function.update s.requests id requests
      clients := Function.update s.clients id self } := by
  refine ⟨inv.small, inv.sequence, inv.keys, inv.manager, fun n => ?_⟩
  by_cases hn : n = id
  · subst hn
    simpa using h
  · simpa [hn] using inv.clients n

/-- One client has moved. -/
lemma CloneInv.move (inv : CloneInv codec s) (id : Frame)
    (h : ClientInv codec s.published (s.requests id) self) :
    CloneInv codec { s with clients := Function.update s.clients id self } := by
  have whole := inv.client id h
  rwa [Function.update_eq_self] at whole

/-- The state manager answers with a snapshot. -/
lemma CloneInv.answer (inv : CloneInv codec s) {id : Frame} {order : List Str}
    (e : stateManagerSnapshot codec s id order = some s') : CloneInv codec s' ∧ Grown s s' := by
  obtain ⟨m, es, hs, le, sq, km, pipe, held, rest⟩ := inv.manager
  have client := inv.clients id
  unfold stateManagerSnapshot at e
  split at e
  next text requests _ rq =>
    split at e
    next ask =>
      split at e
      next perm =>
        dsimp only at e
        cases e
        refine ⟨inv.client id ⟨client.stream, ?_⟩, .client rfl le_rfl⟩
        rw [sq, km]
        cases client.phase with
        | off _ _ _ _ rq' => simp [rq] at rq'
        | peer ph sq => exact .peer ph sq
        | asking ph sq' km' sn rq' =>
          rw [rq, List.cons.injEq] at rq'
          refine .loading m [] order ph sq' rq'.2 le (km ▸ perm) ?_ fun k => ?_
          · rw [sn]
            rfl
          · simp [km']
        | loading _ _ _ _ _ rq' => simp [rq] at rq'
        | live _ rq' => simp [rq] at rq'
      · cases e
    next bad =>
      cases e
      have same : ClientInv codec s.published requests (s.clients id) := by
        refine ⟨client.stream, ?_⟩
        cases client.phase with
        | off _ _ _ _ rq' => simp [rq] at rq'
        | peer ph sq => exact .peer ph sq
        | asking _ _ _ _ rq' =>
          rw [rq, List.cons.injEq] at rq'
          exact absurd rq'.1 bad
        | loading _ _ _ _ _ rq' => simp [rq] at rq'
        | live _ rq' => simp [rq] at rq'
      have whole := inv.client id same
      rw [Function.update_eq_self] at whole
      exact ⟨⟨whole.small, whole.sequence, whole.keys, whole.manager, whole.clients⟩,
        fun _ => le_rfl⟩
  · cases e

/-- The log only grows. -/
lemma published_le {a : Action} (st : CloneTrans codec s a s') :
    s.published.length ≤ s'.published.length := by
  cases a with
  | publish u delivered =>
    simp only [CloneTrans, cloneStep, publish] at st
    split at st
    · cases st
    · split at st
      · cases st
      · cases st
        simp
  | forward =>
    obtain ⟨_, _, rfl⟩ := Option.map_eq_some_iff.mp st
    exact le_rfl
  | apply =>
    simp only [CloneTrans, cloneStep, stateManagerPipe] at st
    split at st
    · split at st
      · cases st
      · cases st
        exact le_rfl
      · obtain ⟨_, _, rfl⟩ := Option.map_eq_some_iff.mp st
        exact le_rfl
    · cases st
  | answer id order =>
    simp only [CloneTrans, cloneStep, stateManagerSnapshot] at st
    split at st
    · split at st
      · split at st <;> cases st
        exact le_rfl
      · cases st
        exact le_rfl
    · cases st
  | request id text =>
    simp only [CloneTrans, cloneStep] at st
    split at st <;> cases st
    exact le_rfl
  | start id =>
    simp only [CloneTrans, cloneStep] at st
    split at st <;> cases st
    exact le_rfl
  | load id =>
    simp only [CloneTrans, cloneStep] at st
    split at st
    · obtain ⟨_, _, rfl⟩ := Option.map_eq_some_iff.mp st
      exact le_rfl
    · cases st
  | update id =>
    simp only [CloneTrans, cloneStep] at st
    split at st
    · obtain ⟨_, _, rfl⟩ := Option.map_eq_some_iff.mp st
      exact le_rfl
    · cases st

/-- Every step keeps the invariant, and no client falls back. -/
lemma CloneInv.step (inv : CloneInv codec s) (faithful : codec.Faithful s.published.length)
    {a : Action} (st : CloneTrans codec s a s') : CloneInv codec s' ∧ Grown s s' := by
  cases a with
  | publish u delivered => exact inv.publish st
  | forward => exact inv.forward st
  | apply =>
    have st : stateManagerPipe codec s = some s' := st
    have running : s.running = true := by
      by_contra stop
      simp [stateManagerPipe, stop] at st
    have ne : s.pipe ≠ [] := by
      intro empty
      simp [stateManagerPipe, running, empty, kvmsgRecv, recvFrames] at st
    obtain ⟨s₁, e, inv', grown⟩ := inv.apply faithful running ne
    rw [st] at e
    cases e
    exact ⟨inv', grown⟩
  | answer id order => exact inv.answer st
  | request id text =>
    have client := inv.clients id
    simp only [CloneTrans, cloneStep] at st
    split at st
    next free =>
      cases st
      refine ⟨inv.client id ⟨client.stream, ?_⟩, .client rfl le_rfl⟩
      cases client.phase with
      | off _ sq => exact .peer rfl sq
      | peer _ sq => exact .peer rfl sq
      | asking ph => simp [ph] at free
      | loading _ _ _ ph => simp [ph] at free
      | live ph => simp [ph] at free
    · cases st
  | start id =>
    have client := inv.clients id
    simp only [CloneTrans, cloneStep] at st
    split at st
    next free =>
      cases st
      refine ⟨inv.client id ⟨client.stream, ?_⟩, .client rfl le_rfl⟩
      cases client.phase with
      | off _ sq km sn => exact .asking rfl sq km sn rfl
      | peer ph => simp [ph] at free
      | asking ph => simp [ph] at free
      | loading _ _ _ ph => simp [ph] at free
      | live ph => simp [ph] at free
    · cases st
  | load id =>
    simp only [CloneTrans, cloneStep] at st
    split at st
    next ph =>
      obtain ⟨self, e, rfl⟩ := Option.map_eq_some_iff.mp st
      have ne : (s.clients id).snapshot ≠ [] := by
        intro empty
        simp [clientSnapshot, empty, kvmsgRecv, recvFrames] at e
      obtain ⟨self', e', inv', le⟩ := (inv.clients id).load inv.small inv.keys faithful ph ne
      rw [e] at e'
      cases e'
      exact ⟨inv.move id inv', .client rfl le⟩
    · cases st
  | update id =>
    simp only [CloneTrans, cloneStep] at st
    split at st
    next ph =>
      obtain ⟨self, e, rfl⟩ := Option.map_eq_some_iff.mp st
      have ne : (s.clients id).subscriber ≠ [] := by
        intro empty
        simp [clientUpdate, empty, kvmsgRecv, recvFrames] at e
      obtain ⟨self', e', inv', le⟩ := (inv.clients id).update inv.small faithful ph ne
      rw [e] at e'
      cases e'
      exact ⟨inv.move id inv', .client rfl le⟩
    · cases st

/-- The log is empty at the start. -/
lemma CloneInv.new (codec : Codec) : CloneInv codec cloneNew :=
  ⟨by decide, rfl, nofun, ⟨0, [], [], le_rfl, rfl, rfl, rfl, rfl, rfl⟩,
    fun _ => ⟨⟨[], rfl, .nil⟩, .off rfl rfl rfl rfl rfl⟩⟩

/-- The invariant holds in every state up to whose log the codec is faithful. -/
lemma CloneInv.run {tr} (run : Run (CloneTrans codec) cloneNew tr s)
    (faithful : codec.Faithful s.published.length) : CloneInv codec s := by
  refine run.invariant (fun s => codec.Faithful s.published.length → CloneInv codec s)
    (fun _ => .new codec) (fun s a s' ih st faithful => ?_) faithful
  have before : codec.Faithful s.published.length :=
    fun n le => faithful n (le.trans (published_le st))
  exact ((ih before).step before st).1

/-- A round of the snapshot loop takes a message from the socket. -/
lemma clientSnapshot_length {self self' : Client} (e : clientSnapshot codec self = some self') :
    self'.snapshot.length < self.snapshot.length := by
  rw [clientSnapshot] at e
  split at e
  · cases e
  next rest recv =>
    cases e
    exact kvmsgRecv_length recv
  next kvmsg rest recv =>
    have shorter := kvmsgRecv_length recv
    split at e
    · cases e
    · split at e
      · obtain ⟨_, _, rfl⟩ := Option.map_eq_some_iff.mp e
        exact shorter
      · cases e
        exact shorter

/-- So does a round of the update loop. -/
lemma clientUpdate_length {self self' : Client} (e : clientUpdate codec self = some self') :
    self'.subscriber.length < self.subscriber.length := by
  rw [clientUpdate] at e
  split at e
  · cases e
  next rest recv =>
    cases e
    exact kvmsgRecv_length recv
  next kvmsg rest recv =>
    obtain ⟨_, _, rfl⟩ := Option.map_eq_some_iff.mp e
    split <;> exact kvmsgRecv_length recv

/-- No sequence of a client is beyond the log. -/
lemma ClientInv.sequence_le (inv : ClientInv codec log requests self) :
    self.sequence.toNat ≤ log.length := by
  cases inv.phase with
  | off _ sq => simp [sq]
  | peer _ sq => simp [sq]
  | asking _ sq => simp [sq]
  | loading _ _ _ _ sq => simp [sq]
  | live _ _ _ le => exact le

/-- In every run whose sequences the codec gives back, for every client: in its update loop, if
nothing after its snapshot missed it, its map is that of the updates up to its sequence, which are
all updates when none is under way to it; its sequence never decreases; and no round of its loops
fails, and each takes a message from the socket that it reads. -/
theorem clone_converges (codec : Codec) : ∀ tr s, Run (CloneTrans codec) cloneNew tr s →
    codec.Faithful s.published.length → ∀ id,
    ((s.clients id).phase = .live → (s.clients id).Complete →
      ∃ N : Nat, (s.clients id).sequence.toInt = N ∧
        (∀ k, (s.clients id).kvmap.lookup k = (replayed codec (s.published.take N)).lookup k) ∧
        ((s.clients id).subscriber = [] → N = s.published.length)) ∧
    (∀ a s', CloneTrans codec s a s' →
      (s.clients id).sequence.toInt ≤ (s'.clients id).sequence.toInt) ∧
    (s.clients id).phase ≠ .stopped ∧
    ((s.clients id).phase = .loading → (s.clients id).snapshot ≠ [] →
      ∃ s', CloneTrans codec s (.load id) s' ∧
        (s'.clients id).snapshot.length < (s.clients id).snapshot.length) ∧
    ((s.clients id).phase = .live → (s.clients id).subscriber ≠ [] →
      ∃ s', CloneTrans codec s (.update id) s' ∧
        (s'.clients id).subscriber.length < (s.clients id).subscriber.length) := by
  intro tr s run faithful id
  have inv := CloneInv.run run faithful
  have client := inv.clients id
  have small := inv.small
  have toInt : ∀ {s : CloneState}, CloneInv codec s →
      (s.clients id).sequence.toInt = ((s.clients id).sequence.toNat : Int) := by
    intro s inv
    exact toInt_eq_toNat ((inv.clients id).sequence_le.trans_lt inv.small)
  refine ⟨fun ph complete => ?_, fun a s' st => ?_, fun ph => ?_, fun ph ne => ?_, fun ph ne => ?_⟩
  · obtain ⟨es, sub, stream⟩ := client.stream
    obtain ⟨_, ge, le, km⟩ := client.phase.of_live ph
    refine ⟨_, toInt inv, km complete, fun empty => le_antisymm le ?_⟩
    cases es with
    | nil => exact stream.done fun j missed => (Nat.lt_of_succ_le (complete _ missed)).trans_le ge
    | cons e es =>
      rw [sub] at empty
      cases empty
  · obtain ⟨inv', grown⟩ := inv.step faithful st
    rw [toInt inv, toInt inv']
    exact Int.ofNat_le.mpr (grown id)
  · cases client.phase with
    | off ph' => simp [ph] at ph'
    | peer ph' => simp [ph] at ph'
    | asking ph' => simp [ph] at ph'
    | loading _ _ _ ph' => simp [ph] at ph'
    | live ph' => simp [ph] at ph'
  · obtain ⟨self', e, _⟩ := client.load small inv.keys faithful ph ne
    refine ⟨{ s with clients := Function.update s.clients id self' }, by
      simp [CloneTrans, cloneStep, ph, e], ?_⟩
    dsimp only
    rw [Function.update_self]
    exact clientSnapshot_length e
  · obtain ⟨self', e, _⟩ := client.update small faithful ph ne
    refine ⟨{ s with clients := Function.update s.clients id self' }, by
      simp [CloneTrans, cloneStep, ph, e], ?_⟩
    dsimp only
    rw [Function.update_self]
    exact clientUpdate_length e

/-- A client starts after the first of two updates was published, and gets both: with the codec of
the source, as the sequences are small. -/
theorem clone_converges_two : ∃ s, Run (CloneTrans kvsimple) cloneNew
    [.update [67], .load [67], .load [67], .answer [67] [[49]], .publish ⟨[49], [51]⟩ fun _ => true,
      .apply, .start [67], .forward, .publish ⟨[49], [50]⟩ fun _ => true] s ∧
    s.published.length = 2 ∧ (s.clients [67]).phase = .live ∧
    ∃ N : Nat, (s.clients [67]).sequence.toInt = N ∧
      (∀ k, (s.clients [67]).kvmap.lookup k = (replayed kvsimple (s.published.take N)).lookup k) ∧
      ((s.clients [67]).subscriber = [] → N = s.published.length) := by
  have all : (exec (cloneStep kvsimple) cloneNew
      [.update [67], .load [67], .load [67], .answer [67] [[49]],
        .publish ⟨[49], [51]⟩ fun _ => true, .apply,
        .start [67], .forward, .publish ⟨[49], [50]⟩ fun _ => true]).any (fun s =>
      s.published.length = 2 ∧ (s.clients [67]).phase = .live ∧
        ∀ n ∈ (s.clients [67]).missed, n ≤ (s.clients [67]).loaded.toNat) = true := by
    decide +kernel
  obtain ⟨s, e, facts⟩ := (Option.any_eq_true _ _).mp all
  obtain ⟨two, live, complete⟩ := of_decide_eq_true facts
  have faithful : kvsimple.Faithful s.published.length := by
    rw [two]
    intro n le
    interval_cases n <;> decide +kernel
  exact ⟨s, exec_run e, two, live,
    (clone_converges kvsimple _ s (exec_run e) faithful [67]).1 live complete⟩

end SweetClib.Clone
