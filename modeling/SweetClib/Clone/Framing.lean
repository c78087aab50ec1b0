import SweetClib.Clone.Programs

/-!
# Framing of key-value messages

`kvmsg_recv` of `kvsimple.c` on a socket that holds a stream of messages. It reads at most three
frames and gives a message up at the first flag that does not fit, wherever that is. So a message
of at most three frames is read to its end, while of a longer one the frames after the third stay
in the socket (`kvmsgRecv_message`), and the next call takes them for a message
(`long_message_misaligns`). On streams without longer messages the calls stay aligned with the
messages (`kvmsg_framing_aligned`).
-/

namespace SweetClib.Clone
open SweetClib.Majordomo (Frame Zmsg)

/-- The frames of a stream of messages. -/
def stream (msgs : List Zmsg) : Input :=
  msgs.flatMap zmsgInput

/-- A number of calls of `kvmsg_recv` on one socket: what they return, and the frames that are
left. -/
def recvCalls : Nat → Input → Option (List (Option Kvmsg) × Input)
  | 0, input => some ([], input)
  | k + 1, input =>
    (kvmsgRecv input).bind fun r => (recvCalls k r.2).map fun rs => (r.1 :: rs.1, rs.2)

/-- What a call that reads a message is to return: a null pointer unless there are three frames,
otherwise a message with these frames. -/
structure Reads (msg : Zmsg) (ret : Option Kvmsg) : Prop where
  null : ret = none ↔ msg.length ≠ 3
  frames : ∀ kvmsg, ret = some kvmsg →
    [kvmsg.frameKey, kvmsg.frameSeq, kvmsg.frameBody] = msg.map some

variable {msg : Zmsg} {msgs : List Zmsg} {input : Input}

/-- The loop over the frames stops inside the message or at its end. -/
lemma recvFrames_message (n : Nat) (some_frame : msg ≠ []) :
    recvFrames (n + 1) (zmsgInput msg ++ input) =
      some (if msg.length = n + 1 then some msg else none,
        zmsgInput (msg.drop (n + 1)) ++ input) := by
  induction n generalizing msg with
  | zero =>
    cases msg with
    | nil => exact absurd rfl some_frame
    | cons frame frames =>
      cases frames with
      | nil => rfl
      | cons next frames => simp [zmsgInput, recvFrames]
  | succ n ih =>
    cases msg with
    | nil => exact absurd rfl some_frame
    | cons frame frames =>
      cases frames with
      | nil => simp [zmsgInput, recvFrames]
      | cons next frames =>
        have rest := ih (List.cons_ne_nil next frames)
        have more : ((true : Bool) ≠ decide (0 < n + 1)) = False := by simp
        simp only [zmsgInput, List.cons_append, recvFrames, more, if_false, rest, Option.map_some,
          List.length_cons, Nat.add_right_cancel_iff, List.drop_succ_cons]
        split <;> rfl

/-- A call of `kvmsg_recv` on a socket whose next message has some frame. -/
lemma kvmsgRecv_message (input : Input) (some_frame : msg ≠ []) :
    ∃ ret, kvmsgRecv (zmsgInput msg ++ input) = some (ret, zmsgInput (msg.drop 3) ++ input) ∧
      Reads msg ret := by
  rw [kvmsgRecv, recvFrames_message 2 some_frame]
  refine ⟨_, rfl, ?_⟩
  by_cases three : msg.length = 3
  · obtain ⟨key, sequence, body, rfl⟩ := List.length_eq_three.mp three
    exact ⟨by simp, by simp⟩
  · rw [if_neg three]
    exact ⟨by simpa using three, by simp⟩

/-- As long as no message has more than three frames, every call reads one message. -/
lemma recvCalls_stream (some_frame : ∀ msg ∈ msgs, msg ≠ [])
    (short : ∀ msg ∈ msgs, msg.length ≤ 3) (k : Nat) (enough : k ≤ msgs.length) :
    ∃ rets, recvCalls k (stream msgs ++ input) = some (rets, stream (msgs.drop k) ++ input) ∧
      List.Forall₂ Reads (msgs.take k) rets := by
  induction k generalizing msgs with
  | zero => exact ⟨[], rfl, .nil⟩
  | succ k ih =>
    cases msgs with
    | nil => cases enough
    | cons msg msgs =>
      obtain ⟨ret, recv, reads⟩ :=
        kvmsgRecv_message (stream msgs ++ input) (some_frame msg List.mem_cons_self)
      obtain ⟨rets, calls, all⟩ := ih (fun m h => some_frame m (List.mem_cons_of_mem _ h))
        (fun m h => short m (List.mem_cons_of_mem _ h)) (Nat.le_of_succ_le_succ enough)
      -- the call has read the message to its end
      have whole : msg.drop 3 = [] := List.drop_eq_nil_of_le (short msg List.mem_cons_self)
      rw [whole] at recv
      refine ⟨ret :: rets, ?_, .cons reads all⟩
      simp only [stream, List.flatMap_cons, List.append_assoc, recvCalls] at recv calls ⊢
      rw [recv, Option.bind_some]
      simp only [zmsgInput, List.nil_append, calls, Option.map_some, List.drop_succ_cons]

/-- If the calls leave what is behind their messages, no message has more than three frames. -/
lemma short_of_recvCalls (some_frame : ∀ msg ∈ msgs, msg ≠ [])
    (aligned : ∀ k ≤ msgs.length, ∃ rets,
      recvCalls k (stream msgs ++ input) = some (rets, stream (msgs.drop k) ++ input)) :
    ∀ msg ∈ msgs, msg.length ≤ 3 := by
  induction msgs with
  | nil => exact fun msg mem => absurd mem List.not_mem_nil
  | cons msg msgs ih =>
    obtain ⟨some_first, some_rest⟩ := List.forall_mem_cons.mp some_frame
    obtain ⟨ret, recv, _⟩ := kvmsgRecv_message (stream msgs ++ input) some_first
    have call (k : Nat) : recvCalls (k + 1) (stream (msg :: msgs) ++ input) =
        (recvCalls k (zmsgInput (msg.drop 3) ++ (stream msgs ++ input))).map
          fun r => (ret :: r.1, r.2) := by
      rw [stream, List.flatMap_cons, List.append_assoc, recvCalls]
      exact (congrArg (Option.bind · _) recv :)
    -- the first call leaves the frames of its message behind the third one
    obtain ⟨rets, one⟩ := aligned 1 (Nat.succ_le_succ (Nat.zero_le _))
    rw [call 0, recvCalls, Option.map_some] at one
    have none : msg.drop 3 = [] := by
      have left := congrArg List.length (Prod.mk.inj (Option.some.inj one)).2
      simp only [List.length_append, List.drop_succ_cons, List.drop_zero] at left
      cases frames : msg.drop 3 with
      | nil => rfl
      | cons f fs =>
        have some : 0 < (zmsgInput (msg.drop 3)).length := by
          rw [frames]
          cases fs <;> exact Nat.succ_pos _
        omega
    refine List.forall_mem_cons.mpr ⟨List.drop_eq_nil_iff.mp none, ih some_rest fun k enough => ?_⟩
    obtain ⟨rets, calls⟩ := aligned (k + 1) (Nat.succ_le_succ enough)
    rw [call, none] at calls
    obtain ⟨r, here, e⟩ := Option.map_eq_some_iff.mp calls
    have rest : r.2 = stream (msgs.drop k) ++ input := (Prod.mk.inj e).2
    exact ⟨r.1, rest ▸ here⟩

/-- What `kvmsg_send` sent is received, absent frames as empty ones. -/
lemma kvmsgRecv_kvmsgSend (self : Kvmsg) :
    kvmsgRecv (zmsgInput (kvmsgSend self) ++ input) =
      some (some {
        frameKey := some (self.frameKey.getD []), frameSeq := some (self.frameSeq.getD []),
        frameBody := some (self.frameBody.getD []), key := [] }, input) :=
  rfl

/-- On a stream of messages: the first `k` calls of `kvmsg_recv` consume exactly the first `k`
messages, and each call returns what it is to return for its message, for all `k` exactly when
every message has at most three frames. What `kvmsg_send` sends is received as it was sent. -/
theorem kvmsg_framing_aligned (msgs : List Zmsg) (some_frame : ∀ msg ∈ msgs, msg ≠ [])
    (input : Input) :
    ((∀ k ≤ msgs.length, ∃ rets,
      recvCalls k (stream msgs ++ input) = some (rets, stream (msgs.drop k) ++ input) ∧
      List.Forall₂ Reads (msgs.take k) rets) ↔ ∀ msg ∈ msgs, msg.length ≤ 3) ∧
    ∀ self : Kvmsg, ∃ kvmsg,
      kvmsgRecv (zmsgInput (kvmsgSend self) ++ input) = some (some kvmsg, input) ∧
      kvmsg.frameKey = some (self.frameKey.getD []) ∧
        kvmsg.frameSeq = some (self.frameSeq.getD []) ∧
      kvmsg.frameBody = some (self.frameBody.getD []) := by
  refine ⟨⟨fun aligned => ?_, fun short k enough => ?_⟩, fun self => ?_⟩
  · refine @short_of_recvCalls msgs input some_frame fun k enough => ?_
    obtain ⟨rets, calls, _⟩ := aligned k enough
    exact ⟨rets, calls⟩
  · exact recvCalls_stream some_frame short k enough
  · exact ⟨_, kvmsgRecv_kvmsgSend self, rfl, rfl, rfl⟩

/-- A message of two frames and one of three. -/
theorem kvmsg_framing_aligned_two : ∃ ret kvmsg,
    recvCalls 2 (stream [[[1], [2]], [[3], [4], []]]) = some ([ret, some kvmsg], []) ∧ ret = none ∧
    kvmsg.frameKey = some [3] := by
  obtain ⟨rets, calls, reads⟩ :=
    (kvmsg_framing_aligned [[[1], [2]], [[3], [4], []]] (by simp) []).1.mpr (by simp) 2 le_rfl
  cases reads with
  | @cons _ ret₁ _ _ first reads =>
    cases reads with
    | @cons _ ret₂ _ _ second reads =>
      cases reads
      have null : ret₁ = none := first.null.mpr (by decide)
      cases ret₂ with
      | none => exact absurd rfl (second.null.mp rfl)
      | some kvmsg =>
        have frames := second.frames kvmsg rfl
        exact ⟨ret₁, kvmsg, calls, null, by simpa using (List.cons.inj frames).1⟩

/-- A message of four frames, then one of three: the second call gets the fourth frame of the first
message. -/
theorem long_message_misaligns :
    recvCalls 2 (stream [[[1], [2], [3], [4]], [[5], [6], [7]]]) =
      some ([none, none], stream [[[5], [6], [7]]]) :=
  rfl

end SweetClib.Clone
