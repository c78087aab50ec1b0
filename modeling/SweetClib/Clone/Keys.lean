import Mathlib.Data.List.TakeWhile
import SweetClib.Lib.Print
import SweetClib.Lib.Run
import SweetClib.Lib.Text
import SweetClib.Clone.Kvsimple

/-!
# The cached key

The key of a message lives in its key frame and, once it was read, in the buffer `key`. `kvmsg_key`
fills the buffer when it is empty, and the functions that set the key leave it alone. The calls on
a message are a transition system (`kvStep`); `kvmsg_dump` prints the key and is one of the
readers. A buffer that was filled is good as long as the keys that are set later agree with it in
their first 255 bytes (`Agrees`), and then `kvmsg_key` returns the key frame
(`kvmsg_key_is_frame`). Otherwise the message is stored under a key that it is not sent with
(`stale_key_stored`).

C → Lean naming: `kvmsg_body` → `kvmsgBody`, `kvmsg_size` → `kvmsgSize`, `kvmsg_dump` →
`kvmsgDump`. What `%s` prints for a null pointer is up to the library; it is the parameter
`nullText`, and `none` when that is a fault.
-/

namespace SweetClib.Clone
open SweetClib.Lib
open SweetClib.Majordomo (Frame Str Zmsg zframeStrhex)

/-- The body (C `kvmsg_body`). -/
def kvmsgBody (self : Kvmsg) : Option Frame := self.frameBody

/-- The size of the body (C `kvmsg_size`). -/
def kvmsgSize (self : Kvmsg) : Nat :=
  match self.frameBody with
  | some frame => frame.length
  | none => 0

/-- What is printed of a message (C `kvmsg_dump`), and the message afterwards. -/
def kvmsgDump (nullText : Option Str) (self : Kvmsg) : Option (Str × Kvmsg) := do
  let size := kvmsgSize self
  let body := kvmsgBody self
  let sequence ← kvmsgSequence kvsimple self
  let (key, self) := kvmsgKey self
  let key ← key <|> nullText
  return (text "[seq:" ++ intText sequence.toInt ++ text "]" ++ text "[key:" ++ key ++ text "]" ++
    text "[size:" ++ natText size ++ text "] " ++ zframeStrhex (body.getD []) ++ text "\n", self)

/-- The calls on a message; a key is a C string, and a format comes with its text. -/
inductive KvOp where
  | setKey (key : CStr)
  | fmtKey (text : Str)
  | setBody (body : Frame)
  | setSequence (sequence : BitVec 64)
  | key
  | send
  | dump

/-- What a call answers. -/
inductive KvAns where
  | done
  | key (key : Option Str)
  | sent (msg : Zmsg)
  | printed (text : Str)

/-- One call. -/
def kvStep (nullText : Option Str) (self : Kvmsg) : KvOp → Option (KvAns × Kvmsg)
  | .setKey key => some (.done, kvmsgSetKey self key.chars)
  | .fmtKey text => some (.done, kvmsgFmtKey self text)
  | .setBody body => some (.done, kvmsgSetBody self body)
  | .setSequence sequence => some (.done, kvmsgSetSequence kvsimple self sequence)
  | .key => some (.key (kvmsgKey self).1, (kvmsgKey self).2)
  | .send => some (.sent (kvmsgSend self), self)
  | .dump => (kvmsgDump nullText self).map fun r => (.printed r.1, r.2)

/-- The key a call sets. -/
def KvOp.newKey : KvOp → Option Str
  | .setKey k => some k.chars
  | .fmtKey text => some ((text.take (KVMSG_KEY_MAX - 1)).takeWhile (· ≠ 0))
  | _ => none

/-- The key that was set last in a history, newest call first. -/
def lastKey : List (KvOp × KvAns) → Option Str
  | [] => none
  | (op, _) :: tr => op.newKey <|> lastKey tr

/-- A call that sets a key finds the buffer empty, or with the first bytes of that key. -/
def Agrees (self : Kvmsg) (op : KvOp) : Prop :=
  ∀ key, op.newKey = some key → self.key = [] ∨ self.key = key.take KVMSG_KEY_MAX

/-- The calls on a message whose buffer agrees with the keys that are set. -/
def AgreeingTrans (nullText : Option Str) (self : Kvmsg) (a : KvOp × KvAns) (self' : Kvmsg) :
    Prop :=
  Agrees self a.1 ∧ Answers (kvStep nullText) self a self'

/-- The buffer is empty or holds the first bytes of the key frame, which is the key that was set
last. -/
structure KeyInv (last : Option Str) (msg : Kvmsg) : Prop where
  frame : msg.frameKey = last
  plain : ∀ key, last = some key → 0 ∉ key
  buffer : ∀ key, last = some key → msg.key = [] ∨ msg.key = key.take KVMSG_KEY_MAX
  unread : last = none → msg.key = []
  sequence : ∃ s, msg.frameSeq = some (kvsimple.encode s)

/-- The first bytes of a key without a terminator are a string. -/
lemma takeWhile_take {key : Str} (plain : 0 ∉ key) (n : Nat) :
    (key.take n).takeWhile (· ≠ 0) = key.take n := by
  rw [List.takeWhile_eq_self_iff]
  intro c mem
  have ne : c ≠ 0 := by
    rintro rfl
    exact plain (List.mem_of_mem_take mem)
  simpa using ne

/-- A key that is set has no terminator. -/
lemma KvOp.newKey_plain {op : KvOp} {key : Str} (set : op.newKey = some key) : 0 ∉ key := by
  cases op with
  | setKey cstr =>
    cases set
    exact cstr.terminated
  | fmtKey text =>
    cases set
    intro mem
    simpa using List.mem_takeWhile_imp mem
  | _ => cases set

section Inv

variable {last : Option Str} {self self' : Kvmsg}

/-- What a reader gets: the first bytes of the key frame; and the buffer holds them afterwards. -/
lemma KeyInv.key (inv : KeyInv last self) :
    (kvmsgKey self).1 = last.map (·.take KVMSG_KEY_MAX) ∧
      (kvmsgKey self).2 = { self with key := (last.map (·.take KVMSG_KEY_MAX)).getD [] } := by
  cases set : last with
  | none =>
    have frame : self.frameKey = none := inv.frame.trans set
    have empty := inv.unread set
    simp only [kvmsgKey, frame, Option.map_none, Option.getD_none, true_and, ← empty]
    rw [← frame]
  | some key =>
    have frame : self.frameKey = some key := inv.frame.trans set
    have str := takeWhile_take (inv.plain key set) KVMSG_KEY_MAX
    have buffer :
        (if self.key.headD 0 = 0 then key.take KVMSG_KEY_MAX else self.key) =
          key.take KVMSG_KEY_MAX := by
      obtain empty | filled := inv.buffer key set
      · rw [empty]
        rfl
      · rw [filled, ite_self]
    simp only [kvmsgKey, frame, buffer, str, Option.map_some, Option.getD_some, and_self]

lemma KeyInv.read (inv : KeyInv last self) : KeyInv last (kvmsgKey self).2 := by
  rw [inv.key.2]
  refine ⟨inv.frame, inv.plain, ?_, ?_, inv.sequence⟩
  · rintro key rfl
    exact .inr rfl
  · rintro rfl
    rfl

/-- Setting a key that agrees with the buffer keeps the invariant. -/
lemma KeyInv.set (inv : KeyInv last self) {op : KvOp} {key : Str} (set : op.newKey = some key)
    (agrees : Agrees self op) : KeyInv (some key) (kvmsgSetKey self key) := by
  refine ⟨rfl, ?_, ?_, nofun, inv.sequence⟩
  · rintro _ ⟨⟩
    exact op.newKey_plain set
  · rintro _ ⟨⟩
    exact agrees key set

/-- A dump prints the key that was set, or what stands for none. -/
lemma KeyInv.dump (inv : KeyInv last self) {nullText : Option Str}
    (printable : nullText ≠ none ∨ last ≠ none) :
    ∃ printed, kvmsgDump nullText self = some (printed, (kvmsgKey self).2) := by
  obtain ⟨s, frame⟩ := inv.sequence
  have sequence : ∃ sequence, kvmsgSequence kvsimple self = some sequence := by
    rw [kvmsgSequence, frame]
    exact ⟨_, rfl⟩
  obtain ⟨sequence, read⟩ := sequence
  have shown : ∃ key, ((kvmsgKey self).1 <|> nullText) = some key := by
    rw [inv.key.1]
    cases set : last with
    | some key => exact ⟨_, rfl⟩
    | none => exact Option.ne_none_iff_exists'.mp (printable.resolve_right fun ne => ne set)
  obtain ⟨key, shown⟩ := shown
  rw [kvmsgDump, read]
  simp only [Option.bind_eq_bind, Option.bind_some, shown]
  exact ⟨_, rfl⟩

lemma kvmsgDump_self {nullText : Option Str} {printed : Str}
    (e : kvmsgDump nullText self = some (printed, self')) : self' = (kvmsgKey self).2 := by
  rw [kvmsgDump] at e
  obtain ⟨sequence, _, e⟩ := Option.bind_eq_some_iff.mp e
  obtain ⟨key, _, e⟩ := Option.bind_eq_some_iff.mp e
  cases e
  rfl

lemma KeyInv.step (inv : KeyInv last self) {nullText : Option Str} {a : KvOp × KvAns}
    (st : AgreeingTrans nullText self a self') : KeyInv (a.1.newKey <|> last) self' := by
  obtain ⟨op, ans⟩ := a
  obtain ⟨agrees, st⟩ := st
  have st : kvStep nullText self op = some (ans, self') := st
  cases op with
  | setKey key =>
    cases st
    exact inv.set rfl agrees
  | fmtKey text =>
    cases st
    exact inv.set rfl agrees
  | setBody body =>
    cases st
    exact ⟨inv.frame, inv.plain, inv.buffer, inv.unread, inv.sequence⟩
  | setSequence sequence =>
    cases st
    exact ⟨inv.frame, inv.plain, inv.buffer, inv.unread, sequence, rfl⟩
  | key =>
    cases st
    exact inv.read
  | send =>
    cases st
    exact inv
  | dump =>
    obtain ⟨⟨printed, self₁⟩, e, same⟩ := Option.map_eq_some_iff.mp st
    cases same
    rw [kvmsgDump_self e]
    exact inv.read

lemma KeyInv.run {nullText : Option Str} {sequence : BitVec 64} {tr : List (KvOp × KvAns)}
    (run : Run (AgreeingTrans nullText) (kvmsgNew kvsimple sequence) tr self) :
    KeyInv (lastKey tr) self := by
  refine run.history (fun tr self => KeyInv (lastKey tr) self)
    ⟨rfl, nofun, nofun, fun _ => rfl, sequence, rfl⟩ ?_
  intro tr self a self' inv st
  exact inv.step st

/-- Every call is answered, but for a dump where no key can be printed. -/
lemma KeyInv.answered (inv : KeyInv last self) {nullText : Option Str} {op : KvOp}
    (printable : op = .dump → nullText ≠ none ∨ last ≠ none) :
    ∃ ans self', kvStep nullText self op = some (ans, self') := by
  cases op with
  | dump =>
    obtain ⟨printed, e⟩ := inv.dump (printable rfl)
    exact ⟨_, _, by rw [kvStep, e]; rfl⟩
  | _ => exact ⟨_, _, rfl⟩

end Inv

/-- After every run of calls on a new message in which a key is set only when the buffer is empty
or holds the first 255 bytes of that key: `kvmsg_key` returns the null pointer if no key was set
and otherwise the first 255 bytes of the key that was set last, which is the one that is sent; the
message is stored under what `kvmsg_key` returns; and the next such call is answered. -/
theorem kvmsg_key_is_frame (nullText : Option Str) (sequence : BitVec 64)
    {tr : List (KvOp × KvAns)} {self : Kvmsg}
    (run : Run (AgreeingTrans nullText) (kvmsgNew kvsimple sequence) tr self) :
    (kvmsgKey self).1 = (lastKey tr).map (·.take KVMSG_KEY_MAX) ∧
    (kvmsgSend self).head? = some ((lastKey tr).getD []) ∧
    (∀ key hash, lastKey tr = some key → self.frameBody ≠ none →
      kvmsgStore self hash = hash.insert (key.take KVMSG_KEY_MAX) (kvmsgKey self).2) ∧
    ∀ op, Agrees self op → (op = .dump → nullText ≠ none ∨ lastKey tr ≠ none) →
      ∃ ans self', AgreeingTrans nullText self (op, ans) self' := by
  have inv := KeyInv.run run
  refine ⟨inv.key.1, ?_, fun key hash set body => ?_, fun op agrees printable => ?_⟩
  · rw [kvmsgSend, inv.frame]
    rfl
  · have present : self.frameKey.isSome ∧ self.frameBody.isSome := by
      rw [inv.frame, set]
      exact ⟨rfl, Option.isSome_iff_ne_none.mpr body⟩
    have read : kvmsgKey self = (some (key.take KVMSG_KEY_MAX), (kvmsgKey self).2) := by
      rw [← Option.map_some, ← set, ← inv.key.1]
    rw [kvmsgStore, if_pos present, read]
  · obtain ⟨ans, self', st⟩ := inv.answered printable
    exact ⟨ans, self', agrees, st⟩

/-- A key that is set, read and set again to the same text. -/
theorem kvmsg_key_is_frame_again : ∃ self,
    kvStep none (kvmsgKey (kvmsgSetKey (kvmsgNew kvsimple 1) [97])).2 (.setKey ⟨[97], by decide⟩) =
      some (.done, self) ∧
      (kvmsgKey self).1 = some [97] := by
  have run : Run (AgreeingTrans none) (kvmsgNew kvsimple 1)
      [(.setKey ⟨[97], by decide⟩, .done), (.key, .key (some [97])),
          (.setKey ⟨[97], by decide⟩, .done)] _ :=
    .cons (.cons (.cons .nil ⟨fun _ _ => .inl rfl, rfl⟩) ⟨nofun, rfl⟩)
      ⟨fun _ set => by cases set; exact .inr rfl, rfl⟩
  exact ⟨_, rfl, (kvmsg_key_is_frame none 1 run).1⟩

/-- After the key `"a"` was read and the key `"b"` set, `kvmsg_key` still returns `"a"`: the
message is stored under `"a"` and sent with `"b"`. -/
theorem stale_key_stored : ∃ tr self,
    Run (Answers (kvStep none)) (kvmsgNew kvsimple 1) tr self ∧
    inputs tr = [.setBody [120], .setKey ⟨[97], by decide⟩, .key, .setKey ⟨[98], by decide⟩] ∧
    (kvmsgKey self).1 = some [97] ∧ (kvmsgSend self).head? = some [98] ∧
    (kvmsgStore self ∅).keys = [[97]] := by
  have run : Run (Answers (kvStep none)) (kvmsgNew kvsimple 1)
      [(.setKey ⟨[98], by decide⟩, .done), (.key, .key (some [97])),
        (.setKey ⟨[97], by decide⟩, .done),
        (.setBody [120], .done)] _ :=
    .cons (.cons (.cons (.cons .nil rfl) rfl) rfl) rfl
  exact ⟨_, _, run, rfl, rfl, rfl, rfl⟩

end SweetClib.Clone
