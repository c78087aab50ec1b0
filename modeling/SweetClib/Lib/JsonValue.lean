import SweetClib.Lib.Json
import SweetClib.Lib.NestedMap

/-!
# What a JSON value holds

A string of a JSON text is kept as it is spelled. What it means is the string with its escapes
resolved (`unescape`): one byte for an escape of one character, and the UTF-8 bytes of the
character for `\u`, where two code units of UTF-16 can make one character. An object is a map from
what its keys mean, and an array is a map from the decimal indices.
-/

namespace SweetClib.Lib

/-- The character of an escape of one character. -/
def escapedByte (c : UInt8) : UInt8 :=
  if c = 98 then 8
  else if c = 102 then 12
  else if c = 110 then 10
  else if c = 114 then 13
  else if c = 116 then 9
  else c

/-- The number of four hexadecimal digits. -/
def codeUnit (a b c d : UInt8) : Nat :=
  let digit (x : UInt8) : Nat := if isDigit x then x.toNat - 48 else if x < 97 then x.toNat - 55
    else x.toNat - 87
  4096 * digit a + 256 * digit b + 16 * digit c + digit d

/-- The parts of a string as it is spelled: bytes, and code units. -/
def spelledParts : List UInt8 → List (UInt8 ⊕ Nat)
  | [] => []
  | 92 :: 117 :: a :: b :: c :: d :: s => .inr (codeUnit a b c d) :: spelledParts s
  | 92 :: e :: s => .inl (escapedByte e) :: spelledParts s
  | c :: s => .inl c :: spelledParts s

/-- The bytes of a character; what is not one is replaced. -/
def charBytes (n : Nat) : List UInt8 :=
  text (String.singleton (if n.isValidChar then Char.ofNat n else Char.ofNat 0xFFFD))

/-- The bytes of a string: a high and a low surrogate in a row are one character. -/
def joinParts : List (UInt8 ⊕ Nat) → List UInt8
  | [] => []
  | .inl c :: ps => c :: joinParts ps
  | .inr n :: .inr m :: ps =>
    if (0xD800 ≤ n ∧ n < 0xDC00) ∧ (0xDC00 ≤ m ∧ m < 0xE000) then
      charBytes (0x10000 + 0x400 * (n - 0xD800) + (m - 0xDC00)) ++ joinParts ps
    else charBytes n ++ joinParts (.inr m :: ps)
  | .inr n :: ps => charBytes n ++ joinParts ps

/-- What a string means. -/
def unescape (s : List UInt8) : List UInt8 := joinParts (spelledParts s)

example : unescape (text "a\\n\\u4e2d\\ud83d\\ude00") = text "a\n中😀" := by decide

/-- A string without a backslash means itself. -/
lemma unescape_plain {s : List UInt8} (plain : Plain s) : unescape s = s := by
  have parts : spelledParts s = s.map Sum.inl := by
    induction s with
    | nil => rfl
    | cons c s ih =>
      obtain ⟨⟨_, slash, _⟩, rest⟩ := List.forall_mem_cons.mp plain
      rw [spelledParts, ih rest, List.map_cons]
      · rintro _ _ _ _ _ rfl
        exact absurd rfl slash
      · rintro _ _ rfl
        exact absurd rfl slash
  have joined : ∀ s : List UInt8, joinParts (s.map Sum.inl) = s := by
    intro s
    induction s with
    | nil => rfl
    | cons c s ih => rw [List.map_cons, joinParts, ih]
  rw [unescape, parts, joined]

/-- The values by their positions, as entries of a map. -/
def indexed {α : Type*} (vs : List α) : List (List UInt8 × α) :=
  vs.zipIdx.map fun v => (natText v.2, v.1)

/-- An array whose keys are the positions. -/
lemma indexed_map {ι α : Type*} {l : List ι} {key : ι → List UInt8} (f : ι → α)
    (positions : l.map key = (List.range l.length).map natText) :
    indexed (l.map f) = l.map fun i => (key i, f i) := by
  apply List.ext_getElem
  · simp [indexed]
  · intro n h h'
    have n_lt : n < l.length := by simpa using h'
    have here : (l.map key)[n]? = ((List.range l.length).map natText)[n]? := by rw [positions]
    simp [n_lt] at here
    simp [indexed, here]

instance : NestedMap Json where
  node
    | .str s => .str (unescape s)
    | .arr _ => .map
    | .obj _ => .map
    | _ => .other
  entries
    | .arr vs => indexed vs
    | .obj ms => ms.map fun m => (unescape m.1, m.2)
    | _ => []

end SweetClib.Lib
