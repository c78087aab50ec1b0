import Mathlib.Tactic
import Mathlib.Data.List.Flatten

/-!
# URL encoding of form data

Letters, digits and `-_.` stay, a blank becomes `+`, and every other byte `%` with two hexadecimal
digits (`urlencode`). Decoding reads both kinds of digits and leaves a `%` that is not followed by
two of them (`urldecode`).

Decoding a text that was put together from encoded and other parts is decoding of the parts:
`Decodes x y` says that `x` decodes to `y` whatever follows it.
-/

namespace SweetClib.Lib

/-- The bytes that stay. -/
def isUnreserved (c : UInt8) : Bool :=
  (48 ≤ c ∧ c ≤ 57) ∨ (65 ≤ c ∧ c ≤ 90) ∨ (97 ≤ c ∧ c ≤ 122) ∨ c = 45 ∨ c = 95 ∨ c = 46

/-- The digit of a value below 16, in capitals. -/
def hexDigit (n : Nat) : UInt8 := if n < 10 then 48 + UInt8.ofNat n else 55 + UInt8.ofNat n

/-- The value of a hexadecimal digit, in either case. -/
def hexValue (c : UInt8) : Option Nat :=
  if 48 ≤ c ∧ c ≤ 57 then some (c.toNat - 48)
  else if 65 ≤ c ∧ c ≤ 70 then some (c.toNat - 55)
  else if 97 ≤ c ∧ c ≤ 102 then some (c.toNat - 87)
  else none

/-- A byte, as itself, as a plus for the blank, or as a percent sign and its two digits. -/
def urlencodeByte (c : UInt8) : List UInt8 :=
  if isUnreserved c then [c]
  else if c = 32 then [43]
  else [37, hexDigit (c.toNat / 16), hexDigit (c.toNat % 16)]

/-- The encoding of a text, byte by byte. -/
def urlencode (s : List UInt8) : List UInt8 := s.flatMap urlencodeByte

/-- A byte that does not start an encoded one. -/
def plusToBlank (c : UInt8) : UInt8 := if c = 43 then 32 else c

/-- The decoding of a text. A percent sign without two digits behind it stands for itself. -/
def urldecode : List UInt8 → List UInt8
  | [] => []
  | [c] => [plusToBlank c]
  | [c, d] => [plusToBlank c, plusToBlank d]
  | c :: a :: b :: s =>
    if c = 37 then
      match hexValue a, hexValue b with
      | some x, some y => UInt8.ofNat (16 * x + y) :: urldecode s
      | _, _ => c :: urldecode (a :: b :: s)
    else plusToBlank c :: urldecode (a :: b :: s)

/-- The first text decodes to the second one, whatever follows it. -/
def Decodes (x y : List UInt8) : Prop := ∀ t, urldecode (x ++ t) = y ++ urldecode t

section Decode

variable {c : UInt8} {s t x y x' y' : List UInt8}

/-- Any other byte than the percent sign is decoded by itself. -/
lemma urldecode_cons (percent : c ≠ 37) (t : List UInt8) :
    urldecode (c :: t) = plusToBlank c :: urldecode t := by
  match t with
  | [] => rfl
  | [_] => rfl
  | a :: b :: t => rw [urldecode, if_neg percent]

/-- The value of a digit is the one it was made from. -/
lemma hexValue_hexDigit : ∀ n < 16, hexValue (hexDigit n) = some n := by decide

/-- A percent sign and two digits are decoded into one byte. -/
lemma urldecode_percent {m n : Nat} (hm : m < 16) (hn : n < 16) :
    urldecode (37 :: hexDigit m :: hexDigit n :: t) = UInt8.ofNat (16 * m + n) :: urldecode t := by
  rw [urldecode, if_pos rfl]
  simp only [hexValue_hexDigit m hm, hexValue_hexDigit n hn]

/-- A byte that decoding does not look for stays. -/
lemma decodes_byte (plus : c ≠ 43) (percent : c ≠ 37) : Decodes [c] [c] := by
  intro t
  rw [List.singleton_append, urldecode_cons percent, plusToBlank, if_neg plus,
    List.singleton_append]

/-- What is left as it is has no meaning to the decoder. -/
lemma ne_of_isUnreserved (h : isUnreserved c = true) : c ≠ 43 ∧ c ≠ 37 := by
  constructor <;> (rintro rfl; exact absurd h (by decide))

/-- The encoding of a byte is decoded into it, whatever follows. -/
lemma decodes_urlencodeByte (c : UInt8) : Decodes (urlencodeByte c) [c] := by
  rw [urlencodeByte]
  split
  · rename_i stays
    exact decodes_byte (ne_of_isUnreserved stays).1 (ne_of_isUnreserved stays).2
  · intro t
    split
    · rename_i blank
      subst blank
      exact urldecode_cons (by decide) t
    · have high : c.toNat / 16 < 16 := by
        have := c.toNat_lt
        omega
      have whole : 16 * (c.toNat / 16) + c.toNat % 16 = c.toNat := Nat.div_add_mod _ _
      rw [List.cons_append, List.cons_append, List.cons_append, List.nil_append,
        urldecode_percent high (Nat.mod_lt _ (by decide)), whole, UInt8.ofNat_toNat]
      rfl

/-- Nothing is decoded into nothing. -/
lemma decodes_nil : Decodes [] [] := fun _ => rfl

/-- Pieces of a text can be decoded one after the other. -/
lemma Decodes.append (h : Decodes x y) (h' : Decodes x' y') : Decodes (x ++ x') (y ++ y') := by
  intro t
  rw [List.append_assoc, h, h', List.append_assoc]

/-- The encoding of a text is decoded into it, whatever follows. -/
lemma decodes_urlencode (s : List UInt8) : Decodes (urlencode s) s := by
  induction s with
  | nil => exact decodes_nil
  | cons c s ih => exact (decodes_urlencodeByte c).append ih

/-- A text without `+` and `%` stays. -/
lemma decodes_self (other : ∀ c ∈ s, c ≠ 43 ∧ c ≠ 37) : Decodes s s := by
  induction s with
  | nil => exact decodes_nil
  | cons c s ih =>
    obtain ⟨first, rest⟩ := List.forall_mem_cons.mp other
    exact (decodes_byte first.1 first.2).append (ih rest)

/-- With nothing behind it, the decoding is the whole result. -/
lemma Decodes.urldecode_eq (h : Decodes x y) : urldecode x = y := by simpa [urldecode] using h []

/-- A text with separators is decoded item by item. -/
lemma decodes_intercalate {ι : Type*} {l : List ι} {x y : ι → List UInt8} {sep : List UInt8}
    (comma : Decodes sep sep) (each : ∀ i ∈ l, Decodes (x i) (y i)) :
    Decodes (List.intercalate sep (l.map x)) (List.intercalate sep (l.map y)) := by
  induction l with
  | nil => exact decodes_nil
  | cons i l ih =>
    obtain ⟨first, rest⟩ := List.forall_mem_cons.mp each
    by_cases last : l = []
    · subst last
      simpa using first
    · have more : ∀ z : ι → List UInt8, l.map z ≠ [] := fun z => by simpa using last
      rw [List.map_cons, List.map_cons, List.intercalate_cons_of_ne_nil (more x),
        List.intercalate_cons_of_ne_nil (more y)]
      exact (first.append comma).append (ih rest)

end Decode

section Encode

variable {c : UInt8} {s t : List UInt8}

/-- Different texts have different encodings. -/
lemma urlencode_injective (h : urlencode s = urlencode t) : s = t := by
  rw [← (decodes_urlencode s).urldecode_eq, h, (decodes_urlencode t).urldecode_eq]

/-- The digits are unreserved. -/
lemma isUnreserved_hexDigit : ∀ n < 16, isUnreserved (hexDigit n) = true := by decide

/-- The bytes that the encoding of a byte consists of. -/
lemma mem_urlencodeByte {d : UInt8} (mem : d ∈ urlencodeByte c) :
    isUnreserved d = true ∨ d = 43 ∨ d = 37 := by
  rw [urlencodeByte] at mem
  split at mem
  · rename_i stays
    obtain rfl := List.mem_singleton.mp mem
    exact .inl stays
  · split at mem
    · exact .inr (.inl (List.mem_singleton.mp mem))
    · have high : c.toNat / 16 < 16 := by
        have := c.toNat_lt
        omega
      simp only [List.mem_cons, List.not_mem_nil, or_false] at mem
      obtain rfl | rfl | rfl := mem
      · exact .inr (.inr rfl)
      · exact .inl (isUnreserved_hexDigit _ high)
      · exact .inl (isUnreserved_hexDigit _ (Nat.mod_lt _ (by decide)))

/-- The bytes that an encoding consists of. -/
lemma mem_urlencode (mem : c ∈ urlencode s) : isUnreserved c = true ∨ c = 43 ∨ c = 37 := by
  obtain ⟨d, _, mem'⟩ := List.mem_flatMap.mp mem
  exact mem_urlencodeByte mem'

/-- A text of bytes that stay is its own encoding. -/
lemma urlencode_eq_self (stay : ∀ c ∈ s, isUnreserved c = true) : urlencode s = s := by
  have each : ∀ c ∈ s, urlencodeByte c = [c] := fun c mem => by
    rw [urlencodeByte, if_pos (stay c mem)]
  rw [urlencode, List.flatMap_congr each, List.flatMap_singleton']

/-- Without a `%` in it the encoding has changed blanks only. -/
lemma unreserved_or_blank (percent : 37 ∉ urlencode s) (mem : c ∈ s) :
    isUnreserved c = true ∨ c = 32 := by
  by_contra other
  rw [not_or, Bool.not_eq_true] at other
  apply percent
  apply List.mem_flatMap.mpr
  refine ⟨c, mem, ?_⟩
  simp [urlencodeByte, other.1, other.2]

end Encode

end SweetClib.Lib
