import Mathlib.Tactic
import Mathlib.Data.Nat.Digits.Lemmas

/-!
# Printed text

What `printf` writes: the bytes of a literal text in UTF-8 (`text`), and numbers in decimal
(`natText`, `intText`). A list that is printed entry by entry is `List.intercalate` of the entries
(`intercalate_concat`). What is put together from texts in UTF-8 is one (`Utf8.append`,
`Utf8.intercalate`).
-/

namespace SweetClib.Lib

/-- The bytes of a text. -/
def text (s : String) : List UInt8 := s.toUTF8.data.toList

/-- A decimal digit. -/
def digit (n : Nat) : UInt8 := 48 + UInt8.ofNat n

/-- A natural number in decimal. -/
def natText (n : Nat) : List UInt8 := if n = 0 then [48] else ((Nat.digits 10 n).map digit).reverse

/-- An integer in decimal. -/
def intText (z : Int) : List UInt8 := if z < 0 then 45 :: natText z.natAbs else natText z.natAbs

example : text "[-107]" = 91 :: intText (-107) ++ [93] := by decide

/-- The byte of a digit. -/
lemma digit_toNat {n : Nat} (lt : n < 10) : (digit n).toNat = 48 + n := by
  rw [digit, UInt8.toNat_add, UInt8.toNat_ofNat']
  simp only [UInt8.reduceToNat]
  omega

/-- A number is printed in decimal digits. -/
lemma natText_digits {n : Nat} {c : UInt8} (mem : c ∈ natText n) : ∃ d < 10, c = digit d := by
  rw [natText] at mem
  split at mem
  · exact ⟨0, by decide, List.mem_singleton.mp mem⟩
  · obtain ⟨d, isDigit, rfl⟩ := List.mem_map.mp (List.mem_reverse.mp mem)
    exact ⟨d, Nat.digits_lt_base (by decide) isDigit, rfl⟩

/-- A number is read back from its digits. -/
lemma natText_value (n : Nat) : (natText n).foldl (fun v c => 10 * v + (c.toNat - 48)) 0 = n := by
  have fold : ∀ ds : List Nat, (∀ d ∈ ds, d < 10) →
      (ds.map digit).foldr (fun c v => 10 * v + (c.toNat - 48)) 0 = Nat.ofDigits 10 ds := by
    intro ds small
    induction ds with
    | nil => rfl
    | cons d ds ih =>
      obtain ⟨lt, rest⟩ := List.forall_mem_cons.mp small
      rw [List.map_cons, List.foldr_cons, ih rest, digit_toNat lt, Nat.ofDigits_cons]
      omega
  rw [natText]
  split
  · rename_i zero
    rw [zero]
    rfl
  · rw [List.foldl_reverse, fold _ fun d mem => Nat.digits_lt_base (by decide) mem,
      Nat.ofDigits_digits]

/-- Different numbers are printed differently. -/
lemma natText_inj {m n : Nat} (e : natText m = natText n) : m = n := by
  rw [← natText_value m, ← natText_value n, e]

/-- One more item behind the others. -/
lemma intercalate_concat {es : List (List UInt8)} (ne : es ≠ []) (sep e : List UInt8) :
    List.intercalate sep (es ++ [e]) = List.intercalate sep es ++ sep ++ e := by
  induction es with
  | nil => exact absurd rfl ne
  | cons x es ih =>
    by_cases last : es = []
    · simp [last, List.intercalate_cons_of_ne_nil]
    · rw [List.cons_append, List.intercalate_cons_of_ne_nil (by simp), ih last,
        List.intercalate_cons_of_ne_nil last]
      simp only [List.append_assoc]

/-- The length of a list that is printed. -/
lemma length_intercalate (sep : List UInt8) (es : List (List UInt8)) :
    (List.intercalate sep es).length = (es.map List.length).sum + sep.length * (es.length - 1) := by
  induction es with
  | nil => rfl
  | cons e es ih =>
    by_cases last : es = []
    · simp [last]
    · have pos : 0 < es.length := List.length_pos_iff.mpr last
      rw [List.intercalate_cons_of_ne_nil last, List.length_append, List.length_append, ih,
        List.map_cons, List.sum_cons, List.length_cons, Nat.add_sub_cancel,
        ← Nat.sub_add_cancel pos, Nat.add_sub_cancel]
      ring

/-- Lists of entries that are printed in the same way, of which no entry of the one is longer than
that of the other, have entries of the same lengths. -/
lemma length_eq_of_intercalate {ι : Type*} {l : List ι} {f g : ι → List UInt8} {sep : List UInt8}
    (le : ∀ i ∈ l, (f i).length ≤ (g i).length)
    (same : List.intercalate sep (l.map f) = List.intercalate sep (l.map g)) :
    ∀ i ∈ l, (f i).length = (g i).length := by
  have total := congrArg List.length same
  simp only [length_intercalate, List.length_map, List.map_map, Nat.add_right_cancel_iff] at total
  intro i mem
  by_contra ne
  have lt := List.sum_lt_sum (List.length ∘ f) (List.length ∘ g) le
    ⟨i, mem, Nat.lt_of_le_of_ne (le i mem) ne⟩
  omega

/-- The bytes of two strings, one behind the other. -/
lemma text_append (s t : String) : text (s ++ t) = text s ++ text t := by simp [text]

/-- The bytes are those of a text. -/
def Utf8 (s : List UInt8) : Prop := ∃ t : String, text t = s

section Utf8

variable {s t : List UInt8}

/-- Two texts of characters are one. -/
lemma Utf8.append (hs : Utf8 s) (ht : Utf8 t) : Utf8 (s ++ t) := by
  obtain ⟨a, rfl⟩ := hs
  obtain ⟨b, rfl⟩ := ht
  exact ⟨a ++ b, text_append a b⟩

/-- Texts of characters stay that with a separator between them. -/
lemma Utf8.intercalate {es : List (List UInt8)} (sep : Utf8 s) (each : ∀ e ∈ es, Utf8 e) :
    Utf8 (List.intercalate s es) := by
  induction es with
  | nil => exact ⟨"", rfl⟩
  | cons e es ih =>
    obtain ⟨first, rest⟩ := List.forall_mem_cons.mp each
    by_cases last : es = []
    · subst last
      rwa [List.intercalate_singleton]
    · rw [List.intercalate_cons_of_ne_nil last]
      exact (first.append sep).append (ih rest)

end Utf8

end SweetClib.Lib
