import SweetClib.Lib.Json
import SweetClib.Bns.Strntok
import SweetClib.Bns.Row

/-!
# Matching and converting columns

Model of `filter_regex` (`lib/app/bns/bns_regex.c`), of `str_tolower` and `str_delchar`
(`lib/app/bns/bns_util.c`) and of `atoi`, which the exporters apply to their columns.

A compiled pattern is what `regexec` answers for a string: nothing, or a span of the string for the
whole match and for each group (`Regex`). `filter_regex` copies them in turn to the static buffer
`matched`, so that the last one stays there; a span that does not fit is a fault. That `regexec`
fails for another reason than a mismatch is reported on `stderr` and otherwise the same.

C → Lean naming: `filter_regex` → `filterRegex`, `str_tolower` → `strTolower`, `str_delchar` →
`strDelchar`; their common loop is `copyLoop`. `atoi` of a number outside of the range of `int` is
a fault. `enterBlock` is the test of the id at the start of each round of a row loop.
-/

namespace SweetClib.Bns
open SweetClib.Lib

/-- A part of a string, by the offsets of its first character and of the one behind its last (C
`regmatch_t`). -/
structure Span (s : List UInt8) where
  so : Nat
  eo : Nat
  ordered : so ≤ eo
  inside : eo ≤ s.length

/-- The characters of a span. -/
def Span.chars {s : List UInt8} (m : Span s) : List UInt8 := (s.drop m.so).take (m.eo - m.so)

/-- A compiled pattern (C `regex_t`): the number of its groups (C `re_nsub`), for which `pm` has
room, and what `regexec` answers. -/
structure Regex where
  nsub : Nat
  few : nsub < 10
  exec : (src : List UInt8) → Option (Fin (nsub + 1) → Span src)

/-- The size of the buffer `matched`. -/
def MATCHED_SIZE : Nat := 1024

/-- The text of the last group of a match, or the null pointer (C `filter_regex`). -/
def filterRegex (reg : Regex) (src : List UInt8) : Option (Option (List UInt8)) :=
  match reg.exec src with
  | none => some none
  | some pm =>
    -- each copy has its terminator
    if ∀ i, (pm i).chars.length < MATCHED_SIZE then some (some (pm (Fin.last reg.nsub)).chars)
    else none

/-- What a pattern captures in a string. -/
def Regex.captured (reg : Regex) (src : List UInt8) : Option (List UInt8) :=
  (reg.exec src).map fun pm => (pm (Fin.last reg.nsub)).chars

/-- The spans of a match fit the buffer. -/
def Regex.Fits (reg : Regex) (src : List UInt8) : Prop :=
  ∀ pm, reg.exec src = some pm → ∀ i, (pm i).chars.length < MATCHED_SIZE

section Captured

variable {reg : Regex} {src t : List UInt8}

/-- A match is a part of the text. -/
lemma Span.sublist (m : Span src) : m.chars.Sublist src :=
  (List.take_sublist _ _).trans (List.drop_sublist _ _)

/-- A match that fits is copied in full. -/
lemma filterRegex_eq (fits : reg.Fits src) : filterRegex reg src = some (reg.captured src) := by
  rw [filterRegex, Regex.captured]
  cases h : reg.exec src with
  | none => rfl
  | some pm => exact if_pos (fits pm h)

/-- A match that does not fit the buffer is a fault. -/
lemma fits_of_filterRegex {m : Option (List UInt8)} (e : filterRegex reg src = some m) :
    reg.Fits src := by
  intro pm found
  rw [filterRegex, found] at e
  exact (Option.ite_none_right_eq_some.mp e).1

/-- A match of a string that fits the buffer fits it. -/
lemma Regex.fits_of_length (short : src.length < MATCHED_SIZE) : reg.Fits src :=
  fun pm _ i => Nat.lt_of_le_of_lt (pm i).sublist.length_le short

/-- What is captured is a part of the string. -/
lemma Regex.captured_sublist (h : reg.captured src = some t) : t.Sublist src := by
  obtain ⟨pm, _, rfl⟩ := Option.map_eq_some_iff.mp h
  exact (pm _).sublist

end Captured

/-- The first group is one of ten. -/
lemma Regex.one_group : 1 < 10 := by decide

/-- A pattern for a fixed text at the start of a string, with a part of the text as its group. -/
def Regex.literal (p : List UInt8) (so eo : Nat) (ordered : so ≤ eo) (inside : eo ≤ p.length) :
    Regex where
  nsub := 1
  few := one_group
  exec src :=
    if start : p <+: src then
      some fun i =>
        if i.val = 0 then ⟨0, p.length, Nat.zero_le _, start.length_le⟩
        else ⟨so, eo, ordered, inside.trans start.length_le⟩
    else none

/-- The loop of `str_tolower` and `str_delchar`: a character is converted by `f` or left out, and
`p` is the index of the next character of `res`. -/
def copyLoop (f : UInt8 → Option UInt8) : List UInt8 → Buf → Nat → Option Buf
  | [], res, _ => some res
  | c :: s1, res, p =>
    match f c with
    | none => copyLoop f s1 res p
    | some c' => (res.put p c').bind fun res => copyLoop f s1 res (p + 1)

/-- A letter of the C locale in lower case (C `tolower`). -/
def tolower (c : UInt8) : UInt8 := if 65 ≤ c ∧ c ≤ 90 then c + 32 else c

/-- A string in lower case, in a static buffer (C `str_tolower`). -/
def strTolower (s1 : List UInt8) : Option (List UInt8) :=
  (copyLoop (fun c => some (tolower c)) s1 (List.replicate RES_SIZE 0) 0).bind Buf.str

/-- A string without the first character of another one, in a static buffer (C `str_delchar`). -/
def strDelchar (s1 s2 : List UInt8) : Option (List UInt8) :=
  (copyLoop (fun c => if charAt s2 0 = some c then none else some c) s1
    (List.replicate RES_SIZE 0) 0).bind Buf.str

section Copy

variable {f : UInt8 → Option UInt8} {s : List UInt8} {w r : Buf}

/-- The loop writes the characters that are left to the front of the buffer. -/
lemma copyLoop_eq (room : (s.filterMap f).length ≤ r.length) :
    copyLoop f s (w ++ r) w.length =
      some (w ++ s.filterMap f ++ r.drop (s.filterMap f).length) := by
  induction s generalizing w r with
  | nil => simp [copyLoop]
  | cons c s ih =>
    rw [copyLoop]
    cases h : f c with
    | none =>
      rw [List.filterMap_cons_none h] at room ⊢
      exact ih room
    | some c' =>
      rw [List.filterMap_cons_some h] at room ⊢
      cases r with
      | nil => cases room
      | cons x r =>
        have := ih (w := w ++ [c']) (Nat.le_of_succ_le_succ room)
        simp only [Buf.put_append]
        simpa using this

/-- The loop copies a text that the buffer has room for. -/
lemma str_copyLoop (plain : 0 ∉ s.filterMap f) (short : (s.filterMap f).length < RES_SIZE) :
    (copyLoop f s (List.replicate RES_SIZE 0) 0).bind Buf.str = some (s.filterMap f) := by
  have loop := copyLoop_eq (f := f) (s := s) (w := []) (r := List.replicate RES_SIZE 0)
    (by rw [List.length_replicate]; exact Nat.le_of_lt short)
  rw [List.nil_append, List.nil_append, List.length_nil] at loop
  rw [loop, Option.bind_some, str_res plain (Nat.le_of_lt short), if_pos short]

/-- A character does not become NUL. -/
lemma tolower_ne {c : UInt8} (ne : c ≠ 0) : tolower c ≠ 0 := by
  rw [tolower]
  split
  · rename_i letter
    obtain ⟨low, high⟩ := letter
    rw [UInt8.le_iff_toNat_le] at low high
    intro e
    have := congrArg UInt8.toNat e
    simp only [UInt8.toNat_add, UInt8.reduceToNat] at this low high
    omega
  · exact ne

/-- `str_tolower`, for a text that the buffer has room for. -/
lemma strTolower_eq (plain : 0 ∉ s) (short : s.length < RES_SIZE) :
    strTolower s = some (s.map tolower) := by
  have lower : s.filterMap (fun c => some (tolower c)) = s.map tolower := by
    rw [List.filterMap_eq_map']
  have zero : 0 ∉ s.map tolower := by
    intro mem
    obtain ⟨c, mem, e⟩ := List.mem_map.mp mem
    exact tolower_ne (fun z => plain (by rw [← z]; exact mem)) e
  rw [← lower] at zero ⊢
  exact str_copyLoop zero (by rw [lower, List.length_map]; exact short)

/-- `str_delchar`, for a text that the buffer has room for. -/
lemma strDelchar_eq (plain : 0 ∉ s) (short : s.length < RES_SIZE) (d : UInt8) (ds : List UInt8) :
    strDelchar s (d :: ds) = some (s.filter (· ≠ d)) := by
  have kept : s.filterMap (fun c => if charAt (d :: ds) 0 = some c then none else some c) =
      s.filter (· ≠ d) := by
    rw [← List.filterMap_eq_filter]
    congr 1
    funext c
    by_cases same : c = d
    · simp [same, Option.guard]
    · simp [same, Ne.symm same, Option.guard]
  have part := List.filter_sublist (p := (· ≠ d)) (l := s)
  rw [← kept] at part ⊢
  exact str_copyLoop (fun mem => plain (part.subset mem)) (Nat.lt_of_le_of_lt part.length_le short)

end Copy

/-- The value of the digits at the start of a string, behind those of `n`. -/
def atoiDigits : List UInt8 → Nat → Nat
  | [], n => n
  | c :: s, n => if isDigit c then atoiDigits s (10 * n + (c.toNat - 48)) else n

/-- The integers of the C type `int`. -/
def IsInt (z : Int) : Prop := -2 ^ 31 ≤ z ∧ z < 2 ^ 31

instance (z : Int) : Decidable (IsInt z) := inferInstanceAs (Decidable (_ ∧ _))

/-- The number at the start of a string, behind white space (C `atoi`). -/
def atoi (s : List UInt8) : Option Int :=
  let z : Int :=
    match s.dropWhile isspace with
    | [] => 0
    | c :: s =>
      if c = 45 then -atoiDigits s 0 else if c = 43 then atoiDigits s 0 else atoiDigits (c :: s) 0
  if IsInt z then some z else none

/-- The size of a column. -/
def TITLE_BUF : Nat := 8192

/-- Whether the row is exported, after its column `n`: its id is in the range (C `block`). -/
def enterBlock (first last : Int) (n : Nat) (title : List UInt8) (block : Bool) : Option Bool :=
  if n = 0 then (atoi title).map fun id => if first ≤ id ∧ id ≤ last then true
  else block else some block

section Block

variable {first last id : Int} {n : Nat} {title : List UInt8} {block : Bool}

/-- A row whose id is in the range is exported. -/
lemma enterBlock_first (inRange : atoi title = some id ∧ first ≤ id ∧ id ≤ last) :
    enterBlock first last 0 title block = some true := by
  rw [enterBlock, if_pos rfl, inRange.1, Option.map_some, if_pos inRange.2]

/-- The later columns do not change that. -/
lemma enterBlock_later (ne : n ≠ 0) : enterBlock first last n title block = some block := if_neg ne

end Block

end SweetClib.Bns
