import Mathlib.Data.List.TakeWhile
import SweetClib.Lib.Print

/-!
# JSON texts

The grammar in two levels. A text is cut into tokens by an automaton that reads it byte by byte
(`lexStep`, `lexRun`); numbers and strings are kept as they are spelled, and the encoding of the
characters inside of a string is not looked at. The tokens follow the grammar `Derives`: `Derives
part ts v us` says that the tokens `ts` start with the part of a text for the value `v` and that
`us` is what follows it. The elements of an array and the members of an object are derived with the
bracket that closes them.

A text that is printed piece by piece is judged piece by piece. `Spells` says that a text is that
of a value and ends with its last byte, and a `ValueText` spells some value; a `MemberText` is the
text of any number of members, each with the comma behind it. They are preserved by what a printer
does (`spells_array`, `spells_object`, `memberText_append`, `memberText_str`, ...), and
`wellFormedObject_of` puts an object together. That a text is not well-formed is computed by the
parser `parse`, which finds every derivation (`parse_of_derives`), so that there is at most one
(`Derives.unique`); or it is seen from a string without a key behind some members
(`not_wellFormedObject_bare`).
-/

namespace SweetClib.Lib

/-- The values. -/
inductive Json where
  | null
  | bool (b : Bool)
  | num (chars : List UInt8)
  | str (chars : List UInt8)
  | arr (elements : List Json)
  | obj (members : List (List UInt8 × Json))

instance : Inhabited Json := ⟨.null⟩

/-- The tokens. -/
inductive Token where
  | lbrace
  | rbrace
  | lbracket
  | rbracket
  | colon
  | comma
  | null
  | bool (b : Bool)
  | num (chars : List UInt8)
  | str (chars : List UInt8)

/-- White space between tokens. -/
def isBlank (c : UInt8) : Bool := c = 32 ∨ c = 9 ∨ c = 10 ∨ c = 13

/-- The tokens of one character. -/
def structural (c : UInt8) : Option Token :=
  if c = 123 then some .lbrace
  else if c = 125 then some .rbrace
  else if c = 91 then some .lbracket
  else if c = 93 then some .rbracket
  else if c = 58 then some .colon
  else if c = 44 then some .comma
  else none

def isDigit (c : UInt8) : Bool := 48 ≤ c ∧ c ≤ 57

def isHex (c : UInt8) : Bool := isDigit c ∨ (65 ≤ c ∧ c ≤ 70) ∨ (97 ≤ c ∧ c ≤ 102)

/-- The exponent of a number, or nothing. -/
def isExponent : List UInt8 → Bool
  | [] => true
  | e :: s =>
    let digits := match s with
      | c :: s => if c = 43 ∨ c = 45 then s else c :: s
      | [] => []
    decide (e = 101 ∨ e = 69) && !digits.isEmpty && digits.all isDigit

/-- The fraction and the exponent of a number, or nothing. -/
def isFraction : List UInt8 → Bool
  | 46 :: c :: s => isDigit c && isExponent (s.dropWhile isDigit)
  | s => isExponent s

/-- The part of a number behind its sign. -/
def isUnsigned : List UInt8 → Bool
  | [] => false
  | c :: s => if c = 48 then isFraction s else isDigit c && isFraction (s.dropWhile isDigit)

/-- The numbers. -/
def isNumber : List UInt8 → Bool
  | [] => false
  | c :: s => if c = 45 then isUnsigned s else isUnsigned (c :: s)

/-- The token of a word, if it is one. -/
def wordToken (w : List UInt8) : Option Token :=
  if isNumber w then some (.num w)
  else if w = text "null" then some .null
  else if w = text "true" then some (.bool true)
  else if w = text "false" then some (.bool false)
  else none

/-- Where the automaton is: between tokens, in a string, behind a backslash, before so many
hexadecimal digits, or in a word; and what it has read of the token. -/
inductive LexSt where
  | out
  | str (chars : List UInt8)
  | esc (chars : List UInt8)
  | hex (n : Nat) (chars : List UInt8)
  | word (chars : List UInt8)

/-- One character: the tokens that end with it. A word ends where a blank or a token of one
character follows. -/
def lexStep : LexSt → UInt8 → Option (LexSt × List Token)
  | .out, c =>
    if isBlank c then some (.out, [])
    else if c = 34 then some (.str [], [])
    else
      match structural c with
      | some t => some (.out, [t])
      | none => some (.word [c], [])
  | .str s, c =>
    if c = 34 then some (.out, [.str s])
    else if c = 92 then some (.esc (s ++ [c]), [])
    else if c < 32 then none
    else some (.str (s ++ [c]), [])
  | .esc s, c =>
    if c = 117 then some (.hex 4 (s ++ [c]), [])
    else if c ∈ text "\"\\/bfnrt" then some (.str (s ++ [c]), [])
    else none
  | .hex n s, c =>
    if isHex c then some (if n = 1 then .str (s ++ [c]) else .hex (n - 1) (s ++ [c]), []) else none
  | .word w, c =>
    if isBlank c then (wordToken w).map fun t => (.out, [t])
    else if c = 34 then none
    else
      match structural c with
      | some t => (wordToken w).map fun u => (.out, [u, t])
      | none => some (.word (w ++ [c]), [])

/-- The tokens of a part of a text. -/
def lexRun : LexSt → List UInt8 → Option (LexSt × List Token)
  | st, [] => some (st, [])
  | st, c :: s =>
    match lexStep st c with
    | none => none
    | some (st, ts) => (lexRun st s).map fun r => (r.1, ts ++ r.2)

/-- The tokens of a text. -/
def lex (s : List UInt8) : Option (List Token) :=
  match lexRun .out s with
  | some (.out, ts) => some ts
  | some (.word w, ts) => (wordToken w).map fun t => ts ++ [t]
  | _ => none

/-- The parts of a text. -/
inductive Part where
  | value
  | elements
  | members

/-- The grammar. -/
inductive Derives : Part → List Token → Json → List Token → Prop where
  | null {us} :
    Derives .value (.null :: us) .null us
  | bool {b us} :
    Derives .value (.bool b :: us) (.bool b) us
  | num {n us} :
    Derives .value (.num n :: us) (.num n) us
  | str {s us} :
    Derives .value (.str s :: us) (.str s) us
  | emptyArr {us} :
    Derives .value (.lbracket :: .rbracket :: us) (.arr []) us
  | arr {ts v us} :
    Derives .elements ts v us →
    Derives .value (.lbracket :: ts) v us
  | emptyObj {us} :
    Derives .value (.lbrace :: .rbrace :: us) (.obj []) us
  | obj {ts v us} :
    Derives .members ts v us →
    Derives .value (.lbrace :: ts) v us
  | lastElement {ts v us} :
    Derives .value ts v (.rbracket :: us) →
    Derives .elements ts (.arr [v]) us
  | element {ts v ts' vs us} :
    Derives .value ts v (.comma :: ts') →
    Derives .elements ts' (.arr vs) us →
    Derives .elements ts (.arr (v :: vs)) us
  | lastMember {k ts v us} :
    Derives .value ts v (.rbrace :: us) →
    Derives .members (.str k :: .colon :: ts) (.obj [(k, v)]) us
  | member {k ts v ts' ms us} :
    Derives .value ts v (.comma :: ts') →
    Derives .members ts' (.obj ms) us →
    Derives .members (.str k :: .colon :: ts) (.obj ((k, v) :: ms)) us

/-- The text of the value and nothing else. -/
def Parses (s : List UInt8) (v : Json) : Prop := ∃ ts, lex s = some ts ∧ Derives .value ts v []

/-- The text of an object and nothing else. -/
def WellFormedObject (s : List UInt8) : Prop :=
  ∃ ts ms, lex s = some ts ∧ Derives .value ts (.obj ms) []

/-- Parse a part of a text; the first argument bounds the recursion. -/
def parse : Nat → Part → List Token → Option (Json × List Token)
  | 0, _, _ => none
  | n + 1, .value, ts =>
    match ts with
    | .null :: us => some (.null, us)
    | .bool b :: us => some (.bool b, us)
    | .num n :: us => some (.num n, us)
    | .str s :: us => some (.str s, us)
    | .lbracket :: .rbracket :: us => some (.arr [], us)
    | .lbracket :: ts => parse n .elements ts
    | .lbrace :: .rbrace :: us => some (.obj [], us)
    | .lbrace :: ts => parse n .members ts
    | _ => none
  | n + 1, .elements, ts =>
    match parse n .value ts with
    | some (v, .rbracket :: us) => some (.arr [v], us)
    | some (v, .comma :: ts') =>
      match parse n .elements ts' with
      | some (.arr vs, us) => some (.arr (v :: vs), us)
      | _ => none
    | _ => none
  | n + 1, .members, ts =>
    match ts with
    | .str k :: .colon :: ts =>
      match parse n .value ts with
      | some (v, .rbrace :: us) => some (.obj [(k, v)], us)
      | some (v, .comma :: ts') =>
        match parse n .members ts' with
        | some (.obj ms, us) => some (.obj ((k, v) :: ms), us)
        | _ => none
      | _ => none
    | _ => none

/-- Every token is read once, and at most one call is made without reading one. -/
def Part.calls : Part → Nat
  | .value => 0
  | .elements => 1
  | .members => 1

lemma parse_of_derives {part : Part} {ts us : List Token} {v : Json} (d : Derives part ts v us) :
    us.length < ts.length ∧
      ∀ n, 2 * (ts.length - us.length) + part.calls ≤ n → parse n part ts = some (v, us) := by
  induction d with
  | null | bool | num | str =>
    refine ⟨by simp, fun n enough => ?_⟩
    obtain ⟨m, rfl⟩ : ∃ m, n = m + 1 := ⟨n - 1, by simp at enough; omega⟩
    rw [parse]
  | emptyArr | emptyObj =>
    refine ⟨by simp, fun n enough => ?_⟩
    obtain ⟨m, rfl⟩ : ∃ m, n = m + 1 := ⟨n - 1, by simp at enough; omega⟩
    rw [parse]
  | @arr ts v us d ih =>
    obtain ⟨shorter, found⟩ := ih
    refine ⟨by simp; omega, fun n enough => ?_⟩
    simp only [List.length_cons, Part.calls] at enough found
    obtain ⟨m, rfl⟩ : ∃ m, n = m + 1 := ⟨n - 1, by omega⟩
    rw [parse]
    · exact found m (by omega)
    · -- the elements do not start with a closing bracket
      rintro us rfl
      cases d with
      | lastElement d => cases d
      | element d => cases d
  | @obj ts v us d ih =>
    obtain ⟨shorter, found⟩ := ih
    refine ⟨by simp; omega, fun n enough => ?_⟩
    simp only [List.length_cons, Part.calls] at enough found
    obtain ⟨m, rfl⟩ : ∃ m, n = m + 1 := ⟨n - 1, by omega⟩
    rw [parse]
    · exact found m (by omega)
    · rintro us rfl
      cases d
  | @lastElement ts v us d ih =>
    obtain ⟨shorter, found⟩ := ih
    simp only [List.length_cons, Part.calls] at shorter found ⊢
    refine ⟨by omega, fun n enough => ?_⟩
    obtain ⟨m, rfl⟩ : ∃ m, n = m + 1 := ⟨n - 1, by omega⟩
    rw [parse, found m (by omega)]
  | @element ts v ts' vs us d d' ih ih' =>
    obtain ⟨shorter, found⟩ := ih
    obtain ⟨shorter', found'⟩ := ih'
    simp only [List.length_cons, Part.calls] at shorter found found' ⊢
    refine ⟨by omega, fun n enough => ?_⟩
    obtain ⟨m, rfl⟩ : ∃ m, n = m + 1 := ⟨n - 1, by omega⟩
    rw [parse, found m (by omega)]
    simp only [found' m (by omega)]
  | @lastMember k ts v us d ih =>
    obtain ⟨shorter, found⟩ := ih
    simp only [List.length_cons, Part.calls] at shorter found ⊢
    refine ⟨by omega, fun n enough => ?_⟩
    obtain ⟨m, rfl⟩ : ∃ m, n = m + 1 := ⟨n - 1, by omega⟩
    rw [parse, found m (by omega)]
  | @member k ts v ts' ms us d d' ih ih' =>
    obtain ⟨shorter, found⟩ := ih
    obtain ⟨shorter', found'⟩ := ih'
    simp only [List.length_cons, Part.calls] at shorter found found' ⊢
    refine ⟨by omega, fun n enough => ?_⟩
    obtain ⟨m, rfl⟩ : ∃ m, n = m + 1 := ⟨n - 1, by omega⟩
    rw [parse, found m (by omega)]
    simp only [found' m (by omega)]

/-- Tokens start with a part of a text in one way at most. -/
lemma Derives.unique {part : Part} {ts us us' : List Token} {v v' : Json}
    (d : Derives part ts v us) (d' : Derives part ts v' us') : v = v' ∧ us = us' := by
  have found := (parse_of_derives d).2 (2 * ts.length + part.calls) (by omega)
  have found' := (parse_of_derives d').2 (2 * ts.length + part.calls) (by omega)
  cases found.symm.trans found'
  exact ⟨rfl, rfl⟩

/-- A text that is well-formed is parsed to its value. -/
lemma Parses.parse_eq {s : List UInt8} {v : Json} (h : Parses s v) :
    ((lex s).bind fun ts => parse (2 * ts.length) .value ts) = some (v, []) := by
  obtain ⟨ts, tokens, d⟩ := h
  rw [tokens, Option.bind_some]
  exact (parse_of_derives d).2 (2 * ts.length) (by simp [Part.calls])

/-- A text that the parser refuses is not well-formed. -/
lemma not_parses {s : List UInt8}
    (refused : ((lex s).bind fun ts => parse (2 * ts.length) .value ts).isSome = false) (v : Json) :
    ¬ Parses s v := by
  intro h
  rw [h.parse_eq] at refused
  cases refused

lemma not_wellFormedObject {s : List UInt8}
    (refused : ((lex s).bind fun ts => parse (2 * ts.length) .value ts).isSome = false) :
    ¬ WellFormedObject s := by
  rintro ⟨ts, ms, tokens, d⟩
  exact not_parses refused _ ⟨ts, tokens, d⟩

/-- Bytes that stand for themselves in a string. -/
def Plain (s : List UInt8) : Prop := ∀ c ∈ s, c ≠ 34 ∧ c ≠ 92 ∧ 32 ≤ c

instance (s : List UInt8) : Decidable (Plain s) := List.decidableBAll _ s

/-- The text of the value, which ends with its last byte. -/
def Spells (x : List UInt8) (v : Json) : Prop :=
  ∃ ts, lexRun .out x = some (.out, ts) ∧ ∀ us, Derives .value (ts ++ us) v us

/-- The text of a value that ends with its last byte. -/
def ValueText (x : List UInt8) : Prop := ∃ v, Spells x v

/-- The tokens of members of an object, each with a comma behind it. -/
inductive Members : List Token → List (List UInt8 × Json) → Prop where
  | nil :
    Members [] []
  | cons {k ts v us ms} :
    (∀ us, Derives .value (ts ++ us) v us) →
    Members us ms →
    Members (.str k :: .colon :: (ts ++ .comma :: us)) ((k, v) :: ms)

/-- The text of members of an object, each with a comma behind it. -/
def MemberText (a : List UInt8) : Prop := ∃ ts ms, lexRun .out a = some (.out, ts) ∧ Members ts ms

/-- A string in its quotes. -/
def quoted (s : List UInt8) : List UInt8 := 34 :: (s ++ [34])

/-- A member whose value is a number, with a comma behind it (C `"\"key\":%s,"`). -/
def numMember (key : String) (n : List UInt8) : List UInt8 := quoted (text key) ++ [58] ++ n ++ [44]

/-- A member whose value is a string, with a comma behind it (C `"\"key\":\"%s\","`). -/
def strMember (key : String) (s : List UInt8) :
    List UInt8 := quoted (text key) ++ [58] ++ quoted s ++ [44]

/-- An array of texts (C `"[%s,...]"`). -/
def arrayText (xs : List (List UInt8)) : List UInt8 := 91 :: (List.intercalate [44] xs ++ [93])

/-- An object of texts; a member is the text of its key and of its value. -/
def objectText (ms : List (List UInt8 × List UInt8)) : List UInt8 :=
  123 :: (List.intercalate [44] (ms.map fun m => m.1 ++ [58] ++ m.2) ++ [125])

section Lex

variable {st st' : LexSt} {a b s n : List UInt8} {ts us : List Token}

/-- The automaton reads a text part by part. -/
lemma lexRun_parts (st : LexSt) (a b : List UInt8) :
    lexRun st (a ++ b) =
      (lexRun st a).bind fun r => (lexRun r.1 b).map fun r' => (r'.1, r.2 ++ r'.2) := by
  induction a generalizing st with
  | nil => simp [lexRun]
  | cons c a ih =>
    rw [List.cons_append, lexRun, lexRun]
    cases lexStep st c with
    | none => rfl
    | some r =>
      simp only [ih, Option.map_bind, Option.bind_map, Function.comp_def, Option.map_map,
        List.append_assoc]

/-- The tokens of two parts of a text that follow each other. -/
lemma lexRun_append {st₁ : LexSt} (ha : lexRun st a = some (st₁, ts))
    (hb : lexRun st₁ b = some (st', us)) : lexRun st (a ++ b) = some (st', ts ++ us) := by
  rw [lexRun_parts, ha, Option.bind_some, hb, Option.map_some]

/-- The tokens of a text start with those of its start. -/
lemma lex_of_start (start : lexRun .out a = some (.out, ts)) (tokens : lex (a ++ b) = some us) :
    ∃ vs, us = ts ++ vs := by
  rw [lex, lexRun_parts, start, Option.bind_some] at tokens
  cases rest : lexRun .out b with
  | none =>
    rw [rest] at tokens
    cases tokens
  | some r =>
    obtain ⟨st, vs⟩ := r
    rw [rest, Option.map_some] at tokens
    cases st with
    | out =>
      cases tokens
      exact ⟨vs, rfl⟩
    | word w =>
      obtain ⟨t, _, rfl⟩ := Option.map_eq_some_iff.mp tokens
      exact ⟨vs ++ [t], List.append_assoc _ _ _⟩
    | str | esc | hex => cases tokens

lemma lexRun_plain (plain : Plain s) (acc : List UInt8) :
    lexRun (.str acc) s = some (.str (acc ++ s), []) := by
  induction s generalizing acc with
  | nil => simp [lexRun]
  | cons c s ih =>
    obtain ⟨⟨quote, slash, low⟩, rest⟩ := List.forall_mem_cons.mp plain
    have control : ¬ c < 32 := UInt8.not_lt.mpr low
    rw [lexRun, lexStep, if_neg quote, if_neg slash, if_neg control]
    simp only [ih rest, Option.map_some, List.append_assoc, List.singleton_append, List.append_nil]

/-- A string in its quotes is a token. -/
lemma lexRun_quoted (plain : Plain s) : lexRun .out (quoted s) = some (.out, [.str s]) := by
  have inside : lexRun (.str []) (s ++ [34]) = some (.out, [.str s]) :=
    lexRun_append (lexRun_plain plain []) rfl
  rw [quoted, lexRun]
  exact (congrArg (Option.map fun r => (r.1, [] ++ r.2)) inside :)

/-- Bytes that stand for themselves and neither end a word nor break it. -/
def wordByte (c : UInt8) : Bool :=
  decide (c ≠ 34 ∧ c ≠ 92 ∧ 32 ≤ c) && !isBlank c && (structural c).isNone

lemma lexRun_word (bytes : ∀ c ∈ s, wordByte c = true) (acc : List UInt8) :
    lexRun (.word acc) s = some (.word (acc ++ s), []) := by
  induction s generalizing acc with
  | nil => simp [lexRun]
  | cons c s ih =>
    obtain ⟨byte, rest⟩ := List.forall_mem_cons.mp bytes
    simp only [wordByte, Bool.and_eq_true, Bool.not_eq_true', decide_eq_true_eq,
      Option.isNone_iff_eq_none] at byte
    obtain ⟨⟨⟨quote, _⟩, blank⟩, other⟩ := byte
    rw [lexRun, lexStep, blank, if_neg (by decide), if_neg quote]
    simp only [other, ih rest, Option.map_some, List.append_assoc, List.singleton_append,
      List.append_nil]

/-- A digit is a byte of a word. -/
lemma wordByte_of_isDigit {c : UInt8} (d : isDigit c = true) : wordByte c = true := by
  simp only [isDigit, decide_eq_true_eq, UInt8.le_iff_toNat_le] at d
  have ne : ∀ x : UInt8, x.toNat < 48 ∨ 57 < x.toNat → c ≠ x := by
    rintro x outside rfl
    simp only [UInt8.reduceToNat] at d
    omega
  have low : 32 ≤ c := by
    rw [UInt8.le_iff_toNat_le]
    exact le_trans (by decide) d.1
  simp [wordByte, isBlank, structural, low, ne 32, ne 9, ne 10, ne 13, ne 34, ne 92, ne 123, ne 125,
    ne 91, ne 93, ne 58, ne 44]

/-- The bytes behind a run of digits are those of the whole, apart from digits. -/
lemma forall_mem_of_dropWhile (rest : ∀ c ∈ s.dropWhile isDigit, wordByte c = true) :
    ∀ c ∈ s, wordByte c = true := by
  intro c mem
  rw [← List.takeWhile_append_dropWhile (p := isDigit) (l := s)] at mem
  obtain mem | mem := List.mem_append.mp mem
  · exact wordByte_of_isDigit (List.mem_takeWhile_imp mem)
  · exact rest c mem

/-- An exponent consists of bytes of a word. -/
lemma wordByte_of_isExponent (e : isExponent s = true) : ∀ c ∈ s, wordByte c = true := by
  cases s with
  | nil => nofun
  | cons e₀ s =>
    simp only [isExponent, Bool.and_eq_true, decide_eq_true_eq] at e
    obtain ⟨⟨letter, _⟩, digits⟩ := e
    refine List.forall_mem_cons.mpr ⟨?_, ?_⟩
    · obtain rfl | rfl := letter <;> rfl
    · cases s with
      | nil => nofun
      | cons c s =>
        simp only at digits
        split at digits
        · rename_i sign
          refine List.forall_mem_cons.mpr
            ⟨?_, fun d mem => wordByte_of_isDigit (List.all_eq_true.mp digits d mem)⟩
          obtain rfl | rfl := sign <;> rfl
        · exact fun d mem => wordByte_of_isDigit (List.all_eq_true.mp digits d mem)

lemma wordByte_of_isFraction (e : isFraction s = true) : ∀ c ∈ s, wordByte c = true := by
  unfold isFraction at e
  split at e
  · rename_i c s
    simp only [Bool.and_eq_true] at e
    refine List.forall_mem_cons.mpr ⟨rfl, List.forall_mem_cons.mpr ⟨wordByte_of_isDigit e.1, ?_⟩⟩
    exact forall_mem_of_dropWhile (wordByte_of_isExponent e.2)
  · exact wordByte_of_isExponent e

/-- So does a number without its sign. -/
lemma wordByte_of_isUnsigned (e : isUnsigned s = true) : ∀ c ∈ s, wordByte c = true := by
  cases s with
  | nil => nofun
  | cons c s =>
    rw [isUnsigned] at e
    split at e
    · rename_i zero
      subst zero
      exact List.forall_mem_cons.mpr ⟨rfl, wordByte_of_isFraction e⟩
    · rw [Bool.and_eq_true] at e
      refine List.forall_mem_cons.mpr ⟨wordByte_of_isDigit e.1, ?_⟩
      exact forall_mem_of_dropWhile (wordByte_of_isFraction e.2)

/-- A number is not empty and consists of bytes of a word. -/
lemma wordByte_of_isNumber (e : isNumber n = true) : n ≠ [] ∧ ∀ c ∈ n, wordByte c = true := by
  cases n with
  | nil => cases e
  | cons c s =>
    refine ⟨List.cons_ne_nil _ _, ?_⟩
    rw [isNumber] at e
    split at e
    · rename_i minus
      subst minus
      exact List.forall_mem_cons.mpr ⟨rfl, wordByte_of_isUnsigned e⟩
    · exact wordByte_of_isUnsigned e

/-- A number can stand in a string. -/
lemma plain_of_isNumber (e : isNumber n = true) : Plain n := by
  intro c mem
  have byte := (wordByte_of_isNumber e).2 c mem
  simp only [wordByte, Bool.and_eq_true, decide_eq_true_eq] at byte
  exact byte.1.1

/-- A number is a token that ends where a comma follows. -/
lemma lexRun_number (e : isNumber n = true) :
    lexRun .out (n ++ [44]) = some (.out, [.num n, .comma]) := by
  obtain ⟨ne, bytes⟩ := wordByte_of_isNumber e
  obtain ⟨c, s, rfl⟩ := List.exists_cons_of_ne_nil ne
  obtain ⟨byte, rest⟩ := List.forall_mem_cons.mp bytes
  simp only [wordByte, Bool.and_eq_true, Bool.not_eq_true', decide_eq_true_eq,
    Option.isNone_iff_eq_none] at byte
  obtain ⟨⟨⟨quote, _⟩, blank⟩, other⟩ := byte
  have start : lexStep .out c = some (.word [c], []) := by
    rw [lexStep, blank, if_neg (by decide), if_neg quote, other]
  have stop : lexRun (.word (c :: s)) [44] = some (.out, [.num (c :: s), .comma]) := by
    simp [lexRun, lexStep, isBlank, structural, wordToken, e]
  have inside : lexRun (.word [c]) (s ++ [44]) = some (.out, [.num (c :: s), .comma]) :=
    lexRun_append (lexRun_word rest [c]) stop
  rw [List.cons_append, lexRun, start]
  exact (congrArg (Option.map fun r => (r.1, [] ++ r.2)) inside :)

end Lex

/-- The digits behind the first one do not matter to what a number is. -/
lemma isUnsigned_digits {c : UInt8} {s : List UInt8} (first : isDigit c = true) (nonzero : c ≠ 48)
    (digits : ∀ d ∈ s, isDigit d = true) : isUnsigned (c :: s) = true := by
  have none : s.dropWhile isDigit = [] := List.dropWhile_eq_nil_iff.mpr digits
  rw [isUnsigned, if_neg nonzero, first, none]
  rfl

lemma isDigit_digit : ∀ n < 10, isDigit (digit n) = true ∧ (digit n = 48 → n = 0) := by decide

/-- A natural number in decimal consists of digits. -/
lemma isDigit_natText (n : Nat) : ∀ c ∈ natText n, isDigit c = true := by
  rw [natText]
  split
  · simp [isDigit]
  · intro c mem
    obtain ⟨d, mem', rfl⟩ := List.mem_map.mp (List.mem_reverse.mp mem)
    exact (isDigit_digit d (Nat.digits_lt_base (by decide) mem')).1

/-- A natural number in decimal is a number. -/
lemma isUnsigned_natText (n : Nat) : isUnsigned (natText n) = true := by
  by_cases zero : n = 0
  · subst zero
    rfl
  · have first := Nat.getLast_digit_ne_zero 10 zero
    have digits := isDigit_natText n
    -- the first digit is the last one of the list of the digits
    obtain empty | ⟨ds, d, e⟩ := List.eq_nil_or_concat (Nat.digits 10 n)
    · exact absurd empty (Nat.digits_ne_nil_iff_ne_zero.mpr zero)
    · rw [List.concat_eq_append] at e
      have lt : d < 10 := Nat.digits_lt_base (by decide) (show d ∈ Nat.digits 10 n by simp [e])
      simp only [e, List.getLast_append_singleton] at first
      rw [natText, if_neg zero, e, List.map_append, List.reverse_append] at digits ⊢
      obtain ⟨isd, rest⟩ := List.forall_mem_cons.mp digits
      exact isUnsigned_digits isd (fun z => first ((isDigit_digit d lt).2 z)) rest

/-- An integer in decimal is a number. -/
lemma isNumber_intText (z : Int) : isNumber (intText z) = true := by
  have unsigned := isUnsigned_natText z.natAbs
  rw [intText]
  split
  · rw [isNumber, if_pos rfl]
    exact unsigned
  · obtain ⟨c, s, e⟩ : ∃ c s, natText z.natAbs = c :: s := by
      cases h : natText z.natAbs with
      | nil => simp [h, isUnsigned] at unsigned
      | cons c s => exact ⟨c, s, rfl⟩
    rw [e] at unsigned ⊢
    -- a number without a sign does not start with a minus
    have plus : c ≠ 45 := by
      rintro rfl
      simp [isUnsigned, isDigit] at unsigned
    rw [isNumber, if_neg plus]
    exact unsigned

section Texts

variable {a b x s n : List UInt8} (key : String)

/-- Tokens of members can be put together. -/
lemma Members.append {ts us : List Token} {ms ns : List (List UInt8 × Json)} (h : Members ts ms)
    (h' : Members us ns) : Members (ts ++ us) (ms ++ ns) := by
  induction h with
  | nil => exact h'
  | cons value _ ih =>
    simp only [List.cons_append, List.append_assoc]
    exact .cons value ih

/-- Members in front of others are members of the same object. -/
lemma Members.derives {ts us vs : List Token} {ms ns : List (List UInt8 × Json)} (h : Members ts ms)
    (d : Derives .members us (.obj ns) vs) : Derives .members (ts ++ us) (.obj (ms ++ ns)) vs := by
  induction h with
  | nil => exact d
  | cons value _ ih =>
    simp only [List.cons_append, List.append_assoc]
    exact .member (value _) ih

/-- What stands behind members has to be members, too. -/
lemma Members.rest {ts us vs : List Token} {ms : List (List UInt8 × Json)} {v : Json}
    (h : Members ts ms) (d : Derives .members (ts ++ us) v vs) :
    ∃ v', Derives .members us v' vs := by
  induction h generalizing v with
  | nil => exact ⟨v, d⟩
  | cons value _ ih =>
    simp only [List.cons_append, List.append_assoc] at d
    -- the value ends where the comma stands
    cases d with
    | lastMember d => cases (d.unique (value _)).2
    | member d rest =>
      cases (d.unique (value _)).2
      exact ih rest

/-- Texts of members can be put together. -/
lemma memberText_append (ha : MemberText a) (hb : MemberText b) : MemberText (a ++ b) := by
  obtain ⟨ts, ms, lexa, ma⟩ := ha
  obtain ⟨us, ns, lexb, mb⟩ := hb
  exact ⟨ts ++ us, ms ++ ns, lexRun_append lexa lexb, ma.append mb⟩

lemma memberText_nil : MemberText [] := ⟨[], [], rfl, .nil⟩

/-- A key, the colon and the text behind it. -/
lemma lexRun_key {ts : List Token} (plain : Plain s) (h : lexRun .out x = some (.out, ts)) :
    lexRun .out (quoted s ++ [58] ++ x) = some (.out, .str s :: .colon :: ts) :=
  lexRun_append
    (lexRun_append (lexRun_quoted plain) (show lexRun .out [58] = some (.out, [.colon]) from rfl)) h

/-- A member whose value is a number. -/
lemma memberText_num (plain : Plain (text key)) (num : isNumber n = true) :
    MemberText (numMember key n) := by
  refine ⟨[.str (text key), .colon, .num n, .comma], [(text key, .num n)], ?_, ?_⟩
  · rw [numMember, List.append_assoc]
    exact lexRun_key plain (lexRun_number num)
  · exact .cons (show ∀ us, Derives .value ([.num n] ++ us) (.num n) us from fun _ => .num) .nil

/-- A member whose value ends with its last byte. -/
lemma memberText_value (plain : Plain (text key)) (value : ValueText x) :
    MemberText (quoted (text key) ++ [58] ++ x ++ [44]) := by
  obtain ⟨v, ts, lexx, dx⟩ := value
  refine ⟨.str (text key) :: .colon :: (ts ++ [.comma]), [(text key, v)], ?_, .cons dx .nil⟩
  rw [List.append_assoc]
  exact lexRun_key plain
    (lexRun_append lexx (show lexRun .out [44] = some (.out, [.comma]) from rfl))

lemma spells_quoted (plain : Plain s) :
    Spells (quoted s) (.str s) := ⟨[.str s], lexRun_quoted plain, fun _ => .str⟩

lemma valueText_quoted (plain : Plain s) : ValueText (quoted s) := ⟨_, spells_quoted plain⟩

/-- A member whose value is a string. -/
lemma memberText_str (plain : Plain (text key)) (value : Plain s) : MemberText (strMember key s) :=
  memberText_value key plain (valueText_quoted value)

lemma lexRun_intercalate {ι : Type*} {l : List ι} {x : ι → List UInt8} {ts : ι → List Token}
    (each : ∀ i ∈ l, lexRun .out (x i) = some (.out, ts i)) :
    lexRun .out (List.intercalate [44] (l.map x)) =
      some (.out, List.intercalate [.comma] (l.map ts)) := by
  induction l with
  | nil => rfl
  | cons i l ih =>
    obtain ⟨first, rest⟩ := List.forall_mem_cons.mp each
    by_cases last : l = []
    · subst last
      simpa using first
    · have comma : lexRun .out [44] = some (.out, [.comma]) := rfl
      rw [List.map_cons, List.map_cons, List.intercalate_cons_of_ne_nil (by simpa using last),
        List.intercalate_cons_of_ne_nil (by simpa using last)]
      exact lexRun_append (lexRun_append first comma) (ih rest)

/-- Elements with commas between them and the bracket behind the last one. -/
lemma derives_elements {ι : Type*} {l : List ι} {ts : ι → List Token} {v : ι → Json}
    (each : ∀ i ∈ l, ∀ us, Derives .value (ts i ++ us) (v i) us) (ne : l ≠ []) (us : List Token) :
    Derives .elements (List.intercalate [.comma] (l.map ts) ++ .rbracket :: us)
      (.arr (l.map v)) us := by
  induction l with
  | nil => exact absurd rfl ne
  | cons i l ih =>
    obtain ⟨first, rest⟩ := List.forall_mem_cons.mp each
    by_cases last : l = []
    · subst last
      rw [List.map_singleton, List.intercalate_singleton]
      exact .lastElement (first _)
    · rw [List.map_cons, List.intercalate_cons_of_ne_nil (by simpa using last), List.append_assoc,
        List.append_assoc]
      exact .element (first _) (ih rest last)

/-- Members with commas between them and the brace behind the last one. -/
lemma derives_members {ι : Type*} {l : List ι} {k : ι → List UInt8} {ts : ι → List Token}
    {v : ι → Json} (each : ∀ i ∈ l, ∀ us, Derives .value (ts i ++ us) (v i) us) (ne : l ≠ [])
    (us : List Token) :
    Derives .members
      (List.intercalate [.comma] (l.map fun i => .str (k i) :: .colon :: ts i) ++ .rbrace :: us)
      (.obj (l.map fun i => (k i, v i))) us := by
  induction l with
  | nil => exact absurd rfl ne
  | cons i l ih =>
    obtain ⟨first, rest⟩ := List.forall_mem_cons.mp each
    by_cases last : l = []
    · subst last
      rw [List.map_singleton, List.intercalate_singleton]
      exact .lastMember (first _)
    · rw [List.map_cons, List.intercalate_cons_of_ne_nil (by simpa using last), List.append_assoc,
        List.append_assoc]
      exact .member (first _) (ih rest last)

lemma spells_array {ι : Type*} {l : List ι} {x : ι → List UInt8} {v : ι → Json}
    (each : ∀ i ∈ l, Spells (x i) (v i)) :
    Spells (arrayText (l.map x)) (.arr (l.map v)) := by
  by_cases empty : l = []
  · subst empty
    exact ⟨[.lbracket, .rbracket], rfl, fun _ => .emptyArr⟩
  · choose! ts lexed derived using each
    have bracket : lexRun .out [91] = some (.out, [.lbracket]) := rfl
    have close : lexRun .out [93] = some (.out, [.rbracket]) := rfl
    refine ⟨_, lexRun_append bracket (lexRun_append (lexRun_intercalate lexed) close), fun us => ?_⟩
    rw [List.singleton_append, List.cons_append, List.append_assoc]
    exact .arr (derives_elements derived empty us)

lemma spells_object {ι : Type*} {l : List ι} {k x : ι → List UInt8} {v : ι → Json}
    (plain : ∀ i ∈ l, Plain (k i)) (each : ∀ i ∈ l, Spells (x i) (v i)) :
    Spells (objectText (l.map fun i => (quoted (k i), x i)))
      (.obj (l.map fun i => (k i, v i))) := by
  by_cases empty : l = []
  · subst empty
    exact ⟨[.lbrace, .rbrace], rfl, fun _ => .emptyObj⟩
  · choose! ts lexed derived using each
    have brace : lexRun .out [123] = some (.out, [.lbrace]) := rfl
    have close : lexRun .out [125] = some (.out, [.rbrace]) := rfl
    have members :
        ∀ i ∈ l,
        lexRun .out (quoted (k i) ++ [58] ++ x i) = some (.out, .str (k i) :: .colon :: ts i) :=
      fun i mem => lexRun_key (plain i mem) (lexed i mem)
    rw [objectText, List.map_map]
    refine ⟨_, lexRun_append brace (lexRun_append (lexRun_intercalate members) close), fun us => ?_⟩
    rw [List.singleton_append, List.cons_append, List.append_assoc]
    exact .obj (derives_members derived empty us)

/-- A value that ends with its last byte is a text. -/
lemma Spells.parses {v : Json} (h : Spells x v) : Parses x v := by
  obtain ⟨ts, lexx, dx⟩ := h
  refine ⟨ts, by rw [lex, lexx], ?_⟩
  simpa using dx []

/-- An array of values is a value. -/
lemma valueText_array {xs : List (List UInt8)} (each : ∀ x ∈ xs, ValueText x) :
    ValueText (arrayText xs) := by
  choose! v spells using each
  have array := spells_array (x := id) spells
  rw [List.map_id] at array
  exact ⟨_, array⟩

/-- An object of members and a last one. -/
lemma wellFormedObject_of (members : MemberText a) (plain : Plain (text key))
    (value : ValueText x) :
    WellFormedObject (123 :: (a ++ (quoted (text key) ++ [58] ++ x) ++ [125])) := by
  obtain ⟨ts, ms, lexa, ma⟩ := members
  obtain ⟨v, us, lexx, dx⟩ := value
  have brace : lexRun .out [123] = some (.out, [.lbrace]) := rfl
  have inside := lexRun_append (lexRun_append lexa (lexRun_key plain lexx))
    (show lexRun .out [125] = some (.out, [.rbrace]) from rfl)
  have whole := lexRun_append brace inside
  refine ⟨[.lbrace] ++ (ts ++ (.str (text key) :: .colon :: us) ++ [.rbrace]),
    ms ++ [(text key, v)], ?_, ?_⟩
  · rw [lex, ← List.singleton_append, whole]
  · rw [List.singleton_append, List.append_assoc]
    exact .obj (ma.derives (.lastMember (dx _)))

/-- A string without a key behind members, and a comma behind it: whatever follows, this is not the
text of an object. -/
lemma not_wellFormedObject_bare (members : MemberText a) (plain : Plain s) (b : List UInt8) :
    ¬ WellFormedObject (123 :: (a ++ (quoted s ++ 44 :: b))) := by
  rintro ⟨all, ns, tokens, d⟩
  obtain ⟨ts, ms, lexa, ma⟩ := members
  have start : lexRun .out (123 :: (a ++ (quoted s ++ [44]))) =
      some (.out, .lbrace :: (ts ++ [.str s, .comma])) :=
    lexRun_append (show lexRun .out [123] = some (.out, [.lbrace]) from rfl)
      (lexRun_append lexa (lexRun_append (lexRun_quoted plain)
        (show lexRun .out [44] = some (.out, [.comma]) from rfl)))
  obtain ⟨us, rfl⟩ : ∃ us, all = .lbrace :: (ts ++ .str s :: .comma :: us) := by
    have split : 123 :: (a ++ (quoted s ++ 44 :: b)) = 123 :: (a ++ (quoted s ++ [44])) ++ b := by
      simp
    rw [split] at tokens
    obtain ⟨us, e⟩ := lex_of_start start tokens
    exact ⟨us, by rw [e]; simp⟩
  generalize inside : ts ++ .str s :: .comma :: us = l at d
  cases d with
  | emptyObj =>
    cases ma with
    | nil => cases inside
    | cons => cases inside
  | obj d =>
    rw [← inside] at d
    obtain ⟨v', d⟩ := ma.rest d
    cases d

end Texts

end SweetClib.Lib
