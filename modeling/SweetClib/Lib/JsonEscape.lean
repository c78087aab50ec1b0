import SweetClib.Lib.JsonValue

/-!
# The escapes of a JSON text

An escape starts with a backslash, and that of a code unit has the letter `u` behind it. What an
escape means has at most one of these two bytes (`isMark`), and never more than the escape without
its backslash. So a string with escapes has more marks than what it means, and a string without
escapes is plain (`marks_unescape`).

A text has at least the marks of its strings and keys, and these are spelled as the automaton of the
tokens demands it (`Spelling`, `Parses.spelled`). What the automaton makes of a part of a text is
`Lexed`.
-/

namespace SweetClib.Lib

/-- The bytes of which an escape has more than what it means. -/
def isMark (c : UInt8) : Bool := c = 92 ∨ c = 117

/-- How many marks a text has. -/
def marks (s : List UInt8) : Nat := s.countP isMark

@[simp] lemma marks_nil : marks [] = 0 := rfl

/-- The marks of a text in two parts. -/
lemma marks_append (s t : List UInt8) : marks (s ++ t) = marks s + marks t := List.countP_append

/-- The marks of a text, byte by byte. -/
lemma marks_cons (c : UInt8) (s : List UInt8) : marks (c :: s) = marks [c] + marks s :=
  marks_append [c] s

/-- Digits are no marks. -/
lemma marks_natText (n : Nat) : marks (natText n) = 0 := by
  rw [marks, List.countP_eq_zero]
  intro c mem mark
  have digit := isDigit_natText n c mem
  rw [isMark, decide_eq_true_eq] at mark
  obtain rfl | rfl := mark <;> cases digit

/-- Digits stand for themselves. -/
lemma plain_natText (n : Nat) : Plain (natText n) := by
  intro c mem
  have byte := wordByte_of_isDigit (isDigit_natText n c mem)
  simp only [wordByte, Bool.and_eq_true, decide_eq_true_eq] at byte
  exact byte.1.1

/-- What stands between the quotes of a string: bytes that stand for themselves, a backslash with
the character it escapes, and code units. -/
inductive Spelling : List UInt8 → Prop where
  | nil :
    Spelling []
  | byte {c s} :
    c ≠ 34 ∧ c ≠ 92 ∧ 32 ≤ c →
    Spelling s →
    Spelling (c :: s)
  | escape {c s} :
    c ≠ 117 →
    Spelling s →
    Spelling (92 :: c :: s)
  | unit {a b c d s} :
    Spelling s →
    Spelling (92 :: 117 :: a :: b :: c :: d :: s)

section Strings

variable {s t : List UInt8}

/-- Two spellings, one behind the other. -/
lemma Spelling.append (hs : Spelling s) (ht : Spelling t) : Spelling (s ++ t) := by
  induction hs with
  | nil => exact ht
  | byte plain _ ih => exact .byte plain ih
  | escape other _ ih => exact .escape other ih
  | unit _ ih => exact .unit ih

/-- The marks of a part of a string, at most. -/
def partMarks : UInt8 ⊕ Nat → Nat
  | .inl c => marks [c]
  | .inr _ => 1

/-- A character of several bytes has no marks. -/
lemma marks_charBytes (n : Nat) : marks (charBytes n) ≤ 1 := by
  have tail (m : Nat) : isMark (UInt8.ofNat (m % 64 + 128)) = false := by
    have all : ∀ k < 64, isMark (UInt8.ofNat (k + 128)) = false := by decide +kernel
    exact all _ (Nat.mod_lt _ (by decide))
  have two (m : Nat) : isMark (UInt8.ofNat (m % 32 + 192)) = false := by
    have all : ∀ k < 32, isMark (UInt8.ofNat (k + 192)) = false := by decide
    exact all _ (Nat.mod_lt _ (by decide))
  have three (m : Nat) : isMark (UInt8.ofNat (m % 16 + 224)) = false := by
    have all : ∀ k < 16, isMark (UInt8.ofNat (k + 224)) = false := by decide
    exact all _ (Nat.mod_lt _ (by decide))
  have four (m : Nat) : isMark (UInt8.ofNat (m % 8 + 240)) = false := by
    have all : ∀ k < 8, isMark (UInt8.ofNat (k + 240)) = false := by decide
    exact all _ (Nat.mod_lt _ (by decide))
  have bytes (c : Char) : text (String.singleton c) = String.utf8EncodeChar c := by
    simp [text, String.toUTF8, List.utf8Encode]
  rw [charBytes, bytes]
  generalize (if n.isValidChar then Char.ofNat n else Char.ofNat 0xFFFD) = c
  rw [String.utf8EncodeChar]
  split_ifs
  · exact List.countP_le_length
  all_goals
    simp only [marks, List.countP_cons, List.countP_nil, tail, two, three, four]
    decide

/-- The marks of the parts of a string, put together. -/
lemma marks_joinParts (ps : List (UInt8 ⊕ Nat)) :
    marks (joinParts ps) ≤ (ps.map partMarks).sum := by
  fun_induction joinParts ps with
  | case1 => simp
  | case2 c ps ih =>
    rw [marks_cons, List.map_cons, List.sum_cons, partMarks]
    omega
  | case3 n m ps pair ih =>
    have one := marks_charBytes (0x10000 + 0x400 * (n - 0xD800) + (m - 0xDC00))
    simp only [marks_append, List.map_cons, List.sum_cons, partMarks]
    omega
  | case4 n m ps single ih =>
    have one := marks_charBytes n
    simp only [marks_append, List.map_cons, List.sum_cons, partMarks] at ih ⊢
    omega
  | case5 n ps last ih =>
    have one := marks_charBytes n
    simp only [marks_append, List.map_cons, List.sum_cons, partMarks]
    omega

/-- The parts of a string have no more marks than the string, and fewer if one is an escape. -/
lemma marks_spelledParts (h : Spelling s) :
    ((spelledParts s).map partMarks).sum ≤ marks s ∧
      (marks s ≤ ((spelledParts s).map partMarks).sum → Plain s) := by
  induction h with
  | nil => exact ⟨le_rfl, fun _ _ mem => absurd mem List.not_mem_nil⟩
  | @byte c s plain _ ih =>
    have parts : spelledParts (c :: s) = .inl c :: spelledParts s := by
      rw [spelledParts]
      · rintro _ _ _ _ _ rfl
        exact absurd rfl plain.2.1
      · rintro _ _ rfl
        exact absurd rfl plain.2.1
    rw [parts, marks_cons, List.map_cons, List.sum_cons, partMarks]
    refine ⟨by omega, fun few => List.forall_mem_cons.mpr ⟨plain, ih.2 (by omega)⟩⟩
  | @escape c s other _ ih =>
    have parts : spelledParts (92 :: c :: s) = .inl (escapedByte c) :: spelledParts s := by
      rw [spelledParts]
      rintro _ _ _ _ _ rfl
      exact absurd rfl other
    have byte : marks [escapedByte c] ≤ marks [c] := by
      have all : ∀ n < 256, marks [escapedByte (UInt8.ofNat n)] ≤ marks [UInt8.ofNat n] := by
        decide +kernel
      have this := all c.toNat c.toNat_lt
      rwa [UInt8.ofNat_toNat] at this
    have slash : marks [92] = 1 := rfl
    rw [parts, marks_cons, marks_cons c, List.map_cons, List.sum_cons, partMarks]
    exact ⟨by omega, fun few => by omega⟩
  | @unit a b c d s _ ih =>
    have two : 2 + marks s ≤ marks (92 :: 117 :: a :: b :: c :: d :: s) := by
      have split : 92 :: 117 :: a :: b :: c :: d :: s = [92, 117] ++ ([a, b, c, d] ++ s) := rfl
      have start : marks [92, 117] = 2 := rfl
      rw [split, marks_append, marks_append]
      omega
    rw [spelledParts, List.map_cons, List.sum_cons, partMarks]
    exact ⟨by omega, fun few => by omega⟩

/-- What a string means has no more marks than the string, and fewer if there is an escape. -/
lemma marks_unescape (h : Spelling s) :
    marks (unescape s) ≤ marks s ∧ (marks s ≤ marks (unescape s) → Plain s) := by
  obtain ⟨le, plain⟩ := marks_spelledParts h
  have joined := marks_joinParts (spelledParts s)
  exact ⟨joined.trans le, fun few => plain (few.trans joined)⟩

end Strings

section Tokens

/-- The automaton has read a string as far as it goes. -/
def LexSt.Spelled : LexSt → Prop
  | .str s => Spelling s
  | .esc s => ∃ s', s = s' ++ [92] ∧ Spelling s'
  | .hex n s => ∃ s' ds, s = s' ++ 92 :: 117 :: ds ∧ ds.length + n = 4 ∧ 0 < n ∧ Spelling s'
  | _ => True

/-- The marks that the automaton has read of a string. -/
def LexSt.marks : LexSt → Nat
  | .str s => Lib.marks s
  | .esc s => Lib.marks s
  | .hex _ s => Lib.marks s
  | _ => 0

/-- A token that is a string is spelled right. -/
def Token.Spelled : Token → Prop
  | .str s => Spelling s
  | _ => True

/-- The marks of a token that is a string. -/
def Token.marks : Token → Nat
  | .str s => Lib.marks s
  | _ => 0

variable {st st' : LexSt} {c : UInt8} {s : List UInt8} {ts : List Token}

/-- Brackets, colon and comma have no marks that count. -/
lemma structural_spec {t : Token} (h : structural c = some t) : t.Spelled ∧ t.marks = 0 := by
  unfold structural at h
  split_ifs at h <;> cases h <;> exact ⟨trivial, rfl⟩

/-- Neither has a word. -/
lemma wordToken_spec {t : Token} (h : wordToken s = some t) : t.Spelled ∧ t.marks = 0 := by
  unfold wordToken at h
  split_ifs at h <;> cases h <;> exact ⟨trivial, rfl⟩

/-- What the automaton makes of a text: the strings are spelled well, and have no more marks than
the text adds. -/
structure Lexed (st : LexSt) (s : List UInt8) (st' : LexSt) (ts : List Token) : Prop where
  state : st'.Spelled
  tokens : ∀ t ∈ ts, t.Spelled
  marks : st'.marks + (ts.map Token.marks).sum ≤ st.marks + Lib.marks s

/-- Nothing is read of an empty text. -/
lemma Lexed.nil (before : st.Spelled) : Lexed st [] st [] :=
  ⟨before, by simp, by simp⟩

/-- A byte is read, and no token ends. -/
lemma Lexed.byte (state : st'.Spelled) (marks : st'.marks ≤ st.marks + Lib.marks [c]) :
    Lexed st [c] st' [] :=
  ⟨state, by simp, by simpa using marks⟩

/-- What is read of a byte and of the rest. -/
lemma Lexed.cons {st₁ : LexSt} {us : List Token} (first : Lexed st [c] st₁ ts)
    (rest : Lexed st₁ s st' us) : Lexed st (c :: s) st' (ts ++ us) := by
  refine ⟨rest.state, fun t mem => (List.mem_append.mp mem).elim (first.tokens t) (rest.tokens t),
    ?_⟩
  have le := first.marks
  have le' := rest.marks
  rw [marks_cons, List.map_append, List.sum_append]
  omega

/-- A byte in a string adds its own mark, and the last one ends the token. -/
lemma lexed_str (step : lexStep (.str s) c = some (st', ts)) (before : Spelling s) :
    Lexed (.str s) [c] st' ts := by
  rw [lexStep] at step
  split_ifs at step with quote slash control <;> cases step
  · refine ⟨trivial, List.forall_mem_singleton.mpr before, ?_⟩
    simp [LexSt.marks, Token.marks]
  · subst slash
    exact .byte ⟨s, rfl, before⟩ (marks_append _ [_]).le
  · have byte : Spelling [c] := .byte ⟨quote, slash, UInt8.not_lt.mp control⟩ .nil
    exact .byte (before.append byte) (marks_append _ [_]).le

/-- So does the byte behind a backslash. -/
lemma lexed_esc (step : lexStep (.esc s) c = some (st', ts)) (before : (LexSt.esc s).Spelled) :
    Lexed (.esc s) [c] st' ts := by
  obtain ⟨s', rfl, spelled⟩ := before
  rw [lexStep] at step
  split_ifs at step with unit <;> cases step
  · subst unit
    exact .byte ⟨s', [], by simp, rfl, by decide, spelled⟩ (marks_append _ [_]).le
  · have escape : Spelling [92, c] := .escape unit .nil
    refine .byte ?_ (marks_append _ [_]).le
    have whole := spelled.append escape
    simpa [LexSt.Spelled] using whole

/-- So does a digit of a code unit. -/
lemma lexed_hex {n : Nat} (step : lexStep (.hex n s) c = some (st', ts))
    (before : (LexSt.hex n s).Spelled) : Lexed (.hex n s) [c] st' ts := by
  obtain ⟨s', ds, rfl, digits, left, spelled⟩ := before
  rw [lexStep] at step
  split_ifs at step with hex last <;> cases step
  · -- the last digit
    obtain ⟨x, y, z, rfl⟩ := List.length_eq_three.mp (show ds.length = 3 by omega)
    have unit : Spelling [92, 117, x, y, z, c] := .unit .nil
    refine .byte ?_ (marks_append _ [_]).le
    have whole := spelled.append unit
    simpa [LexSt.Spelled] using whole
  · refine .byte ⟨s', ds ++ [c], by simp, ?_, by omega, spelled⟩ (marks_append _ [_]).le
    rw [List.length_append, List.length_singleton]
    omega

/-- A byte that ends a word ends a token without marks. -/
lemma lexed_word (step : lexStep (.word s) c = some (st', ts)) : Lexed (.word s) [c] st' ts := by
  rw [lexStep] at step
  split_ifs at step
  · obtain ⟨t, word, e⟩ := Option.map_eq_some_iff.mp step
    cases e
    obtain ⟨spelled, none⟩ := wordToken_spec word
    exact ⟨trivial, by simpa using spelled, by simp [LexSt.marks, none]⟩
  · split at step
    next t single =>
      obtain ⟨u, word, e⟩ := Option.map_eq_some_iff.mp step
      cases e
      obtain ⟨spelled, none⟩ := wordToken_spec word
      obtain ⟨spelled', none'⟩ := structural_spec single
      exact ⟨trivial, by simpa using ⟨spelled, spelled'⟩, by simp [LexSt.marks, none, none']⟩
    · cases step
      exact .byte trivial (Nat.zero_le _)

/-- A byte adds its own mark at most. -/
lemma lexStep_lexed (step : lexStep st c = some (st', ts)) (before : st.Spelled) :
    Lexed st [c] st' ts := by
  cases st with
  | out =>
    rw [lexStep] at step
    split_ifs at step
    · cases step
      exact .byte trivial (Nat.zero_le _)
    · cases step
      exact .byte .nil (Nat.zero_le _)
    · split at step <;> cases step
      next t single =>
        obtain ⟨spelled, none⟩ := structural_spec single
        exact ⟨trivial, by simpa using spelled, by simp [LexSt.marks, none]⟩
      · exact .byte trivial (Nat.zero_le _)
  | str s => exact lexed_str step before
  | esc s => exact lexed_esc step before
  | hex n s => exact lexed_hex step before
  | word w => exact lexed_word step

/-- The tokens of a text have its marks at most. -/
lemma lexRun_lexed (run : lexRun st s = some (st', ts)) (before : st.Spelled) :
    Lexed st s st' ts := by
  induction s generalizing st ts with
  | nil =>
    cases run
    exact .nil before
  | cons c s ih =>
    rw [lexRun] at run
    split at run
    · cases run
    next st₁ us step =>
      obtain ⟨r, rest, e⟩ := Option.map_eq_some_iff.mp run
      cases e
      have first := lexStep_lexed step before
      exact first.cons (ih rest first.state)

/-- The strings of a text are spelled well, and have no more marks than the text. -/
lemma lex_spelled (tokens : lex s = some ts) :
    (∀ t ∈ ts, t.Spelled) ∧ (ts.map Token.marks).sum ≤ marks s := by
  unfold lex at tokens
  split at tokens
  next ts' run =>
    cases tokens
    obtain ⟨_, each, le⟩ := lexRun_lexed run trivial
    exact ⟨each, by simpa [LexSt.marks] using le⟩
  next w ts' run =>
    obtain ⟨t, word, rfl⟩ := Option.map_eq_some_iff.mp tokens
    obtain ⟨spelled, none⟩ := wordToken_spec word
    obtain ⟨_, each, le⟩ := lexRun_lexed run trivial
    refine ⟨fun u mem => ?_, by simpa [LexSt.marks, none] using le⟩
    obtain mem | mem := List.mem_append.mp mem
    · exact each u mem
    · exact List.mem_singleton.mp mem ▸ spelled
  · cases tokens

end Tokens

/-- The marks of the strings and keys of a value, as they are spelled. -/
def Json.marks : Json → Nat
  | .str s => Lib.marks s
  | .arr vs => (vs.map fun v => v.marks).sum
  | .obj ms => (ms.map fun m => Lib.marks m.1 + m.2.marks).sum
  | _ => 0
decreasing_by
  · have := List.sizeOf_lt_of_mem ‹_›
    decreasing_tactic
  · have := List.sizeOf_lt_of_mem ‹_›
    cases m
    rw [Prod.mk.sizeOf_spec] at this
    decreasing_tactic

/-- All strings and keys of a value are spelled well. -/
inductive Json.Spelled : Json → Prop where
  | null :
    Json.Spelled .null
  | bool {b} :
    Json.Spelled (.bool b)
  | num {n} :
    Json.Spelled (.num n)
  | str {s} :
    Spelling s →
    Json.Spelled (.str s)
  | arr {vs} :
    (∀ v ∈ vs, Json.Spelled v) →
    Json.Spelled (.arr vs)
  | obj {ms} :
    (∀ m ∈ ms, Spelling m.1) →
    (∀ m ∈ ms, Json.Spelled m.2) →
    Json.Spelled (.obj ms)

section Values

/-- A value has the marks of its tokens at most. -/
lemma Derives.spelled {part : Part} {ts us : List Token} {v : Json} (d : Derives part ts v us)
    (each : ∀ t ∈ ts, t.Spelled) :
    v.Spelled ∧ (∀ t ∈ us, t.Spelled) ∧
      v.marks + (us.map Token.marks).sum ≤ (ts.map Token.marks).sum := by
  induction d with
  | null => exact ⟨.null, (List.forall_mem_cons.mp each).2, by simp [Json.marks]⟩
  | bool => exact ⟨.bool, (List.forall_mem_cons.mp each).2, by simp [Json.marks]⟩
  | num => exact ⟨.num, (List.forall_mem_cons.mp each).2, by simp [Json.marks]⟩
  | str =>
    obtain ⟨spelled, rest⟩ := List.forall_mem_cons.mp each
    exact ⟨.str spelled, rest, by simp [Json.marks, Token.marks]⟩
  | emptyArr =>
    simp only [List.forall_mem_cons] at each
    exact ⟨.arr (by simp), each.2.2, by simp [Json.marks, Token.marks]⟩
  | emptyObj =>
    simp only [List.forall_mem_cons] at each
    exact ⟨.obj (by simp) (by simp), each.2.2, by simp [Json.marks, Token.marks]⟩
  | arr d ih | obj d ih =>
    obtain ⟨spelled, rest, le⟩ := ih (List.forall_mem_cons.mp each).2
    exact ⟨spelled, rest, by simpa using le.trans (Nat.le_add_left _ _)⟩
  | lastElement d ih =>
    obtain ⟨spelled, rest, le⟩ := ih each
    refine ⟨.arr (List.forall_mem_singleton.mpr spelled), (List.forall_mem_cons.mp rest).2, ?_⟩
    simpa [Json.marks, Token.marks] using le
  | element d d' ih ih' =>
    obtain ⟨spelled, rest, le⟩ := ih each
    obtain ⟨others, rest', le'⟩ := ih' (List.forall_mem_cons.mp rest).2
    cases others with
    | arr others =>
      refine ⟨.arr (List.forall_mem_cons.mpr ⟨spelled, others⟩), rest', ?_⟩
      simp [Json.marks, Token.marks] at le le' ⊢
      omega
  | lastMember d ih =>
    simp only [List.forall_mem_cons] at each
    obtain ⟨spelled, rest, le⟩ := ih each.2.2
    refine ⟨.obj (List.forall_mem_singleton.mpr each.1) (List.forall_mem_singleton.mpr spelled),
      (List.forall_mem_cons.mp rest).2, ?_⟩
    simp [Json.marks, Token.marks] at le ⊢
    omega
  | member d d' ih ih' =>
    simp only [List.forall_mem_cons] at each
    obtain ⟨spelled, rest, le⟩ := ih each.2.2
    obtain ⟨others, rest', le'⟩ := ih' (List.forall_mem_cons.mp rest).2
    cases others with
    | obj keys others =>
      refine ⟨.obj (List.forall_mem_cons.mpr ⟨each.1, keys⟩)
        (List.forall_mem_cons.mpr ⟨spelled, others⟩), rest', ?_⟩
      simp [Json.marks, Token.marks] at le le' ⊢
      omega

/-- The value of a text is spelled well, and has no more marks than the text. -/
lemma Parses.spelled {s : List UInt8} {v : Json} (h : Parses s v) :
    v.Spelled ∧ v.marks ≤ marks s := by
  obtain ⟨ts, tokens, d⟩ := h
  obtain ⟨each, le⟩ := lex_spelled tokens
  obtain ⟨spelled, _, le'⟩ := d.spelled each
  exact ⟨spelled, by simpa using le'.trans le⟩

open NestedMap in
/-- The marks of a map are those of its entries and those of the escapes in its keys. -/
lemma Json.Spelled.marks_entries {v : Json} (h : v.Spelled) (map : node v = .map) :
    (∀ m ∈ entries v, m.2.Spelled) ∧
    ((entries v).map fun m => Lib.marks m.1 + m.2.marks).sum ≤ v.marks ∧
      (v.marks ≤ ((entries v).map fun m => Lib.marks m.1 + m.2.marks).sum →
        ∀ m ∈ entries v, Plain m.1) := by
  cases h with
  | null | bool | num | str => cases map
  | @arr vs each =>
    have values : ((entries (Json.arr vs)).map fun m => Lib.marks m.1 + m.2.marks) =
        vs.map Json.marks := by
      have first : vs.zipIdx.map (Json.marks ∘ Prod.fst) = vs.map Json.marks := by
        rw [← List.map_map, List.zipIdx_map_fst]
      simpa [entries, indexed, Function.comp_def, marks_natText] using first
    refine ⟨?_, by rw [values, Json.marks], fun _ m mem => ?_⟩
    · intro m mem
      obtain ⟨p, mem', rfl⟩ := List.mem_map.mp mem
      exact each _ (List.fst_mem_of_mem_zipIdx mem')
    · obtain ⟨p, _, rfl⟩ := List.mem_map.mp mem
      exact plain_natText p.2
  | @obj ms spelled each =>
    have members : ((entries (Json.obj ms)).map fun m => Lib.marks m.1 + m.2.marks) =
        ms.map fun m => Lib.marks (unescape m.1) + m.2.marks := List.map_map
    have keys : ∀ m ∈ ms, Lib.marks (unescape m.1) + m.2.marks ≤ Lib.marks m.1 + m.2.marks :=
      fun m mem => Nat.add_le_add_right (marks_unescape (spelled m mem)).1 _
    refine ⟨?_, ?_, fun few m mem => ?_⟩
    · intro m mem
      obtain ⟨m, mem', rfl⟩ := List.mem_map.mp mem
      exact each m mem'
    · rw [members, Json.marks]
      exact List.sum_le_sum keys
    · obtain ⟨m, mem', rfl⟩ := List.mem_map.mp mem
      rw [members, Json.marks] at few
      -- no key has fewer marks than it is spelled with
      have plain : Plain m.1 := by
        apply (marks_unescape (spelled m mem')).2
        by_contra fewer
        refine absurd few (Nat.not_le.mpr (List.sum_lt_sum _ _ keys ⟨m, mem', ?_⟩))
        omega
      exact (unescape_plain plain).symm ▸ plain

end Values

end SweetClib.Lib
