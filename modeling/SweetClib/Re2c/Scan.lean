import Mathlib.Data.List.SplitBy
import Mathlib.Data.List.TakeWhile
import SweetClib.Lib.Munch
import SweetClib.Lib.Print
import SweetClib.Lib.Text

/-!
# The scanner of sums

Model of `re2c/calc_001.re`: `scan` goes through a string by the rules between `/*!re2c` and `*/`,
prints a line for each match and returns at the terminator, or at a character that no other rule
begins with. The rules have the meaning of the generator, `Lib.munch`. The limit `l` is only used
for refilling the input, which is switched off.

A text that a rule matches is a run of digits or one character (`classify`), so that the longest
match is a whole run of digits (`munch_run`) or one character (`munch_single`). The pieces of the
input are runs that do not touch each other, and signs (`Factors`), and there is only one way to
cut a text into such pieces (`Factors.unique`).
-/

namespace SweetClib.Re2c
open Lib

inductive Kind where
  | oct
  | num
  | plus
  | minus
  deriving DecidableEq

/-- What is printed for a token. -/
def Kind.line : Kind → List UInt8
  | .oct => text "Oct\n"
  | .num => text "Num\n"
  | .plus => text "+\n"
  | .minus => text "-\n"

/-- The actions of the rules: print a token and go on, or print and return. -/
inductive Action where
  | token (kind : Kind)
  | eof
  | err
  deriving DecidableEq

/-- The class `[0-9]`. -/
def digits : List UInt8 := text "0123456789"

/-- The class `[^]`. -/
def bytes : List UInt8 := (List.range 256).map UInt8.ofNat

/-- The rules, in their order. -/
def rules : List (Rule UInt8 Action) :=
  [⟨oneOf [48] * (oneOf digits * (oneOf digits).star), .token .oct⟩,
    ⟨oneOf (text "123456789") * (oneOf digits).star, .token .num⟩,
    ⟨oneOf [48], .token .num⟩,
    ⟨oneOf [43], .token .plus⟩,
    ⟨oneOf [45], .token .minus⟩,
    ⟨oneOf [0], .eof⟩,
    ⟨oneOf bytes, .err⟩]

/-- The return value, what was printed, and the cursor `p`. -/
structure ScanRes where
  ret : Int
  printed : List UInt8
  p : Nat
  deriving DecidableEq

/-- So many rounds of the loop of `scan`; where no rule matches there is no meaning. -/
def scanLoop (s : List UInt8) : Nat → Nat → List UInt8 → Option ScanRes
  | 0, _, _ => none
  | rounds + 1, p, printed =>
    match munch rules (s.drop p) with
    | none => none
    | some (.token kind, n) => scanLoop s rounds (p + n) (printed ++ kind.line)
    | some (.eof, n) => some ⟨0, printed ++ text "EOF\n", p + n⟩
    | some (.err, n) => some ⟨1, printed ++ text "ERR\n", p + n⟩

/-- C `scan`, of a string with its terminator. -/
def scan (s : CStr) : Option ScanRes := scanLoop (s.chars ++ [0]) (s.chars.length + 1) 0 []

example :
    scan ⟨text "07+0", by decide⟩ = some ⟨0, text "Oct\n+\nNum\nEOF\n", 5⟩ := by decide +kernel

/-- The characters of a sum. -/
def isSymbol (c : UInt8) : Bool := c ∈ digits ∨ c = 43 ∨ c = 45

/-- A run of digits. -/
def IsRun (t : List UInt8) : Prop := t ≠ [] ∧ ∀ c ∈ t, c ∈ digits

/-- The pieces of a text: runs of digits that do not touch each other, and signs. -/
structure Factors (pieces : List (List UInt8)) (s : List UInt8) : Prop where
  flatten : pieces.flatten = s
  each : ∀ t ∈ pieces, IsRun t ∨ t = [43] ∨ t = [45]
  maximal : pieces.IsChain fun t u => ¬ (IsRun t ∧ IsRun u)

/-- The kind of a piece: a run of at least two digits is octal, if it starts with 0. -/
def kindOf (t : List UInt8) : Kind :=
  if t = [43] then .plus
  else if t = [45] then .minus
  else if 2 ≤ t.length ∧ t.head? = some 48 then .oct
  else .num

/-- The action for a text that some rule matches. -/
def classify : List UInt8 → Option Action
  | [] => none
  | c :: w =>
    if c ∈ digits ∧ w.all (· ∈ digits) then some (.token (if c = 48 ∧ w ≠ [] then .oct else .num))
    else if w = [] then
      some (if c = 43 then .token .plus else if c = 45 then .token .minus else if c = 0 then .eof
        else .err)
    else none

section Rules

lemma signs_notMem :
    (43 : UInt8) ∉ digits ∧ (45 : UInt8) ∉ digits ∧ (0 : UInt8) ∉ digits := by decide

/-- Every byte is in the class `[^]`. -/
lemma mem_bytes (c : UInt8) : c ∈ bytes :=
  List.mem_map.mpr ⟨c.toNat, List.mem_range.mpr c.toNat_lt, UInt8.ofNat_toNat⟩

lemma firstRule_rules (w : List UInt8) : firstRule rules w = classify w := by
  cases w with
  | nil => decide +kernel
  | cons c w =>
    have zero : (48 : UInt8) ∉ text "123456789" := by decide
    have digit : c ∈ digits ↔ c = 48 ∨ c ∈ text "123456789" := List.mem_cons
    have last : firstRule ([] : List (Rule UInt8 Action)) (c :: w) = none := rfl
    simp only [rules, firstRule_cons, rmatch_oneOf, rmatch_oneOf_mul, rmatch_some_oneOf,
      rmatch_star_oneOf, List.mem_singleton, mem_bytes, classify, digit, true_and, last]
    by_cases nil : w = []
    · by_cases first : c = 48
      · simp [nil, first, zero]
      · by_cases other : c ∈ text "123456789" <;> simp [nil, first, other]
        split_ifs <;> rfl
    · by_cases first : c = 48
      · simp [nil, first, zero]
      · simp [nil, first]

/-- The longest match is a whole run of digits. -/
lemma munch_run {t s : List UInt8} (run : IsRun t) (stop : ∀ c, s.head? = some c → c ∉ digits) :
    munch rules (t ++ s) = some (.token (kindOf t), t.length) := by
  obtain ⟨ne, all⟩ := run
  obtain ⟨c, t, rfl⟩ := List.exists_cons_of_ne_nil ne
  obtain ⟨first, rest⟩ := List.forall_mem_cons.mp all
  apply munch_eq ne
  · have sign : c ≠ 43 ∧ c ≠ 45 :=
      ⟨fun e => signs_notMem.1 (e ▸ first), fun e => signs_notMem.2.1 (e ▸ first)⟩
    have digit : t.all (· ∈ digits) = true :=
      List.all_eq_true.mpr fun d mem => by simpa using rest d mem
    rw [firstRule_rules, classify, if_pos ⟨first, digit⟩]
    have two : 1 ≤ t.length ↔ t ≠ [] := by
      rw [Nat.one_le_iff_ne_zero, ne_eq, List.length_eq_zero_iff]
    simp [kindOf, sign, two, and_comm]
  · intro v ne' pre
    obtain ⟨d, v, rfl⟩ := List.exists_cons_of_ne_nil ne'
    obtain ⟨s', rfl⟩ := pre
    have other : d ∉ digits := stop d rfl
    have longer : ¬ (t ++ d :: v).all (· ∈ digits) = true := by simp [other]
    rw [firstRule_rules, List.cons_append, classify, if_neg (fun h => longer h.2), if_neg (by simp)]

/-- What follows a character that is no digit does not matter. -/
lemma munch_single {c : UInt8} (other : c ∉ digits) (s : List UInt8) :
    munch rules (c :: s) =
      some (if c = 43 then .token .plus else if c = 45 then .token .minus else if c = 0 then .eof
        else .err, 1) := by
  apply munch_eq (List.cons_ne_nil c [])
  · rw [firstRule_rules, classify, if_neg (fun h => other h.1), if_pos rfl]
  · intro v ne _
    rw [firstRule_rules, List.cons_append, List.nil_append, classify, if_neg (fun h => other h.1),
      if_neg ne]

end Rules

section Factors

variable {pieces : List (List UInt8)} {s t : List UInt8}

/-- The pieces are those that the library cuts where not both neighbours are digits. -/
lemma Factors.splitBy (fac : Factors pieces s) :
    s.splitBy (fun a b => a ∈ digits && b ∈ digits) = pieces := by
  have ne : ∀ t ∈ pieces, t ≠ [] := by
    intro t mem
    obtain run | rfl | rfl := fac.each t mem
    · exact run.1
    · exact List.cons_ne_nil _ _
    · exact List.cons_ne_nil _ _
  rw [← fac.flatten]
  apply List.splitBy_flatten
  · exact fun mem => ne [] mem rfl
  · intro t mem
    obtain run | rfl | rfl := fac.each t mem
    · apply List.Pairwise.isChain
      rw [List.pairwise_iff_forall_sublist]
      intro a b sub
      have mem_a : a ∈ digits := run.2 a (sub.subset (by simp))
      have mem_b : b ∈ digits := run.2 b (sub.subset (by simp))
      simp [mem_a, mem_b]
    · exact .singleton _
    · exact .singleton _
  · refine fac.maximal.imp_of_mem_imp fun t u mem_t mem_u apart => ⟨ne t mem_t, ne u mem_u, ?_⟩
    -- one of the neighbours is a sign
    rw [Bool.and_eq_false_iff, decide_eq_false_iff_not, decide_eq_false_iff_not]
    obtain run | rfl | rfl := fac.each t mem_t
    · obtain run' | rfl | rfl := fac.each u mem_u
      · exact absurd ⟨run, run'⟩ apart
      · exact .inr signs_notMem.1
      · exact .inr signs_notMem.2.1
    · exact .inl signs_notMem.1
    · exact .inl signs_notMem.2.1

lemma Factors.unique {pieces' : List (List UInt8)} (fac : Factors pieces s)
    (fac' : Factors pieces' s) : pieces' = pieces := by
  rw [← fac.splitBy, fac'.splitBy]

lemma Factors.nil : Factors [] [] := ⟨rfl, nofun, .nil⟩

/-- A run of digits in front, if no digit follows it. -/
lemma Factors.run (fac : Factors pieces s) (run : IsRun t)
    (stop : ∀ c, s.head? = some c → c ∉ digits) : Factors (t :: pieces) (t ++ s) := by
  refine ⟨by rw [List.flatten_cons, fac.flatten], List.forall_mem_cons.mpr ⟨.inl run, fac.each⟩, ?_⟩
  rw [List.isChain_cons]
  refine ⟨?_, fac.maximal⟩
  rintro u first ⟨_, run'⟩
  obtain ⟨pieces', rfl⟩ := List.head?_eq_some_iff.mp first
  obtain ⟨c, u, rfl⟩ := List.exists_cons_of_ne_nil run'.1
  apply stop c
  · rw [← fac.flatten]
    rfl
  · exact run'.2 c List.mem_cons_self

lemma Factors.sign (fac : Factors pieces s) {c : UInt8} (sign : c = 43 ∨ c = 45) :
    Factors ([c] :: pieces) (c :: s) := by
  have no_run : ¬ IsRun [c] := by
    intro run
    have digit := run.2 c List.mem_cons_self
    obtain rfl | rfl := sign
    · exact signs_notMem.1 digit
    · exact signs_notMem.2.1 digit
  refine ⟨by rw [List.flatten_cons, fac.flatten]; rfl, List.forall_mem_cons.mpr ⟨?_, fac.each⟩, ?_⟩
  · obtain rfl | rfl := sign
    · exact .inr (.inl rfl)
    · exact .inr (.inr rfl)
  · rw [List.isChain_cons]
    exact ⟨fun u _ both => no_run both.1, fac.maximal⟩

end Factors

def printedFor (pieces : List (List UInt8)) : List UInt8 := pieces.flatMap fun t => (kindOf t).line

/-- The result of a scan: up to the first character that is not of a sum, or up to the end. -/
structure Scanned (s : List UInt8) (done : Nat) (printed : List UInt8) (r : ScanRes) : Prop where
  ret : r.ret = if s.all isSymbol then 0 else 1
  cursor : r.p = done + (s.takeWhile isSymbol).length + 1
  pieces : ∃ pieces, Factors pieces (s.takeWhile isSymbol) ∧
    r.printed = printed ++ printedFor pieces ++ if s.all isSymbol then text "EOF\n"
      else text "ERR\n"

/-- A text starts with the piece `t`, which is matched as a whole, and `u` is behind it. -/
structure Piece (t u : List UInt8) : Prop where
  ne : t ≠ []
  symbols : ∀ c ∈ t, isSymbol c
  hit : munch rules (t ++ (u ++ [0])) = some (.token (kindOf t), t.length)
  factors : ∀ pieces, Factors pieces (u.takeWhile isSymbol) →
    Factors (t :: pieces) (t ++ u.takeWhile isSymbol)

section Loop

variable {s t u mem : List UInt8} {done : Nat} {printed : List UInt8} {r : ScanRes}

/-- A piece in front of a text that was scanned. -/
lemma Scanned.cons (piece : Piece t s)
    (sc : Scanned s (done + t.length) (printed ++ (kindOf t).line) r) :
    Scanned (t ++ s) done printed r := by
  have all : (t ++ s).all isSymbol = s.all isSymbol := by
    rw [List.all_append, List.all_eq_true.mpr piece.symbols, Bool.true_and]
  have take : (t ++ s).takeWhile isSymbol = t ++ s.takeWhile isSymbol :=
    List.takeWhile_append_of_pos piece.symbols
  obtain ⟨ret, cursor, pieces, fac, out⟩ := sc
  refine ⟨?_, ?_, t :: pieces, ?_, ?_⟩
  · rw [all]
    exact ret
  · rw [take, List.length_append, cursor]
    omega
  · rw [take]
    exact piece.factors pieces fac
  · rw [all, out, printedFor, printedFor, List.flatMap_cons]
    simp only [List.append_assoc]

/-- A text that starts with a digit starts with a run of digits, behind which there is none. -/
lemma run_cut {c : UInt8} (digit : c ∈ digits) (s : List UInt8) :
    ∃ t u, c :: s = t ++ u ∧ IsRun t ∧ ∀ d, u.head? = some d → d ∉ digits := by
  refine ⟨(c :: s).takeWhile (· ∈ digits), (c :: s).dropWhile (· ∈ digits),
    List.takeWhile_append_dropWhile.symm, ?_, ?_⟩
  · refine ⟨by simp [digit], fun d mem => ?_⟩
    simpa using List.mem_takeWhile_imp mem
  · intro d first
    have other := List.head?_dropWhile_not (fun x : UInt8 => decide (x ∈ digits)) (c :: s)
    rw [first] at other
    simpa using other

/-- The run of digits is a piece: neither the terminator nor what is left behind it is a digit. -/
lemma piece_run (run : IsRun t) (stop : ∀ d, u.head? = some d → d ∉ digits) : Piece t u := by
  refine ⟨run.1, fun d mem => by simp [isSymbol, run.2 d mem], munch_run run fun d first => ?_,
    fun pieces fac => fac.run run fun d first => ?_⟩
  · cases u with
    | nil =>
      cases first
      exact signs_notMem.2.2
    | cons x u => exact stop d first
  · cases u with
    | nil => cases first
    | cons x u =>
      rw [List.takeWhile_cons] at first
      split at first
      · exact stop d first
      · cases first

lemma piece_sign {c : UInt8} (sign : c = 43 ∨ c = 45) (s : List UInt8) : Piece [c] s := by
  have digit : c ∉ digits := by
    obtain rfl | rfl := sign
    · exact signs_notMem.1
    · exact signs_notMem.2.1
  refine ⟨List.cons_ne_nil _ _, ?_, ?_, fun pieces fac => fac.sign sign⟩
  · rw [List.forall_mem_singleton]
    simp [isSymbol, sign]
  · rw [List.singleton_append, munch_single digit]
    obtain rfl | rfl := sign
    · rfl
    · rfl

/-- What a text starts with, if it is not empty: a piece, or a character that is not of a sum. -/
lemma piece_or_other (c : UInt8) (s : List UInt8) :
    (∃ t u, c :: s = t ++ u ∧ Piece t u) ∨ isSymbol c = false := by
  by_cases digit : c ∈ digits
  · obtain ⟨t, u, cut, run, stop⟩ := run_cut digit s
    exact .inl ⟨t, u, cut, piece_run run stop⟩
  · by_cases sign : c = 43 ∨ c = 45
    · exact .inl ⟨[c], s, rfl, piece_sign sign s⟩
    · exact .inr (by simp [isSymbol, digit, not_or.mp sign])

/-- The loop of `scan`, with the text that is still ahead. -/
lemma scanLoop_spec {rounds : Nat} (plain : 0 ∉ s) (ahead : mem.drop done = s ++ [0])
    (enough : s.length < rounds) (printed : List UInt8) :
    ∃ r, scanLoop mem rounds done printed = some r ∧ Scanned s done printed r := by
  induction rounds generalizing s done printed with
  | zero => exact absurd enough (Nat.not_lt_zero _)
  | succ rounds ih =>
    cases s with
    | nil =>
      refine ⟨⟨0, printed ++ text "EOF\n", done + 1⟩,
        ?_, by simp, rfl, [], .nil, by simp [printedFor]⟩
      rw [scanLoop, ahead, List.nil_append, munch_single signs_notMem.2.2]
      rfl
    | cons c s =>
      obtain ⟨t, u, cut, piece⟩ | other := piece_or_other c s
      · -- the piece is matched, and the rest of the text is scanned from behind it
        rw [cut] at plain ahead enough ⊢
        have ahead' : mem.drop (done + t.length) = u ++ [0] := by
          rw [← List.drop_drop, ahead, List.append_assoc, List.drop_left]
        have shorter : u.length < rounds := by
          have := List.length_pos_of_ne_nil piece.ne
          rw [List.length_append] at enough
          omega
        obtain ⟨r, e, sc⟩ := ih (fun zero => plain (List.mem_append_right t zero)) ahead' shorter
          (printed ++ (kindOf t).line)
        refine ⟨r, ?_, sc.cons piece⟩
        rw [scanLoop, ahead, List.append_assoc, piece.hit]
        exact e
      · have zero : c ≠ 0 := fun e => plain (e ▸ List.mem_cons_self)
        have no : c ∉ digits ∧ c ≠ 43 ∧ c ≠ 45 := by simpa [isSymbol] using other
        refine ⟨⟨1, printed ++ text "ERR\n", done + 1⟩,
          ?_, by simp [other], by simp [other], [], ?_, by simp [printedFor, other]⟩
        · rw [scanLoop, ahead, List.cons_append, munch_single no.1, if_neg no.2.1, if_neg no.2.2,
            if_neg zero]
        · rw [List.takeWhile_cons_of_neg (by simp [other])]
          exact .nil

end Loop

/-- For every string, `scan` returns. It returns 0 if every character is a digit or a sign, and
otherwise 1, with the cursor right behind the first other character. What it has consumed before is
cut into runs of digits and signs in one way only, and it prints the kinds of these pieces, one
after the other, and last how it ended. -/
theorem scan_language (s : CStr) :
    ∃ r, scan s = some r ∧
      (r.ret = 0 ↔ ∀ c ∈ s.chars, c ∈ digits ∨ c = 43 ∨ c = 45) ∧
      (r.ret ≠ 0 → r.ret = 1 ∧ ∃ c rest, s.chars = s.chars.takeWhile isSymbol ++ c :: rest ∧
        ¬ (c ∈ digits ∨ c = 43 ∨ c = 45) ∧ r.p = (s.chars.takeWhile isSymbol ++ [c]).length) ∧
      ∃ pieces, Factors pieces (s.chars.takeWhile isSymbol) ∧
        (∀ pieces', Factors pieces' (s.chars.takeWhile isSymbol) → pieces' = pieces) ∧
        r.printed = printedFor pieces ++ if r.ret = 0 then text "EOF\n" else text "ERR\n" := by
  have whole : (s.chars ++ [0]).drop 0 = s.chars ++ [0] := rfl
  obtain ⟨r, e, sc⟩ := scanLoop_spec s.terminated whole (Nat.lt_succ_self _) []
  obtain ⟨ret, cursor, pieces, fac, out⟩ := sc
  have zero : r.ret = 0 ↔ s.chars.all isSymbol = true := by
    rw [ret]
    split
    · exact iff_of_true rfl ‹_›
    · exact iff_of_false (by decide) ‹_›
  refine ⟨r, e, ?_, fun ne => ⟨?_, ?_⟩, pieces, fac, fun _ fac' => fac.unique fac', ?_⟩
  · rw [zero, List.all_eq_true]
    simp only [isSymbol, decide_eq_true_eq]
  · rw [ret, if_neg (mt zero.mpr ne)]
  · cases rest : s.chars.dropWhile isSymbol with
    | nil =>
      exact absurd (List.all_eq_true.mpr (List.dropWhile_eq_nil_iff.mp rest)) (mt zero.mpr ne)
    | cons c rest' =>
      have other := List.head?_dropWhile_not isSymbol s.chars
      rw [rest] at other
      refine ⟨c, rest', ?_, by simpa [isSymbol] using other, ?_⟩
      · rw [← rest, List.takeWhile_append_dropWhile]
      · rw [cursor, List.length_append, List.length_singleton, Nat.zero_add]
  · rw [out, List.nil_append]
    simp only [zero]

end SweetClib.Re2c
