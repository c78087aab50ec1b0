import Mathlib.Data.List.SplitBy
import SweetClib.Lib.Munch
import SweetClib.Lib.Print

/-!
# The scanner of verbs

Model of `lex/02.l`: the scanner prints a line for every word of its input that says whether it is
one of nineteen verbs, drops blanks and tabs, and copies everything else. The rules have the
meaning of the generator, `Lib.munch`: a verb that is the beginning of a longer word is not taken
for itself, and a word that two rules match is a verb.

The input is cut into whole words, whole runs of blanks and single other characters (`joined`), and
the scanner prints what is shown for these pieces (`yylex_output`).
-/

namespace SweetClib.Lex
open Lib

/-- The actions of the rules; the first one is empty. -/
inductive Action where
  | skip
  | verb
  | notVerb
  | echo
  deriving DecidableEq

/-- What an action prints for the text that was matched. -/
def Action.print (yytext : List UInt8) : Action → List UInt8
  | .skip => []
  | .verb => yytext ++ text ": is a verb\n"
  | .notVerb => yytext ++ text ": is not a verb\n"
  | .echo => yytext

/-- The class `[\t ]`. -/
def blanks : List UInt8 := [9, 32]

/-- The class `[a-zA-Z]`. -/
def letters : List UInt8 := text "abcdefghijklmnopqrstuvwxyzABCDEFGHIJKLMNOPQRSTUVWXYZ"

/-- The class `.`, of all characters but the newline. -/
def dot : List UInt8 := ((List.range 256).map UInt8.ofNat).filter (· ≠ 10)

/-- The words of the first rule. -/
def verbs : List (List UInt8) :=
  ["is", "am", "are", "were", "was", "be", "being", "do", "dose", "did", "will", "would", "should",
    "can", "could", "has", "have", "had", "go"].map text

/-- A word of the first rule. -/
def isVerb (w : List UInt8) : Bool := verbs.contains w

/-- The rules, in their order. -/
def rules : List (Rule UInt8 Action) :=
  ⟨oneOf blanks * (oneOf blanks).star, .skip⟩ ::
    (verbs.map (fun v => ⟨literal v, .verb⟩) ++
      [⟨oneOf letters * (oneOf letters).star, .notVerb⟩, ⟨oneOf dot + oneOf [10], .echo⟩])

/-- So many rounds of `yylex`, with the input that is left and what was printed. -/
def yylexLoop : Nat → List UInt8 → List UInt8 → Option (List UInt8)
  | 0, _, _ => none
  -- `yywrap` returns 1 at the end of the input
  | _ + 1, [], printed => some printed
  | rounds + 1, c :: s, printed =>
    match munch rules (c :: s) with
    -- the default rule
    | none => yylexLoop rounds s (printed ++ [c])
    | some (action, n) =>
      yylexLoop rounds ((c :: s).drop n) (printed ++ action.print ((c :: s).take n))

/-- What `yylex` prints for an input. -/
def yylex (input : List UInt8) : Option (List UInt8) := yylexLoop (input.length + 1) input []

/-- Two neighbours that belong to one piece. -/
def joined (a b : UInt8) : Bool := a ∈ blanks && b ∈ blanks || a ∈ letters && b ∈ letters

/-- All characters of a text are of a class. -/
def allIn (cs w : List UInt8) : Bool := w.all (· ∈ cs)

/-- The action for a text that some rule matches. -/
def classify (w : List UInt8) : Option Action :=
  if w ≠ [] ∧ allIn blanks w then some .skip
  else if isVerb w then some .verb
  else if w ≠ [] ∧ allIn letters w then some .notVerb
  else if w.length = 1 then some .echo
  else none

/-- What is shown for a piece. -/
def shown (t : List UInt8) : List UInt8 :=
  if allIn blanks t then []
  else if allIn letters t then t ++ text (if isVerb t then ": is a verb\n" else ": is not a verb\n")
  else t

section Rules

/-- The test is membership. -/
lemma isVerb_iff {w : List UInt8} : isVerb w = true ↔ w ∈ verbs := List.contains_iff_mem

/-- The test is about every character. -/
lemma allIn_iff {cs w : List UInt8} : allIn cs w = true ↔ ∀ c ∈ w, c ∈ cs := by
  simp only [allIn, List.all_eq_true, decide_eq_true_eq]

/-- The verbs are words of letters. -/
lemma verbs_letters : ∀ v ∈ verbs, v ≠ [] ∧ ∀ c ∈ v, c ∈ letters := by decide +kernel

/-- A blank is not a letter. -/
lemma blanks_letters : ∀ c ∈ blanks, c ∉ letters := by decide +kernel

/-- The last rule matches every character. -/
lemma rmatch_any {w : List UInt8} : (oneOf dot + oneOf [10]).rmatch w = true ↔ w.length = 1 := by
  rw [RegularExpression.add_rmatch_iff, RegularExpression.rmatch_iff_matches',
    RegularExpression.rmatch_iff_matches', mem_oneOf, mem_oneOf, List.length_eq_one_iff]
  constructor
  · rintro (⟨c, -, e⟩ | ⟨c, -, e⟩)
    · exact ⟨c, e⟩
    · exact ⟨c, e⟩
  · rintro ⟨c, rfl⟩
    by_cases newline : c = 10
    · exact .inr ⟨c, List.mem_singleton.mpr newline, rfl⟩
    · refine .inl ⟨c, List.mem_filter.mpr ⟨?_, decide_eq_true newline⟩, rfl⟩
      exact List.mem_map.mpr ⟨c.toNat, List.mem_range.mpr c.toNat_lt, UInt8.ofNat_toNat⟩

/-- The first rule that matches a text. -/
lemma firstRule_rules (w : List UInt8) : firstRule rules w = classify w := by
  have last : firstRule ([] : List (Rule UInt8 Action)) w = none := rfl
  simp only [rules, firstRule_cons, firstRule_literals, rmatch_some_oneOf, rmatch_any, last,
    classify, isVerb_iff, allIn_iff]

/-- No rule matches a text of several characters with one that is no blank and one that is no
letter. -/
lemma classify_mixed {w : List UInt8} {b l : UInt8} (mem_b : b ∈ w) (blank : b ∉ blanks)
    (mem_l : l ∈ w) (letter : l ∉ letters) (several : w.length ≠ 1) : classify w = none := by
  have word : ¬ ∀ c ∈ w, c ∈ letters := fun all => letter (all l mem_l)
  rw [classify, if_neg (fun h => blank (allIn_iff.mp h.2 b mem_b)),
    if_neg (fun verb => word (verbs_letters w (isVerb_iff.mp verb)).2),
    if_neg (fun h => word (allIn_iff.mp h.2)), if_neg several]

end Rules

section Pieces

variable {s t : List UInt8}

/-- Two characters that belong to one match. -/
lemma joined_iff {a b : UInt8} :
    joined a b = true ↔ a ∈ blanks ∧ b ∈ blanks ∨ a ∈ letters ∧ b ∈ letters := by
  simp only [joined, Bool.or_eq_true, Bool.and_eq_true, decide_eq_true_eq]

/-- A piece is a run of blanks, a word, or another character. -/
lemma piece_cases (ne : t ≠ []) (chain : t.IsChain fun a b => joined a b = true) :
    (∀ c ∈ t, c ∈ blanks) ∨ (∀ c ∈ t, c ∈ letters) ∨ ∃ c, t = [c] ∧ c ∉ blanks ∧ c ∉ letters := by
  induction t with
  | nil => exact absurd rfl ne
  | cons a t ih =>
    cases t with
    | nil =>
      by_cases blank : a ∈ blanks
      · exact .inl (List.forall_mem_singleton.mpr blank)
      · by_cases letter : a ∈ letters
        · exact .inr (.inl (List.forall_mem_singleton.mpr letter))
        · exact .inr (.inr ⟨a, rfl, blank, letter⟩)
    | cons b t =>
      obtain ⟨first, chain⟩ := List.isChain_cons_cons.mp chain
      obtain ⟨blank, blank'⟩ | ⟨letter, letter'⟩ := joined_iff.mp first
      · obtain all | all | ⟨c, e, no, -⟩ := ih (List.cons_ne_nil b t) chain
        · exact .inl (List.forall_mem_cons.mpr ⟨blank, all⟩)
        · exact absurd (all b List.mem_cons_self) (blanks_letters b blank')
        · exact absurd ((List.cons.inj e).1 ▸ blank') no
      · obtain all | all | ⟨c, e, -, no⟩ := ih (List.cons_ne_nil b t) chain
        · exact absurd letter' (blanks_letters b (all b List.mem_cons_self))
        · exact .inr (.inl (List.forall_mem_cons.mpr ⟨letter, all⟩))
        · exact absurd ((List.cons.inj e).1 ▸ letter') no

/-- Some rule matches a piece, and prints what is shown for it. -/
lemma classify_piece (ne : t ≠ []) (chain : t.IsChain fun a b => joined a b = true) :
    ∃ action, classify t = some action ∧ action.print t = shown t := by
  by_cases blank : allIn blanks t = true
  · exact ⟨.skip, if_pos ⟨ne, blank⟩, (if_pos blank).symm⟩
  · have start : ¬ (t ≠ [] ∧ allIn blanks t = true) := fun h => blank h.2
    by_cases verb : isVerb t = true
    · refine ⟨.verb, by rw [classify, if_neg start, if_pos verb], ?_⟩
      rw [shown, if_neg blank, if_pos (allIn_iff.mpr (verbs_letters t (isVerb_iff.mp verb)).2),
        if_pos verb]
      rfl
    · by_cases letter : allIn letters t = true
      · refine ⟨.notVerb, by rw [classify, if_neg start, if_neg verb, if_pos ⟨ne, letter⟩], ?_⟩
        rw [shown, if_neg blank, if_pos letter, if_neg verb]
        rfl
      · obtain all | all | ⟨c, rfl, -, -⟩ := piece_cases ne chain
        · exact absurd (allIn_iff.mpr all) blank
        · exact absurd (allIn_iff.mpr all) letter
        · refine ⟨.echo, by
            rw [classify, if_neg start, if_neg verb, if_neg (fun h => letter h.2)]; rfl, ?_⟩
          rw [shown, if_neg blank, if_neg letter]
          rfl

/-- No rule matches a piece with something behind it that does not belong to it. -/
lemma classify_longer (ne : t ≠ []) (chain : t.IsChain fun a b => joined a b = true) {d : UInt8}
    (apart : joined (t.getLast ne) d = false) (v : List UInt8) : classify (t ++ d :: v) = none := by
  have several : (t ++ d :: v).length ≠ 1 := by
    have := List.length_pos_of_ne_nil ne
    rw [List.length_append, List.length_cons]
    omega
  have last : t.getLast ne ∈ t ++ d :: v := List.mem_append_left _ (List.getLast_mem ne)
  have next : d ∈ t ++ d :: v := List.mem_append_right _ List.mem_cons_self
  have no : ¬ (t.getLast ne ∈ blanks ∧ d ∈ blanks ∨ t.getLast ne ∈ letters ∧ d ∈ letters) := by
    rw [← joined_iff, apart]
    exact Bool.false_ne_true
  obtain all | all | ⟨c, rfl, blank, letter⟩ := piece_cases ne chain
  · have blank := all _ (List.getLast_mem ne)
    exact classify_mixed next (fun h => no (.inl ⟨blank, h⟩)) last (blanks_letters _ blank) several
  · have letter := all _ (List.getLast_mem ne)
    exact classify_mixed last (fun h => blanks_letters _ h letter)
      next (fun h => no (.inr ⟨letter, h⟩)) several
  · exact classify_mixed last blank last letter several

/-- The longest match is a whole piece. -/
lemma munch_piece (ne : t ≠ []) (chain : t.IsChain fun a b => joined a b = true)
    (apart : ∀ d, s.head? = some d → joined (t.getLast ne) d = false) :
    ∃ action : Action, munch rules (t ++ s) = some (action, t.length) ∧
      action.print t = shown t := by
  obtain ⟨action, hit, print⟩ := classify_piece ne chain
  refine ⟨action, munch_eq ne ((firstRule_rules t).trans hit) fun v ne' pre => ?_, print⟩
  obtain ⟨d, v, rfl⟩ := List.exists_cons_of_ne_nil ne'
  obtain ⟨s', rfl⟩ := pre
  rw [firstRule_rules]
  exact classify_longer ne chain (apart d rfl) v

/-- The rounds of `yylex` take one piece after the other. -/
lemma yylexLoop_pieces {pieces : List (List UInt8)} (ne : ∀ t ∈ pieces, t ≠ [])
    (chain : ∀ t ∈ pieces, t.IsChain fun a b => joined a b = true)
    (apart : pieces.IsChain fun t u => ∃ ht hu, joined (t.getLast ht) (u.head hu) = false)
    {rounds : Nat} (enough : pieces.flatten.length < rounds) (printed : List UInt8) :
    yylexLoop rounds pieces.flatten printed = some (printed ++ pieces.flatMap shown) := by
  induction pieces generalizing rounds printed with
  | nil =>
    obtain ⟨rounds, rfl⟩ := Nat.exists_eq_succ_of_ne_zero (Nat.ne_of_gt (Nat.zero_lt_of_lt enough))
    rw [List.flatMap_nil, List.append_nil]
    rfl
  | cons t pieces ih =>
    obtain ⟨rounds, rfl⟩ := Nat.exists_eq_succ_of_ne_zero (Nat.ne_of_gt (Nat.zero_lt_of_lt enough))
    obtain ⟨ne_t, ne'⟩ := List.forall_mem_cons.mp ne
    obtain ⟨chain_t, chain'⟩ := List.forall_mem_cons.mp chain
    obtain ⟨apart_t, apart'⟩ := List.isChain_cons.mp apart
    have next : ∀ d, pieces.flatten.head? = some d → joined (t.getLast ne_t) d = false := by
      intro d first
      cases pieces with
      | nil => cases first
      | cons u pieces =>
        obtain ⟨_, hu, no⟩ := apart_t u rfl
        obtain ⟨e, u, rfl⟩ := List.exists_cons_of_ne_nil hu
        obtain rfl : e = d := Option.some.inj first
        exact no
    obtain ⟨action, hit, print⟩ := munch_piece ne_t chain_t next
    have pos := List.length_pos_of_ne_nil ne_t
    rw [List.flatten_cons, List.length_append] at enough
    obtain ⟨c, t, rfl⟩ := List.exists_cons_of_ne_nil ne_t
    rw [List.flatten_cons, List.cons_append, yylexLoop, ← List.cons_append, hit]
    dsimp only
    rw [List.drop_left, List.take_left, print, ih ne' chain' apart' (by omega), List.flatMap_cons,
      List.append_assoc]

end Pieces

/-- For every input `yylex` comes to its end. It prints, in order, what is shown for the whole
words, the whole runs of blanks and the other characters of the input: a word is never cut, not
even behind a verb, and is called a verb exactly if all of it is one. -/
theorem yylex_output (input : List UInt8) :
    yylex input = some ((input.splitBy joined).flatMap shown) := by
  have enough : (input.splitBy joined).flatten.length < input.length + 1 := by
    rw [List.flatten_splitBy]
    exact Nat.lt_succ_self _
  have run := yylexLoop_pieces (fun t mem => List.ne_nil_of_mem_splitBy mem)
    (fun t mem => List.isChain_of_mem_splitBy mem) (List.isChain_getLast_head_splitBy joined input)
      enough []
  rwa [List.flatten_splitBy, List.nil_append] at run

example : yylex (text "do going.") = some (text "do: is a verb\ngoing: is not a verb\n.") := by
  decide +kernel

end SweetClib.Lex
