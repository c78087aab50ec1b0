import Mathlib.Computability.RegularExpressions
import Mathlib.Tactic

/-!
# Longest match

What a scanner generator makes of a list of rules: at every point of the input the longest part
ahead is taken that the pattern of some rule matches, and among the rules that match it the first
one (`munch`). The patterns are the regular expressions of Mathlib, with classes of characters
(`oneOf`).
-/

namespace SweetClib.Lib

variable {α β : Type}

/-- A class of characters. -/
def oneOf (cs : List α) : RegularExpression α := cs.foldr (fun c r => .char c + r) 0

/-- The words of a class have one letter. -/
lemma mem_oneOf {cs w : List α} : w ∈ (oneOf cs).matches' ↔ ∃ c ∈ cs, w = [c] := by
  induction cs with
  | nil => simp [oneOf]
  | cons a cs ih =>
    have single : w ∈ (RegularExpression.char a).matches' ↔ w = [a] := Iff.rfl
    rw [oneOf, List.foldr_cons, RegularExpression.matches'_add, Language.mem_add, ← oneOf, ih,
      single]
    simp

/-- The words of a class that is repeated. -/
lemma mem_star_oneOf {cs w : List α} : w ∈ (oneOf cs).star.matches' ↔ ∀ c ∈ w, c ∈ cs := by
  rw [RegularExpression.matches'_star, Language.mem_kstar]
  constructor
  · rintro ⟨ws, rfl, each⟩ c mem
    obtain ⟨v, mem_v, mem⟩ := List.mem_flatten.mp mem
    obtain ⟨d, mem_d, rfl⟩ := mem_oneOf.mp (each v mem_v)
    rwa [List.mem_singleton.mp mem]
  · intro all
    refine ⟨w.map fun c => [c], (List.flatMap_singleton' w).symm, ?_⟩
    intro v mem
    obtain ⟨c, mem_c, rfl⟩ := List.mem_map.mp mem
    exact mem_oneOf.mpr ⟨c, all c mem_c, rfl⟩

/-- A literal text. -/
def literal (v : List α) : RegularExpression α := v.foldr (fun c r => .char c * r) 1

/-- A rule of a scanner. -/
structure Rule (α β : Type) where
  pattern : RegularExpression α
  action : β

section Match

variable [DecidableEq α] {c : α} {cs w : List α} {r : RegularExpression α}

/-- A class, once. -/
lemma rmatch_oneOf : (oneOf cs).rmatch (c :: w) = true ↔ c ∈ cs ∧ w = [] := by
  rw [RegularExpression.rmatch_iff_matches', mem_oneOf]
  constructor
  · rintro ⟨d, mem, e⟩
    cases e
    exact ⟨mem, rfl⟩
  · rintro ⟨mem, rfl⟩
    exact ⟨c, mem, rfl⟩

/-- A class, any number of times. -/
lemma rmatch_star_oneOf : (oneOf cs).star.rmatch w = true ↔ ∀ c ∈ w, c ∈ cs := by
  rw [RegularExpression.rmatch_iff_matches', mem_star_oneOf]

/-- A class and a pattern match a character and what is behind it. -/
lemma rmatch_oneOf_mul : (oneOf cs * r).rmatch (c :: w) = true ↔ c ∈ cs ∧ r.rmatch w = true := by
  rw [RegularExpression.rmatch_iff_matches', RegularExpression.matches'_mul, Language.mem_mul,
    RegularExpression.rmatch_iff_matches']
  constructor
  · rintro ⟨u, mem_u, v, mem_v, e⟩
    obtain ⟨d, mem_d, rfl⟩ := mem_oneOf.mp mem_u
    cases e
    exact ⟨mem_d, mem_v⟩
  · rintro ⟨mem_c, mem_w⟩
    exact ⟨[c], mem_oneOf.mpr ⟨c, mem_c, rfl⟩, w, mem_w, rfl⟩

/-- A literal matches itself. -/
lemma rmatch_literal {v : List α} : (literal v).rmatch w = true ↔ w = v := by
  induction v generalizing w with
  | nil => exact RegularExpression.one_rmatch_iff w
  | cons a v ih =>
    rw [literal, List.foldr_cons, RegularExpression.mul_rmatch_iff, ← literal]
    constructor
    · rintro ⟨t, u, rfl, char, rest⟩
      rw [(RegularExpression.char_rmatch_iff a t).mp char, ih.mp rest]
      rfl
    · rintro rfl
      exact ⟨[a], v, rfl, (RegularExpression.char_rmatch_iff a [a]).mpr rfl, ih.mpr rfl⟩

/-- A class, once or more often. -/
lemma rmatch_some_oneOf :
    (oneOf cs * (oneOf cs).star).rmatch w = true ↔ w ≠ [] ∧ ∀ c ∈ w, c ∈ cs := by
  cases w with
  | nil =>
    refine iff_of_false (fun hit => ?_) (fun h => h.1 rfl)
    obtain ⟨t, u, e, first, -⟩ := (RegularExpression.mul_rmatch_iff _ _ _).mp hit
    rw [(List.append_eq_nil_iff.mp e.symm).1] at first
    obtain ⟨c, -, e⟩ := mem_oneOf.mp ((RegularExpression.rmatch_iff_matches' _ _).mp first)
    cases e
  | cons c w =>
    simp only [rmatch_oneOf_mul, rmatch_star_oneOf, ne_eq, reduceCtorEq, not_false_eq_true,
      true_and, List.forall_mem_cons]

end Match

variable [DecidableEq α]

/-- The action of the first rule that matches a text. -/
def firstRule (rules : List (Rule α β)) (w : List α) : Option β :=
  (rules.find? fun r => r.pattern.rmatch w).map Rule.action

/-- The first rule that matches is the first one, or is among the others. -/
lemma firstRule_cons (r : Rule α β) (rules : List (Rule α β)) (w : List α) :
    firstRule (r :: rules) w = if r.pattern.rmatch w = true then some r.action
      else firstRule rules w := by
  rw [firstRule, List.find?_cons]
  split
  · rename_i hit
    rw [if_pos hit]
    rfl
  · rename_i miss
    rw [if_neg (by rw [miss]; exact Bool.false_ne_true)]
    rfl

/-- Literal texts with one action. -/
lemma firstRule_literals (vs : List (List α)) (b : β) (rules : List (Rule α β)) (w : List α) :
    firstRule (vs.map (fun v => ⟨literal v, b⟩) ++ rules) w = if w ∈ vs then some b
      else firstRule rules w := by
  induction vs with
  | nil => rfl
  | cons v vs ih =>
    rw [List.map_cons, List.cons_append, firstRule_cons, ih]
    by_cases here : w = v
    · rw [if_pos (rmatch_literal.mpr here), if_pos (here ▸ List.mem_cons_self)]
    · rw [if_neg (mt rmatch_literal.mp here)]
      simp only [List.mem_cons, here, false_or]

/-- The longest match of at most so many characters and at least one, with its length. -/
def longestMatch (rules : List (Rule α β)) (s : List α) : Nat → Option (β × Nat)
  | 0 => none
  | n + 1 =>
    match firstRule rules (s.take (n + 1)) with
    | some b => some (b, n + 1)
    | none => longestMatch rules s n

/-- The longest match at the start of the input. -/
def munch (rules : List (Rule α β)) (s : List α) : Option (β × Nat) := longestMatch rules s s.length

/-- A match is the longest one when nothing longer matches. -/
lemma munch_eq {rules : List (Rule α β)} {w s : List α} {b : β} (ne : w ≠ [])
    (hit : firstRule rules w = some b)
    (longest : ∀ v, v ≠ [] → v <+: s → firstRule rules (w ++ v) = none) :
    munch rules (w ++ s) = some (b, w.length) := by
  have down : ∀ k ≤ s.length, longestMatch rules (w ++ s) (w.length + k) = some (b, w.length) := by
    intro k le
    induction k with
    | zero =>
      obtain ⟨n, e⟩ := Nat.exists_eq_succ_of_ne_zero (mt List.length_eq_zero_iff.mp ne)
      have here : firstRule rules ((w ++ s).take (n + 1)) = some b := by
        rw [← Nat.succ_eq_add_one, ← e, List.take_left]
        exact hit
      rw [Nat.add_zero, e, longestMatch, here]
    | succ k ih =>
      have more : firstRule rules ((w ++ s).take (w.length + k + 1)) = none := by
        rw [Nat.add_assoc, List.take_length_add_append]
        apply longest
        · intro empty
          have := congrArg List.length empty
          simp only [List.length_take, List.length_nil] at this
          omega
        · exact List.take_prefix _ _
      rw [← Nat.add_assoc, longestMatch, more]
      exact ih (by omega)
  rw [munch, List.length_append]
  exact down s.length le_rfl

end SweetClib.Lib
