import Mathlib.Tactic

/-!
# Cutting a list at the occurrences of a pattern

`cut p n 0 l` are the pieces of `l` when it is cut, from left to right, at the occurrences of the
pattern `p`, where `n` elements are dropped at each of them; for `n = p.length` these are the
pieces between the leftmost non-overlapping occurrences of `p`. `trimEnd` leaves out an empty piece
at the end, unless it is the only one. The scan meets an occurrence after the elements of `t` when
`Fresh p t v` and `p <+: v`: the pieces are then `t` and those of what follows the dropped elements
(`cut_first`).

* `cut_woven`: the pieces and the dropped elements, in turn, make up the list, and no piece
  contains the pattern.
* `trimEnd_cut_iff`: a pattern and a longer one cut a list in the same way exactly when the scan
  for the longer one meets the shorter one only at the start of the longer one.
-/

namespace SweetClib.Lib

variable {α : Type*}

/-- The scan for `q`, which drops `n` elements at each occurrence, meets the rest `v` of the
list. -/
inductive Met (q : List α) (n : Nat) (s : List α) : List α → Prop where
  | here :
    Met q n s s
  | next {x l} :
    Met q n s (x :: l) →
    ¬ q <+: x :: l →
    Met q n s l
  | jump {v} :
    Met q n s v →
    q <+: v →
    Met q n s (v.drop n)

/-- No occurrence of `p` in `t ++ v` starts within `t`. -/
def Fresh (p : List α) : List α → List α → Prop
  | [], _ => True
  | x :: t, v => ¬ p <+: x :: (t ++ v) ∧ Fresh p t v

variable {p q t v l s : List α} {n : Nat}

/-- What the scan of a rest meets, the scan of the list meets. -/
lemma Met.trans (met : Met q n s v) (later : Met q n v l) : Met q n s l := by
  induction later with
  | here => exact met
  | next _ miss ih => exact .next ih miss
  | jump _ hit ih => exact .jump ih hit

/-- The part before the first occurrence does not contain the pattern. -/
lemma Fresh.not_infix (fresh : Fresh p t v) (ne : p ≠ []) : ¬ p <:+: t := by
  induction t with
  | nil =>
    intro inside
    exact ne (List.infix_nil.mp inside)
  | cons x t ih =>
    intro inside
    rcases List.infix_cons_iff.mp inside with start | later
    · apply fresh.1
      exact start.trans (List.prefix_append (x :: t) v)
    · exact ih fresh.2 later

variable [DecidableEq α]

/-- The pieces of a list cut at the occurrences of `p`, dropping `n` elements at each; the first
argument after these is how many elements are still to be dropped. -/
def cut (p : List α) (n : Nat) : Nat → List α → List (List α)
  | _, [] => [[]]
  | k + 1, _ :: l => cut p n k l
  | 0, x :: l => if p <+: x :: l then [] :: cut p n (n - 1) l else (cut p n 0 l).modifyHead (x :: ·)

/-- Leave out an empty piece at the end, unless it is the only one. -/
def trimEnd : List (List α) → List (List α)
  | [] => []
  | t :: ts => t :: if ts.getLast? = some [] then ts.dropLast else ts

/-- Elements that are still to be dropped are dropped. -/
lemma cut_drop (k : Nat) : cut p n k l = cut p n 0 (l.drop k) := by
  induction l generalizing k with
  | nil =>
    rw [List.drop_nil]
    cases k <;> rfl
  | cons x l ih =>
    cases k with
    | zero => rfl
    | succ k =>
      rw [cut, ih, List.drop_succ_cons]

/-- A piece is a part of the list. -/
lemma sublist_of_cut {k : Nat} (mem : t ∈ cut p n k l) : t.Sublist l := by
  induction l generalizing k t with
  | nil =>
    have only : t = [] := by
      cases k <;> simpa [cut] using mem
    rw [only]
  | cons x l ih =>
    cases k with
    | succ k => exact (ih mem).cons x
    | zero =>
      rw [cut] at mem
      split at mem
      · rcases List.mem_cons.mp mem with rfl | mem
        · exact List.nil_sublist _
        · exact (ih mem).cons x
      · -- the first piece starts with the element
        cases pieces : cut p n 0 l with
        | nil => simp [pieces] at mem
        | cons u us =>
          rw [pieces, List.modifyHead_cons] at mem
          rcases List.mem_cons.mp mem with rfl | mem
          · exact (ih (by rw [pieces]; exact List.mem_cons_self)).cons_cons x
          · exact (ih (by rw [pieces]; exact List.mem_cons_of_mem u mem)).cons x

/-- No piece is added at the end. -/
lemma mem_of_mem_trimEnd {ts : List (List α)} (mem : t ∈ trimEnd ts) : t ∈ ts := by
  cases ts with
  | nil => cases mem
  | cons u us =>
    rw [trimEnd] at mem
    rcases List.mem_cons.mp mem with rfl | mem
    · exact List.mem_cons_self
    · apply List.mem_cons_of_mem
      split at mem
      · exact List.mem_of_mem_dropLast mem
      · exact mem

lemma cut_hit (hit : p <+: v) (ne : p ≠ []) (pos : 1 ≤ n) :
    cut p n 0 v = [] :: cut p n 0 (v.drop n) := by
  cases v with
  | nil => exact absurd (List.prefix_nil.mp hit) ne
  | cons x l =>
    obtain ⟨m, rfl⟩ := Nat.exists_eq_succ_of_ne_zero (Nat.one_le_iff_ne_zero.mp pos)
    rw [cut, if_pos hit, Nat.succ_sub_one, cut_drop, List.drop_succ_cons]

/-- The first piece ends at the first occurrence. -/
lemma cut_first (fresh : Fresh p t v) (hit : p <+: v) (ne : p ≠ []) (pos : 1 ≤ n) :
    cut p n 0 (t ++ v) = t :: cut p n 0 (v.drop n) := by
  induction t with
  | nil => exact cut_hit hit ne pos
  | cons x t ih =>
    rw [List.cons_append, cut, if_neg fresh.1, ih fresh.2, List.modifyHead_cons]

/-- Without an occurrence there is one piece. -/
lemma cut_none (fresh : Fresh p l []) : cut p n 0 l = [l] := by
  induction l with
  | nil => rfl
  | cons x l ih =>
    have miss := fresh.1
    rw [List.append_nil] at miss
    rw [cut, if_neg miss, ih fresh.2, List.modifyHead_cons]

/-- A list has a first occurrence or none. -/
lemma first_occurrence (p l : List α) :
    (∃ t v, l = t ++ v ∧ Fresh p t v ∧ p <+: v) ∨ Fresh p l [] := by
  induction l with
  | nil => exact .inr trivial
  | cons x l ih =>
    by_cases hit : p <+: x :: l
    · exact .inl ⟨[], x :: l, rfl, trivial, hit⟩
    · rcases ih with ⟨t, v, rfl, fresh, later⟩ | fresh
      · exact .inl ⟨x :: t, v, rfl, ⟨hit, fresh⟩, later⟩
      · refine .inr ⟨?_, fresh⟩
        rw [List.append_nil]
        exact hit

lemma cut_ne_nil (k : Nat) (l : List α) : cut p n k l ≠ [] := by
  induction l generalizing k with
  | nil =>
    cases k <;> exact List.cons_ne_nil _ _
  | cons x l ih =>
    cases k with
    | succ k => exact ih k
    | zero =>
      rw [cut]
      split
      · exact List.cons_ne_nil _ _
      · rw [ne_eq, List.modifyHead_eq_nil_iff]
        exact ih 0

/-- Only the empty list has just an empty piece. -/
lemma cut_ne_empty (ne : l ≠ []) (pne : p ≠ []) (pos : 1 ≤ n) : cut p n 0 l ≠ [[]] := by
  intro e
  rcases first_occurrence p l with ⟨t, v, rfl, fresh, hit⟩ | fresh
  · rw [cut_first fresh hit pne pos] at e
    exact cut_ne_nil 0 (v.drop n) (List.cons.inj e).2
  · rw [cut_none fresh] at e
    exact ne (List.cons.inj e).1

/-- What is left out at the end is left out behind the first piece. -/
lemma trimEnd_cons {ts : List (List α)} (ne : ts ≠ []) (one : ts ≠ [[]]) :
    trimEnd (t :: ts) = t :: trimEnd ts := by
  rcases ts with _ | ⟨t', _ | ⟨t'', ts⟩⟩
  · exact absurd rfl ne
  · have full : t' ≠ [] := fun e => one (by rw [e])
    simp [trimEnd, full]
  · simp only [trimEnd, List.getLast?_cons_cons, List.dropLast_cons_cons]
    split <;> rfl

/-- The pieces up to and behind the first occurrence. -/
lemma trimEnd_cut_first (fresh : Fresh p t v) (hit : p <+: v) (ne : p ≠ []) (pos : 1 ≤ n) :
    trimEnd (cut p n 0 (t ++ v)) = t :: if v.drop n = [] then []
      else trimEnd (cut p n 0 (v.drop n)) := by
  rw [cut_first fresh hit ne pos]
  split
  next e =>
    rw [e]
    rfl
  next rest => rw [trimEnd_cons (cut_ne_nil 0 _) (cut_ne_empty rest ne pos)]

/-- The pieces of a list and what is dropped between them. -/
structure Woven (p : List α) (n : Nat) (l : List α) (front : List (List α)) (gaps : List (List α))
    (last final : List α) : Prop where
  pairs : gaps.length = front.length
  all : l = (List.zipWith (· ++ ·) front gaps).flatten ++ last ++ final
  gap : ∀ g ∈ gaps, p <+: g ∧ g.length = n
  final : final = [] ∨ p <+: final ∧ final.length ≤ n
  piece : ∀ t ∈ front ++ [last], ¬ p <:+: t

/-- The pieces and what is dropped, in turn, make up the list. -/
lemma cut_woven (ne : p ≠ []) (le : p.length ≤ n) (l : List α) :
    ∃ front gaps last final, trimEnd (cut p n 0 l) = front ++ [last] ∧
      Woven p n l front gaps last final := by
  have pos : 1 ≤ n := le_trans (List.length_pos_iff.mpr ne) le
  induction hlen : l.length using Nat.strong_induction_on generalizing l with
  | _ m ih =>
    rcases first_occurrence p l with ⟨t, v, rfl, fresh, hit⟩ | fresh
    · have clean : ¬ p <:+: t := fresh.not_infix ne
      rw [trimEnd_cut_first fresh hit ne pos]
      by_cases rest : v.drop n = []
      · -- the dropped elements reach the end
        rw [if_pos rest]
        have short : v.length ≤ n := List.drop_eq_nil_iff.mp rest
        refine ⟨[], [], t, v, rfl, rfl, rfl, ?_, .inr ⟨hit, short⟩, ?_⟩
        · intro g mem
          cases mem
        · intro t' mem
          rw [List.mem_singleton.mp mem]
          exact clean
      · rw [if_neg rest]
        have long : n < v.length := by
          by_contra le
          exact rest (List.drop_eq_nil_iff.mpr (by omega))
        have smaller : (v.drop n).length < m := by
          rw [← hlen, List.length_drop, List.length_append]
          omega
        obtain ⟨front, gaps, last, final, pieces, woven⟩ := ih _ smaller (v.drop n) rfl
        refine ⟨t :: front, v.take n :: gaps, last,
          final, by rw [pieces]; rfl, ?_, ?_, ?_, woven.final, ?_⟩
        · rw [List.length_cons, List.length_cons, woven.pairs]
        · rw [List.zipWith_cons_cons, List.flatten_cons, List.append_assoc, List.append_assoc,
            List.append_assoc, ← List.append_assoc _ last, ← woven.all, List.take_append_drop]
        · intro g mem
          rcases List.mem_cons.mp mem with rfl | mem
          · refine ⟨?_, by rw [List.length_take]; omega⟩
            exact List.prefix_take_iff.mpr ⟨hit, le⟩
          · exact woven.gap g mem
        · intro t' mem
          rcases List.mem_cons.mp mem with rfl | mem
          · exact clean
          · exact woven.piece t' mem
    · rw [cut_none fresh]
      refine ⟨[], [], l, [], rfl, rfl, by simp, ?_, .inl rfl, ?_⟩
      · intro g mem
        cases mem
      · intro t mem
        rw [List.mem_singleton.mp mem]
        exact fresh.not_infix ne

/-- The shorter pattern cuts as the longer one does. -/
lemma cut_congr (pre : p <+: q) (ne : p ≠ []) (pos : 1 ≤ n) (s : List α)
    (only : ∀ v, Met q n s v → p <+: v → q <+: v) : cut p n 0 s = cut q n 0 s := by
  have qne : q ≠ [] := by
    rintro rfl
    exact ne (List.prefix_nil.mp pre)
  induction hlen : s.length using Nat.strong_induction_on generalizing s with
  | _ m ih =>
    cases s with
    | nil => rfl
    | cons x s =>
      have rest : ∀ v, v.length < m → Met q n (x :: s) v → cut p n 0 v = cut q n 0 v := by
        intro v lt met
        exact ih _ lt v (fun u met' => only u (met.trans met')) rfl
      by_cases hit : q <+: x :: s
      · have smaller : ((x :: s).drop n).length < m := by
          rw [← hlen, List.length_drop, List.length_cons]
          omega
        rw [cut_hit hit qne pos, cut_hit (pre.trans hit) ne pos, rest _ smaller (.jump .here hit)]
      · have miss : ¬ p <+: x :: s := fun start => hit (only _ .here start)
        have smaller : s.length < m := by
          rw [← hlen, List.length_cons]
          omega
        rw [cut, if_neg miss, cut, if_neg hit, rest s smaller (.next .here hit)]

/-- The scans for `p` and for `q` are at the rest `v`, have passed the same elements `u` since the
last cut, and end up with the same pieces. -/
def Agree (p q : List α) (n : Nat) (v : List α) : Prop :=
  ∃ u, trimEnd ((cut p n 0 v).modifyHead (u ++ ·)) = trimEnd ((cut q n 0 v).modifyHead (u ++ ·))

/-- Scans that agree do not meet the one pattern without the other: its piece would end there, and
that of the other scan would go on. -/
lemma Agree.whole (agree : Agree p q n v) (ne : p ≠ []) (pos : 1 ≤ n) (start : p <+: v) :
    q <+: v := by
  obtain ⟨u, same⟩ := agree
  by_contra miss
  cases v with
  | nil => exact ne (List.prefix_nil.mp start)
  | cons x l =>
    obtain ⟨w, ws, first⟩ := List.exists_cons_of_ne_nil (cut_ne_nil (p := q) (n := n) 0 l)
    rw [cut_hit start ne pos, cut, if_neg miss, first] at same
    have head : u = u ++ x :: w := by
      simpa [trimEnd] using congrArg List.head? same
    simpa using congrArg List.length head

/-- Scans that agree at the start agree wherever they come. -/
lemma Met.agree (met : Met q n s v) (pre : p <+: q) (ne : p ≠ []) (pos : 1 ≤ n)
    (same : trimEnd (cut p n 0 s) = trimEnd (cut q n 0 s)) : Agree p q n v := by
  induction met with
  | here =>
    refine ⟨[], ?_⟩
    obtain ⟨t, ts, first⟩ := List.exists_cons_of_ne_nil (cut_ne_nil (p := p) (n := n) 0 s)
    obtain ⟨u, us, first'⟩ := List.exists_cons_of_ne_nil (cut_ne_nil (p := q) (n := n) 0 s)
    rw [first, first'] at same ⊢
    exact same
  | @next x l _ miss ih =>
    have miss' : ¬ p <+: x :: l := fun start => miss (ih.whole ne pos start)
    obtain ⟨u, same⟩ := ih
    refine ⟨u ++ [x], ?_⟩
    rw [cut, if_neg miss', cut, if_neg miss, List.modifyHead_modifyHead,
      List.modifyHead_modifyHead] at same
    simpa [Function.comp_def] using same
  | @jump v _ hit ih =>
    have qne : q ≠ [] := by
      rintro rfl
      exact ne (List.prefix_nil.mp pre)
    by_cases rest : v.drop n = []
    · exact ⟨[], by rw [rest]; rfl⟩
    · obtain ⟨u, same⟩ := ih
      rw [cut_hit (pre.trans hit) ne pos, cut_hit hit qne pos, List.modifyHead_cons,
        List.modifyHead_cons, trimEnd_cons (cut_ne_nil 0 _) (cut_ne_empty rest ne pos),
        trimEnd_cons (cut_ne_nil 0 _) (cut_ne_empty rest qne pos)] at same
      refine ⟨[], ?_⟩
      obtain ⟨t, ts, first⟩ :=
        List.exists_cons_of_ne_nil (cut_ne_nil (p := p) (n := n) 0 (v.drop n))
      obtain ⟨w, ws, first'⟩ :=
        List.exists_cons_of_ne_nil (cut_ne_nil (p := q) (n := n) 0 (v.drop n))
      rw [first, first'] at same ⊢
      exact (List.cons.inj same).2

/-- A pattern and a longer one give the same pieces exactly when the scan for the longer one meets
the shorter one only with the longer one. -/
lemma trimEnd_cut_iff (pre : p <+: q) (ne : p ≠ []) (pos : 1 ≤ n) (s : List α) :
    trimEnd (cut p n 0 s) = trimEnd (cut q n 0 s) ↔ ∀ v, Met q n s v → p <+: v → q <+: v := by
  constructor
  · intro same v met start
    exact (met.agree pre ne pos same).whole ne pos start
  · intro only
    rw [cut_congr pre ne pos s only]

end SweetClib.Lib
