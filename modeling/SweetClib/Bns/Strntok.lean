import SweetClib.Lib.Text
import SweetClib.Lib.Split

/-!
# The tokenizer of the exporters

Model of `strntok` in `lib/app/bns/bns_util.c` (`lib/util/strntok.c` is the same text) and of the
loops that call it until it returns the null pointer. The pointer `s1` is what is still ahead of
the string, and the look at `s1[1]` and `s2[1]`, for which the source steps both pointers forth and
back, reads the next character. The result is the static buffer `res`, which is cleared on every
call, and `__strntok`. The array `tmp` is cleared and never used.

C → Lean naming: `strntok` keeps its name, its loop is `strntokLoop`; `strntokAll` collects the
tokens a caller reads, `strntokEach` is a caller's loop, and a number bounds the calls.

The loop starts to skip at the first two characters of the delimiter and never compares the others:
a call takes the text up to the next occurrence of these two characters and drops as many
characters as the delimiter has (`strntokLoop_hit`), so that the tokens are the pieces of the text
cut in this way (`strntokAll_eq`).
-/

namespace SweetClib.Bns
open SweetClib.Lib

/-- The character at an index of a string, the terminator included (C `s[i]`). -/
def charAt (s : List UInt8) (i : Nat) : Option UInt8 := (s ++ [0])[i]?

@[simp] lemma charAt_nil : charAt [] 0 = some 0 := rfl

@[simp] lemma charAt_zero (c : UInt8) (s : List UInt8) : charAt (c :: s) 0 = some c := rfl

@[simp] lemma charAt_succ (c : UInt8) (s : List UInt8) (i : Nat) :
    charAt (c :: s) (i + 1) = charAt s i := rfl

/-- The size of the result buffer. -/
def RES_SIZE : Nat := 1024

/-- The loop of `strntok`; `pp` is the index of the next character of `res`. -/
def strntokLoop (s2 : List UInt8) (n : Nat) :
    List UInt8 → Nat → Buf → Nat → Option (Buf × Option (List UInt8))
  | [], _, res, _ => some (res, none)
  | c :: s1, i, res, pp =>
    if i = n then some (res, some (c :: s1))
    else do
      let d ← charAt s2 0
      if c = d ∨ i > 0 then
        if i = 0 then
          let c' ← charAt s1 0
          let d' ← charAt s2 1
          if c' ≠ d' ∧ n > 1 then
            -- no delimiter: the counter is stepped down and up again
            let res ← res.put pp c
            strntokLoop s2 n s1 0 res (pp + 1)
          else strntokLoop s2 n s1 1 res pp
        else strntokLoop s2 n s1 (i + 1) res pp
      else
        let res ← res.put pp c
        strntokLoop s2 n s1 i res (pp + 1)

/-- The next token of `s1`, and `__strntok` afterwards (C `strntok`); `save` is `__strntok`
before. -/
def strntok (s1 : Option (List UInt8)) (s2 : List UInt8) (n : Nat) (save : Option (List UInt8)) :
    Option (Option Buf × Option (List UInt8)) :=
  match s1 with
  | none => some (none, save)
  | some s1 => (strntokLoop s2 n s1 0 (List.replicate RES_SIZE 0) 0).map fun r => (some r.1, r.2)

/-- The tokens of `strntok(s1, s2, n)` and `strntok(__strntok, s2, n)` up to the null pointer, for
at most so many calls. -/
def strntokAll (s2 : List UInt8) (n : Nat) : Nat → Option (List UInt8) → Option (List (List UInt8))
  | 0, _ => none
  | calls + 1, s1 => do
    let r ← strntok s1 s2 n none
    match r.1 with
    | none => return []
    | some res =>
      let token ← res.str
      let tokens ← strntokAll s2 n calls r.2
      return token :: tokens

/-- The loop `while (ptr != NULL)` over the tokens, with `body` for what is done with each; the
first argument behind it bounds the calls. -/
def strntokEach {σ : Type} (s2 : List UInt8) (n : Nat) (body : List UInt8 → σ → Option σ) :
    Nat → Option (List UInt8) → σ → Option σ
  | 0, _, _ => none
  | calls + 1, s1, st => do
    let r ← strntok s1 s2 n none
    match r.1 with
    | none => return st
    | some res =>
      let token ← res.str
      let st ← body token st
      strntokEach s2 n body calls r.2 st

/-- The characters `strntok` looks at: the first two of the delimiter. -/
def opening (d : CStr) : List UInt8 := d.chars.take 2

/-- The text cut at every occurrence of the opening, dropping as many characters as the delimiter
has. -/
def tokens (d : CStr) (s : List UInt8) : List (List UInt8) :=
  trimEnd (cut (opening d) d.chars.length 0 s)

/-- The pieces of the text cut at the leftmost non-overlapping occurrences of the delimiter. -/
def pieces (d : CStr) (s : List UInt8) : List (List UInt8) :=
  trimEnd (cut d.chars d.chars.length 0 s)

section Loop

variable {d : CStr} {s1 t v : List UInt8} {w r : Buf} {c : UInt8} {pp : Nat}

/-- The delimiter has a first character, and a second one that is not the terminator or none. -/
lemma opening_cases (ne : d.chars ≠ []) :
    (∃ d₀, d.chars = [d₀] ∧ ∀ c s1, opening d <+: c :: s1 ↔ c = d₀) ∨
    ∃ d₀ d₁ ds, d.chars = d₀ :: d₁ :: ds ∧ ∀ c s1, opening d <+: c :: s1 ↔
      c = d₀ ∧ charAt s1 0 = some d₁ := by
  obtain ⟨chars, plain⟩ := d
  rcases chars with _ | ⟨d₀, _ | ⟨d₁, ds⟩⟩
  · exact absurd rfl ne
  · refine .inl ⟨d₀, rfl, fun c s1 => ?_⟩
    simp [opening, List.cons_prefix_cons, eq_comm]
  · refine .inr ⟨d₀, d₁, ds, rfl, fun c s1 => ?_⟩
    have d₁_ne : d₁ ≠ 0 := by
      rintro rfl
      exact plain (by simp)
    cases s1 with
    | nil => simp [opening, List.cons_prefix_cons, d₁_ne.symm]
    | cons c' s1 => simp [opening, List.cons_prefix_cons, eq_comm]

/-- At the opening of a delimiter the loop starts to skip. -/
lemma strntokLoop_open (ne : d.chars ≠ []) (hit : opening d <+: c :: s1) (b : Buf) :
    strntokLoop d.chars d.chars.length (c :: s1) 0 b pp = strntokLoop d.chars d.chars.length s1 1 b
      pp := by
  obtain ⟨c', next⟩ : ∃ c', charAt s1 0 = some c' := by
    cases s1 <;> exact ⟨_, rfl⟩
  rcases opening_cases ne with ⟨d₀, e, iff⟩ | ⟨d₀, d₁, ds, e, iff⟩
  · have same : c = d₀ := (iff c s1).mp hit
    rw [e, strntokLoop]
    simp [same, next]
  · obtain ⟨same, follows⟩ := (iff c s1).mp hit
    rw [e, strntokLoop]
    simp [same, follows]

lemma strntokLoop_copy (ne : d.chars ≠ []) (miss : ¬ opening d <+: c :: s1) (b : Buf) :
    strntokLoop d.chars d.chars.length (c :: s1) 0 b pp =
      (b.put pp c).bind fun b => strntokLoop d.chars d.chars.length s1 0 b (pp + 1) := by
  obtain ⟨c', next⟩ : ∃ c', charAt s1 0 = some c' := by
    cases s1 <;> exact ⟨_, rfl⟩
  rcases opening_cases ne with ⟨d₀, e, iff⟩ | ⟨d₀, d₁, ds, e, iff⟩
  · have other : c ≠ d₀ := fun same => miss ((iff c s1).mpr same)
    rw [e, strntokLoop]
    simp [other]
  · rw [e, strntokLoop]
    by_cases same : c = d₀
    · have other : c' ≠ d₁ := by
        rintro rfl
        exact miss ((iff c s1).mpr ⟨same, next⟩)
      simp [same, next, other]
    · simp [same]

/-- Skipping ends after as many characters as the delimiter has, or with the text. -/
lemma strntokLoop_skip {n i : Nat} (dne : d.chars ≠ []) (pos : 1 ≤ i) (le : i ≤ n)
    (s1 : List UInt8) (b : Buf) :
    strntokLoop d.chars n s1 i b pp = some (b, if s1.drop (n - i) = [] then none
      else some (s1.drop (n - i))) := by
  obtain ⟨d₀, ds, e⟩ := List.exists_cons_of_ne_nil dne
  induction s1 generalizing i with
  | nil => simp [strntokLoop]
  | cons c s1 ih =>
    by_cases last : i = n
    · subst last
      simp [strntokLoop]
    · have rest : n - i = (n - (i + 1)) + 1 := by omega
      have more : i ≠ 0 := by omega
      rw [rest, List.drop_succ_cons, ← ih (by omega) (by omega), e, strntokLoop]
      simp [last, more, Nat.pos_of_ne_zero more]

lemma opening_ne (ne : d.chars ≠ []) : opening d ≠ [] := by
  obtain ⟨d₀, ds, e⟩ := List.exists_cons_of_ne_nil ne
  rw [opening, e, List.take_succ_cons]
  exact List.cons_ne_nil _ _

/-- The loop copies the text up to the first occurrence of the opening, as long as there is room. -/
lemma strntokLoop_fresh (ne : d.chars ≠ []) (fresh : Fresh (opening d) t v) :
    strntokLoop d.chars d.chars.length (t ++ v) 0 (w ++ r) w.length =
      if t.length ≤ r.length then
        strntokLoop d.chars d.chars.length v 0 (w ++ t ++ r.drop t.length) (w ++ t).length
      else none := by
  induction t generalizing w r with
  | nil => simp
  | cons c t ih =>
    rw [List.cons_append, strntokLoop_copy ne fresh.1, Buf.put_append]
    cases r with
    | nil => simp
    | cons x r =>
      have := ih (w := w ++ [c]) (r := r) fresh.2
      simpa using this

/-- At the opening the loop skips as many characters as the delimiter has. -/
lemma strntokLoop_hit (ne : d.chars ≠ []) (hit : opening d <+: v) (b : Buf) :
    strntokLoop d.chars d.chars.length v 0 b pp =
      some (b, if v.drop d.chars.length = [] then none else some (v.drop d.chars.length)) := by
  have pos : 1 ≤ d.chars.length := List.length_pos_iff.mpr ne
  obtain ⟨m, len⟩ := Nat.exists_eq_succ_of_ne_zero (Nat.one_le_iff_ne_zero.mp pos)
  cases v with
  | nil => exact absurd (List.prefix_nil.mp hit) (opening_ne ne)
  | cons c v =>
    rw [strntokLoop_open ne hit, strntokLoop_skip ne le_rfl pos, len]
    simp

end Loop

/-- A token is a part of the text. -/
lemma sublist_of_tokens {d : CStr} {s t : List UInt8} (mem : t ∈ tokens d s) : t.Sublist s :=
  sublist_of_cut (mem_of_mem_trimEnd mem)

/-- The token in the result buffer is terminated if it leaves room for that. -/
lemma str_res {t : List UInt8} (plain : 0 ∉ t) (room : t.length ≤ RES_SIZE) :
    Buf.str (t ++ (List.replicate RES_SIZE 0).drop t.length) =
      if t.length < RES_SIZE then some t else none := by
  rw [Buf.str_append plain, List.drop_replicate]
  split
  · obtain ⟨m, e⟩ : ∃ m, RES_SIZE - t.length = m + 1 := ⟨RES_SIZE - t.length - 1, by omega⟩
    rw [e, List.replicate_succ, Buf.str_zero]
    simp
  · have full : RES_SIZE - t.length = 0 := by omega
    rw [full]
    rfl

/-- After the last token the next call returns the null pointer. -/
lemma strntokAll_null (d : List UInt8) (n calls : Nat) :
    strntokAll d n (calls + 1) none = some [] := rfl

/-- One call and those that follow it: the token has to fit the buffer with its terminator. -/
lemma strntokAll_call {d : List UInt8} {n calls : Nat} {s t : List UInt8}
    {rest : Option (List UInt8)} (plain : 0 ∉ t)
    (loop : strntokLoop d n s 0 (List.replicate RES_SIZE 0) 0 =
      if t.length ≤ RES_SIZE then some (t ++ (List.replicate RES_SIZE 0).drop t.length, rest)
      else none) :
    strntokAll d n (calls + 1) (some s) =
      if t.length < RES_SIZE then (strntokAll d n calls rest).map (t :: ·) else none := by
  rw [strntokAll, strntok, loop]
  by_cases room : t.length ≤ RES_SIZE
  · rw [if_pos room]
    simp only [Option.bind_eq_bind, Option.map_some, Option.bind_some, str_res plain room]
    split
    · cases strntokAll d n calls rest <;> rfl
    · rfl
  · rw [if_neg room, if_neg (by omega)]
    rfl

/-- Calling `strntok` until it returns the null pointer gives the tokens of the text, and is a fault
if one of them does not fit the buffer. -/
lemma strntokAll_eq {d : CStr} (ne : d.chars ≠ []) {s : List UInt8} (plain : 0 ∉ s) {calls : Nat}
    (enough : s.length + 2 ≤ calls) :
    strntokAll d.chars d.chars.length calls (some s) =
      if ∀ t ∈ tokens d s, t.length < RES_SIZE then some (tokens d s) else none := by
  have pos : 1 ≤ d.chars.length := List.length_pos_iff.mpr ne
  induction calls generalizing s with
  | zero => omega
  | succ calls ih =>
    obtain ⟨more, rfl⟩ : ∃ m, calls = m + 1 := ⟨calls - 1, by omega⟩
    rcases first_occurrence (opening d) s with ⟨t, v, rfl, fresh, hit⟩ | fresh
    · have all : tokens d (t ++ v) =
          t :: if v.drop d.chars.length = [] then [] else tokens d (v.drop d.chars.length) :=
        trimEnd_cut_first fresh hit (opening_ne ne) pos
      have t_plain : 0 ∉ t := fun mem => plain (List.mem_append_left v mem)
      have loop := strntokLoop_fresh (w := []) (r := List.replicate RES_SIZE 0) ne fresh
      rw [strntokLoop_hit ne hit, List.length_replicate] at loop
      rw [strntokAll_call t_plain loop, all]
      simp only [List.forall_mem_cons, ite_and]
      by_cases rest : v.drop d.chars.length = []
      · simp only [if_pos rest, strntokAll_null]
        simp
      · simp only [if_neg rest]
        rw [ih]
        · rw [apply_ite (Option.map (t :: ·))]
          rfl
        · intro mem
          exact plain (List.mem_append_right t (List.mem_of_mem_drop mem))
        · -- something was skipped
          have long : v.length ≠ 0 := by
            intro none_left
            rw [List.length_eq_zero_iff.mp none_left, List.drop_nil] at rest
            exact rest rfl
          rw [List.length_append] at enough
          rw [List.length_drop]
          omega
    · have all : tokens d s = [s] := by
        rw [tokens, cut_none fresh]
        rfl
      have loop := strntokLoop_fresh (w := []) (r := List.replicate RES_SIZE 0) ne fresh
      rw [List.append_nil, strntokLoop, List.length_replicate] at loop
      rw [strntokAll_call plain loop, strntokAll_null, all]
      simp only [List.forall_mem_singleton]
      rfl

/-- A loop over the tokens does what is done with each of them, in order. -/
lemma strntokEach_eq {σ : Type} {body : List UInt8 → σ → Option σ} {s2 : List UInt8} {n : Nat}
    (calls : Nat) (s1 : Option (List UInt8)) (st : σ) :
    strntokEach s2 n body calls s1 st =
      (strntokAll s2 n calls s1).bind fun ts => ts.foldlM (fun st t => body t st) st := by
  induction calls generalizing s1 st with
  | zero => rfl
  | succ calls ih =>
    rw [strntokAll, strntokEach]
    cases strntok s1 s2 n none with
    | none => rfl
    | some r =>
      obtain ⟨res, rest⟩ := r
      cases res with
      | none => rfl
      | some res =>
        simp only [Option.bind_eq_bind, Option.bind_some, ih]
        cases res.str with
        | none => rfl
        | some t =>
          cases strntokAll s2 n calls rest with
          | none => simp
          | some ts => rfl

/-- A loop over the tokens of a text. -/
lemma strntokEach_tokens {σ : Type} {body : List UInt8 → σ → Option σ} {d : CStr}
    (ne : d.chars ≠ []) {s : List UInt8} (plain : 0 ∉ s)
    (short : ∀ t ∈ tokens d s, t.length < RES_SIZE) (st : σ) :
    strntokEach d.chars d.chars.length body (s.length + 2) (some s) st =
      (tokens d s).foldlM (fun st t => body t st) st := by
  rw [strntokEach_eq, strntokAll_eq ne plain le_rfl, if_pos short]
  rfl

/-- For every text and delimiter, with tokens that fit the result buffer: the calls reach the null
pointer, after at most one more call than the text has characters, and what they return and what
they skip, in turn, make up the text. What is skipped starts with the opening of the delimiter and
is as long as the delimiter, or ends with the text; no token contains the opening. -/
theorem strntok_conserves (s d : CStr) (ne : d.chars ≠ [])
    (short : ∀ t ∈ tokens d s.chars, t.length < RES_SIZE) :
    ∃ front gaps last final,
      (∀ calls, s.chars.length + 2 ≤ calls →
        strntokAll d.chars d.chars.length calls (some s.chars) = some (front ++ [last])) ∧
      s.chars = (List.zipWith (· ++ ·) front gaps).flatten ++ last ++ final ∧
      gaps.length = front.length ∧
      (∀ g ∈ gaps, d.chars.take 2 <+: g ∧ g.length = d.chars.length) ∧
      (final = [] ∨ d.chars.take 2 <+: final ∧ final.length ≤ d.chars.length) ∧
      ∀ t ∈ front ++ [last], ¬ d.chars.take 2 <:+: t := by
  obtain ⟨front, gaps, last, final, all, woven⟩ :=
    cut_woven (opening_ne ne) (List.length_take_le' 2 d.chars) s.chars
  refine ⟨front, gaps, last, final, fun calls enough => ?_, woven.all, woven.pairs, woven.gap,
    woven.final, woven.piece⟩
  rw [strntokAll_eq ne s.terminated enough, if_pos short, tokens, all]

/-- The delimiter `"<br/>"` of the exporters. -/
def lineBreak : CStr := ⟨[60, 98, 114, 47, 62], by decide⟩

/-- The text `"a<br/>b"`. -/
theorem strntok_conserves_line :
    lineBreak.chars ≠ [] ∧
      (∀ t ∈ tokens lineBreak [97, 60, 98, 114, 47, 62, 98], t.length < RES_SIZE) ∧
    ∃ front gaps last final,
      (∀ calls, 9 ≤ calls →
        strntokAll lineBreak.chars 5 calls (some [97, 60, 98, 114, 47, 62, 98]) =
          some (front ++ [last])) ∧
      [97, 60, 98, 114, 47, 62, 98] = (List.zipWith (· ++ ·) front gaps).flatten ++ last ++
        final := by
  have short : ∀ t ∈ tokens lineBreak [97, 60, 98, 114, 47, 62, 98], t.length < RES_SIZE := by
    decide
  refine ⟨by decide, short, ?_⟩
  obtain ⟨front, gaps, last, final, calls, all, _⟩ :=
    strntok_conserves ⟨[97, 60, 98, 114, 47, 62, 98], by decide⟩ lineBreak (by decide) short
  exact ⟨front, gaps, last, final, calls, all⟩

/-- For every text and delimiter, with pieces that fit the result buffer: the tokens are the pieces
of the text cut at the delimiter, but for an empty piece at the end, exactly when the scan for the
delimiter meets its first two characters only where it meets the delimiter. -/
theorem strntok_splits (s d : CStr) (ne : d.chars ≠ [])
    (short : ∀ t ∈ pieces d s.chars, t.length < RES_SIZE) (calls : Nat)
    (enough : s.chars.length + 2 ≤ calls) :
    strntokAll d.chars d.chars.length calls (some s.chars) = some (pieces d s.chars) ↔
      ∀ v, Met d.chars d.chars.length s.chars v → d.chars.take 2 <+: v → d.chars <+: v := by
  have pos : 1 ≤ d.chars.length := List.length_pos_iff.mpr ne
  rw [← trimEnd_cut_iff (List.take_prefix 2 d.chars) (opening_ne ne) pos,
    strntokAll_eq ne s.terminated enough]
  show _ ↔ tokens d s.chars = pieces d s.chars
  constructor
  · intro all
    exact Option.some.inj (Option.ite_none_right_eq_some.mp all).2
  · intro same
    rw [same, if_pos short]

/-- The text `"a<br/>b"` has the pieces `"a"` and `"b"`, and the scan for `"<br/>"` meets `"<b"`
only with the whole of it. -/
theorem strntok_splits_line :
    strntokAll lineBreak.chars 5 9 (some [97, 60, 98, 114, 47, 62, 98]) = some [[97], [98]] ∧
    ∀ v, Met lineBreak.chars 5 [97, 60, 98, 114, 47, 62, 98] v → [60, 98] <+: v →
      lineBreak.chars <+: v := by
  have split : strntokAll lineBreak.chars 5 9 (some [97, 60, 98, 114, 47, 62, 98]) =
      some [[97], [98]] := by
    decide +kernel
  exact ⟨split, (strntok_splits ⟨[97, 60, 98, 114, 47, 62, 98], by decide⟩ lineBreak (by decide)
    (by decide) 9 le_rfl).mp split⟩

/-- `"<bold>x"` is cut at `"<bold"`, of which only the first two characters are those of
`"<br/>"`. -/
theorem opening_taken_for_delimiter :
    pieces lineBreak [60, 98, 111, 108, 100, 62, 120] = [[60, 98, 111, 108, 100, 62, 120]] ∧
    strntokAll lineBreak.chars 5 9 (some [60, 98, 111, 108, 100, 62, 120]) =
      some [[], [62, 120]] := by
  decide +kernel

end SweetClib.Bns
