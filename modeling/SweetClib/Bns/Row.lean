import SweetClib.Lib.Text

/-!
# The row reader of the exporters

Model of `my_csv` and of the row loops `while (*ss != '\n')` around it
(`lib/app/bns/real_weapon.c`, `gem_effect.c`, `bns_hash.c` and their siblings, which share the
text), with the `fgets` that fills the line. The pointer `s1` is what is still ahead of the string;
to read behind the terminator is a fault. `my_csv` writes its field to the front of the buffer
`tmp` and no terminator, so that what `tmp` holds behind the field is what the clearing before the
call left there. `sprintf(ss, "%s", my_csv(ss, tmp))` moves the rest of the string to the front of
`ss`.

C → Lean naming: `my_csv` → `myCsv`, its loop is `myCsvLoop`; the row loops are `rowLoop`, with the
number of characters of `tmp` that are cleared, and with what is done with a column and its number
as the parameter `body`; the first argument behind these bounds the rounds.

`columns` are the fields of a line between single separators, without an empty one at the end. One
call reads one of them (`myCsv_field`), and an invariant of the column number that `body` keeps
holds when the loop is done (`rowLoop_invariant`).
-/

namespace SweetClib.Bns
open SweetClib.Lib

/-- White space of the C locale (C `isspace`). -/
def isspace (c : UInt8) : Bool := c ∈ [32, 9, 10, 11, 12, 13]

/-- The separators: tab, vertical tab, form feed and carriage return. -/
def isSep (c : UInt8) : Bool := c ∈ [9, 11, 12, 13]

/-- The loop of `my_csv`; `p` is the index of the next character of `s2`. The terminator is copied
like any other character, and what is read next lies behind the string. -/
def myCsvLoop : List UInt8 → Buf → Nat → Option (List UInt8 × Buf)
  | [], _, _ => none
  | c :: s1, s2, p =>
    if c ≠ 10 ∧ (c = 32 ∨ !isspace c) then do
      let s2 ← s2.put p c
      myCsvLoop s1 s2 (p + 1)
    else some (c :: s1, s2)

/-- Copy one field and step over the separator behind it (C `my_csv`). -/
def myCsv (s1 : List UInt8) (s2 : Buf) : Option (List UInt8 × Buf) := do
  let r ← myCsvLoop s1 s2 0
  match r.1 with
  | [] => return r
  | c :: s1 => if c ≠ 10 ∧ isspace c then return (s1, r.2) else return r

variable {σ : Type}

/-- The loop over the columns of a row, from the column `n` on. -/
def rowLoop (clear : Nat) (body : Nat → Buf → σ → Option σ) :
    Nat → Nat → List UInt8 → Buf → σ → Option (σ × Buf)
  | 0, _, _, _, _ => none
  | rounds + 1, n, ss, tmp, st =>
    if ss.head? = some 10 then some (st, tmp)
    else do
      let tmp ← tmp.clear clear
      let r ← myCsv ss tmp
      let st ← body n r.2 st
      rowLoop clear body rounds (n + 1) r.1 r.2 st

/-- The characters of the file that were not read, and whether a read met its end (C `FILE`). -/
structure File where
  rest : List UInt8
  eof : Bool
  deriving DecidableEq

/-- At most `n` characters, up to a newline. -/
def takeLine : Nat → List UInt8 → List UInt8
  | 0, _ => []
  | _ + 1, [] => []
  | n + 1, c :: rest => if c = 10 then [c] else c :: takeLine n rest

/-- Read a line into a cleared buffer (C `memset(line, 0, ..)`, `fgets(line, size, fp)`); the
result is the string in the buffer, which at the end of the file is the empty one. -/
def fgets (size : Nat) (fp : File) : List UInt8 × File :=
  let line := takeLine (size - 1) fp.rest
  (line.takeWhile (· ≠ 0),
    { rest := fp.rest.drop line.length
      eof := fp.eof || (decide (line.length < size - 1) && decide (line.getLast? ≠ some 10)) })

/-- The fields between single separators, without an empty one at the end. -/
def columns (line : List UInt8) : List (List UInt8) :=
  let fields := line.splitOnP isSep
  if fields.getLast? = some [] then fields.dropLast else fields

/-- A line without its newline. -/
structure Line where
  chars : List UInt8
  terminated : 0 ∉ chars
  single : 10 ∉ chars

section Fields

variable {f rest : List UInt8} {c : UInt8} {w r : Buf}

/-- What `my_csv` copies: everything but the separators and the newline. -/
lemma copied_iff (c : UInt8) : (c ≠ 10 ∧ (c = 32 ∨ !isspace c)) ↔ c ≠ 10 ∧ isSep c = false := by
  simp only [isspace, isSep, List.mem_cons, List.not_mem_nil, or_false, decide_eq_false_iff_not,
    Bool.not_eq_true', and_congr_right_iff]
  intro newline
  constructor
  · rintro (rfl | other)
    · decide
    · tauto
  · tauto

/-- Without a separator there is one column, unless the line is empty. -/
lemma columns_single (plain : ∀ c ∈ f, isSep c = false) :
    columns f = if f = [] then [] else [f] := by
  rw [columns, List.splitOnP_eq_singleton plain]
  cases f <;> simp

lemma columns_append (plain : ∀ c ∈ f, isSep c = false) (sep : isSep c = true) :
    columns (f ++ c :: rest) = f :: columns rest := by
  obtain ⟨g, gs, e⟩ := List.exists_cons_of_ne_nil (List.splitOnP_ne_nil isSep rest)
  rw [columns, columns, List.splitOnP_append_cons_of_forall_mem plain c sep, e]
  simp only [List.getLast?_cons_cons, List.dropLast_cons_cons]
  split <;> rfl

/-- A field without separators, the terminator and newlines that is not empty. -/
def isField (f : List UInt8) : Bool := !f.isEmpty && f.all fun c => !isSep c && c != 0 && c != 10

/-- Such fields are the columns of a line. -/
lemma exists_line {fs : List (List UInt8)} (ne : fs ≠ []) (fields : ∀ f ∈ fs, isField f = true) :
    ∃ line : Line, columns line.chars = fs := by
  induction fs with
  | nil => exact absurd rfl ne
  | cons f fs ih =>
    obtain ⟨field, rest⟩ := List.forall_mem_cons.mp fields
    simp only [isField, Bool.and_eq_true, Bool.not_eq_true', List.isEmpty_eq_false_iff,
      List.all_eq_true, bne_iff_ne]
      at field
    obtain ⟨some, bytes⟩ := field
    have plain : ∀ c ∈ f, isSep c = false := fun c mem => (bytes c mem).1.1
    have terminated : 0 ∉ f := fun mem => (bytes 0 mem).1.2 rfl
    have single : 10 ∉ f := fun mem => (bytes 10 mem).2 rfl
    by_cases last : fs = []
    · subst last
      refine ⟨⟨f, terminated, single⟩, ?_⟩
      rw [columns_single plain, if_neg some]
    · obtain ⟨line, cols⟩ := ih last rest
      refine ⟨⟨f ++ 9 :: line.chars, ?_, ?_⟩, ?_⟩
      · simp [terminated, line.terminated]
      · simp [single, line.single]
      · rw [columns_append plain rfl, cols]

/-- A line has a first separator or none. -/
lemma first_separator (l : List UInt8) :
    (∃ f c rest, l = f ++ c :: rest ∧ (∀ c ∈ f, isSep c = false) ∧ isSep c = true) ∨ ∀ c ∈ l,
      isSep c = false := by
  induction l with
  | nil =>
    right
    intro c mem
    cases mem
  | cons x l ih =>
    cases sep : isSep x with
    | true =>
      refine .inl ⟨[], x, l, rfl, ?_, sep⟩
      intro c mem
      cases mem
    | false =>
      rcases ih with ⟨f, c, rest, rfl, plain, found⟩ | plain
      · exact .inl ⟨x :: f, c, rest, rfl, List.forall_mem_cons.mpr ⟨sep, plain⟩, found⟩
      · exact .inr (List.forall_mem_cons.mpr ⟨sep, plain⟩)

/-- The loop copies a field to the front of the buffer, as long as there is room. -/
lemma myCsvLoop_field (rest : List UInt8) (plain : ∀ c ∈ f, isSep c = false) (single : 10 ∉ f)
    (stop : c = 10 ∨ isSep c = true) :
    myCsvLoop (f ++ c :: rest) (w ++ r) w.length =
      if f.length ≤ r.length then some (c :: rest, w ++ f ++ r.drop f.length) else none := by
  induction f generalizing w r with
  | nil =>
    have ends : ¬ (c ≠ 10 ∧ (c = 32 ∨ !isspace c)) := by
      rw [copied_iff]
      rintro ⟨newline, sep⟩
      rcases stop with e | e
      · exact newline e
      · rw [e] at sep
        cases sep
    rw [List.nil_append, myCsvLoop, if_neg ends]
    simp
  | cons x f ih =>
    have goes : x ≠ 10 ∧ (x = 32 ∨ !isspace x) := by
      rw [copied_iff]
      exact ⟨fun e => single (by rw [e]; exact List.mem_cons_self), plain x List.mem_cons_self⟩
    rw [List.cons_append, myCsvLoop, if_pos goes, Buf.put_append]
    cases r with
    | nil => rfl
    | cons y r =>
      have := ih (w := w ++ [x]) (r := r) (fun c mem => plain c (List.mem_cons_of_mem x mem))
        (fun mem => single (List.mem_cons_of_mem x mem))
      simpa using this

/-- One call copies a field and steps over a separator, but not over the newline. A field that does
not fit is a fault. -/
lemma myCsv_field {b : Buf} (plain : ∀ c ∈ f, isSep c = false) (single : 10 ∉ f)
    (stop : c = 10 ∨ isSep c = true) :
    myCsv (f ++ c :: rest) b =
      if f.length ≤ b.length then
        some (if c = 10 then c :: rest else rest, f ++ b.drop f.length)
      else none := by
  have loop := myCsvLoop_field (w := []) (r := b) rest plain single stop
  rw [List.nil_append, List.nil_append, List.length_nil] at loop
  rw [myCsv, loop]
  split
  · by_cases newline : c = 10
    · simp [newline]
    · have space : isspace c = true := by
        rcases stop with e | e
        · exact absurd e newline
        · simp only [isSep, List.mem_cons, List.not_mem_nil, or_false, decide_eq_true_eq] at e
          simp only [isspace, List.mem_cons, List.not_mem_nil, or_false, decide_eq_true_eq]
          tauto
      simp [newline, space]
  · rfl

end Fields

/-- The buffer in a round of the row loop: its front is cleared, and the field copied to it. -/
def refill (clear : Nat) (f : List UInt8) (tmp : Buf) : Buf :=
  f ++ (List.replicate clear 0 ++ tmp.drop clear).drop f.length

section Refill

variable {clear : Nat} {f : List UInt8} {tmp : Buf}

lemma length_refill (le : clear ≤ tmp.length) (room : f.length ≤ tmp.length) :
    (refill clear f tmp).length = tmp.length := by
  simp only [refill, List.length_append, List.length_drop, List.length_replicate]
  omega

/-- The buffer holds the field as a string, if it is clear behind it. -/
lemma str_refill (plain : 0 ∉ f) (short : f.length < clear) :
    (refill clear f tmp).str = some f := by
  obtain ⟨m, rfl⟩ : ∃ m, clear = f.length + (m + 1) := ⟨clear - f.length - 1, by omega⟩
  rw [refill, Buf.str_append plain,
    List.drop_append_of_le_length (by rw [List.length_replicate]; omega),
    List.drop_replicate, Nat.add_sub_cancel_left, List.replicate_succ, List.cons_append,
    Buf.str_zero]
  simp

/-- What lies behind the part of a buffer that is cleared and behind the field is left as it was. -/
lemma drop_refill {n : Nat} (behind : clear ≤ n) (short : f.length ≤ n) :
    (refill clear f tmp).drop n = tmp.drop n := by
  rw [refill, List.drop_append, List.drop_eq_nil_of_le short, List.nil_append, List.drop_drop,
    Nat.add_sub_cancel' short, List.drop_append,
    List.drop_eq_nil_of_le (by rw [List.length_replicate]; exact behind), List.nil_append,
    List.length_replicate, List.drop_drop, Nat.add_sub_cancel' behind]

/-- A field that is longer than the part that is cleared. -/
lemma refill_of_le (le : clear ≤ f.length) : refill clear f tmp = f ++ tmp.drop f.length := by
  have behind : (refill clear f tmp).drop f.length = tmp.drop f.length := drop_refill le le_rfl
  rw [← behind, refill, List.drop_left]

end Refill

section Round

variable {clear : Nat} {body : Nat → Buf → σ → Option σ} {rounds n : Nat} {f rest : List UInt8}
  {c : UInt8} {tmp : Buf} {st : σ}

/-- One round of the row loop on a line that is not empty. -/
lemma rowLoop_round (plain : ∀ c ∈ f, isSep c = false) (single : 10 ∉ f)
    (stop : c = 10 ∨ isSep c = true) (more : f = [] → c ≠ 10) (le : clear ≤ tmp.length) :
    rowLoop clear body (rounds + 1) n (f ++ c :: rest) tmp st =
      if f.length ≤ tmp.length then
        (body n (refill clear f tmp) st).bind
          (rowLoop clear body rounds (n + 1) (if c = 10 then c :: rest else rest)
            (refill clear f tmp))
      else none := by
  have going : (f ++ c :: rest).head? ≠ some 10 := by
    cases f with
    | nil => simpa using more rfl
    | cons x f => simpa using fun e : x = 10 => single (by rw [e]; exact List.mem_cons_self)
  have len : (List.replicate clear 0 ++ tmp.drop clear).length = tmp.length := by
    rw [List.length_append, List.length_replicate, List.length_drop]
    omega
  rw [rowLoop, if_neg going, Buf.clear, if_pos le]
  simp only [Option.bind_eq_bind, Option.bind_some, myCsv_field plain single stop, len, refill]
  split <;> rfl

/-- A round with a field that fits the buffer. -/
lemma rowLoop_field (plain : ∀ c ∈ f, isSep c = false) (single : 10 ∉ f)
    (stop : c = 10 ∨ isSep c = true) (more : f = [] → c ≠ 10) (le : clear ≤ tmp.length)
    (room : f.length ≤ tmp.length) :
    rowLoop clear body (rounds + 1) n (f ++ c :: rest) tmp st =
      (body n (refill clear f tmp) st).bind
        (rowLoop clear body rounds (n + 1) (if c = 10 then c :: rest else rest)
          (refill clear f tmp)) := by
  rw [rowLoop_round plain single stop more le, if_pos room]

/-- A round that does not fault. -/
lemma of_rowLoop_round {r : σ × Buf} (plain : ∀ c ∈ f, isSep c = false) (single : 10 ∉ f)
    (stop : c = 10 ∨ isSep c = true) (more : f = [] → c ≠ 10) (le : clear ≤ tmp.length)
    (loop : rowLoop clear body (rounds + 1) n (f ++ c :: rest) tmp st = some r) :
    f.length ≤ tmp.length ∧ ∃ st', body n (refill clear f tmp) st = some st' ∧
      rowLoop clear body rounds (n + 1) (if c = 10 then c :: rest else rest) (refill clear f tmp)
        st' = some r := by
  rw [rowLoop_round plain single stop more le] at loop
  obtain ⟨room, loop⟩ := Option.ite_none_right_eq_some.mp loop
  exact ⟨room, Option.bind_eq_some_iff.mp loop⟩

end Round

/-- If the row loop ends, every field fits the buffer, and `body` was done with it on a buffer that
has what the rounds keep. -/
lemma of_rowLoop {clear : Nat} {body : Nat → Buf → σ → Option σ} {J : Buf → Prop} {rounds n : Nat}
    {l : List UInt8} {tmp : Buf} {st : σ} {r : σ × Buf} (single : 10 ∉ l) (le : clear ≤ tmp.length)
    (keep : ∀ f ∈ columns l, ∀ b, J b → J (refill clear f b)) (init : J tmp)
    (loop : rowLoop clear body rounds n (l ++ [10]) tmp st = some r) :
    (∀ i f, (columns l)[i]? = some f → f.length ≤ tmp.length ∧
      ∃ b st st', J b ∧ body (n + i) (refill clear f b) st = some st') ∧ J r.2 := by
  induction rounds generalizing n l tmp st with
  | zero => cases loop
  | succ rounds ih =>
    rcases first_separator l with ⟨f, c, rest, rfl, plain, sep⟩ | plain
    · have cols : columns (f ++ c :: rest) = f :: columns rest := columns_append plain sep
      have newline : c ≠ 10 := by
        rintro rfl
        cases sep
      rw [List.append_assoc, List.cons_append] at loop
      obtain ⟨room, st₁, e, loop⟩ := of_rowLoop_round plain (fun mem => single (by simp [mem]))
        (.inr sep) (fun _ => newline) le loop
      rw [if_neg newline] at loop
      have len₁ : (refill clear f tmp).length = tmp.length := length_refill le room
      obtain ⟨each, kept⟩ := ih (fun mem => single (by simp [mem])) (by rw [len₁]; exact le)
        (fun g mem => keep g (by rw [cols]; exact List.mem_cons_of_mem f mem))
        (keep f (by rw [cols]; exact List.mem_cons_self) tmp init) loop
      refine ⟨fun i g found => ?_, kept⟩
      rw [cols] at found
      cases i with
      | zero =>
        cases found
        exact ⟨room, tmp, st, st₁, init, e⟩
      | succ i =>
        have := each i g found
        rw [len₁, Nat.add_right_comm, Nat.add_assoc] at this
        exact this
    · cases l with
      | nil =>
        cases loop
        refine ⟨fun i f found => ?_, init⟩
        cases found
      | cons x l =>
        have cols : columns (x :: l) = [x :: l] := columns_single plain
        obtain ⟨room, st₁, e, loop⟩ := of_rowLoop_round plain single (.inl rfl)
          (fun e => by cases e) le loop
        rw [if_pos rfl] at loop
        cases rounds with
        | zero => cases loop
        | succ rounds =>
          cases loop
          refine ⟨fun i f found => ?_, keep _ (by rw [cols]; exact List.mem_cons_self) tmp init⟩
          rw [cols] at found
          cases i with
          | zero =>
            cases found
            exact ⟨room, tmp, st, st₁, init, e⟩
          | succ i => cases found

/-- The row loop ends, and an invariant of the column number and the state that `body` keeps then
holds. -/
lemma rowLoop_invariant {clear : Nat} (body : Nat → Buf → σ → Option σ) (I : Nat → σ → Prop)
    (rounds n : Nat) {l : List UInt8} (tmp : Buf) (st : σ) (single : 10 ∉ l)
    (le : clear ≤ tmp.length) (fits : ∀ f ∈ columns l, f.length ≤ tmp.length) (init : I n st)
    (step : ∀ i f (b : Buf) st, (columns l)[i]? = some f → b.length = tmp.length → I (n + i) st →
      ∃ st', body (n + i) (refill clear f b) st = some st' ∧ I (n + i + 1) st')
    (enough : l.length + 1 ≤ rounds) :
    ∃ st' tmp', rowLoop clear body rounds n (l ++ [10]) tmp st = some (st', tmp') ∧
      I (n + (columns l).length) st' ∧ tmp'.length = tmp.length := by
  induction rounds generalizing n l tmp st with
  | zero => omega
  | succ rounds ih =>
    rcases first_separator l with ⟨f, c, rest, rfl, plain, sep⟩ | plain
    · -- a field and a separator
      have cols : columns (f ++ c :: rest) = f :: columns rest := columns_append plain sep
      have newline : c ≠ 10 := by
        rintro rfl
        cases sep
      have room : f.length ≤ tmp.length := fits f (by rw [cols]; exact List.mem_cons_self)
      obtain ⟨st₁, e, inv₁⟩ := step 0 f tmp st (by rw [cols]; rfl) rfl init
      have len₁ : (refill clear f tmp).length = tmp.length := length_refill le room
      obtain ⟨st', tmp', loop, inv', len'⟩ := ih (n + 1) (l := rest) (refill clear f tmp) st₁
        (fun mem => single (by simp [mem])) (by rw [len₁]; exact le)
        (fun g mem => by rw [len₁]; exact fits g (by rw [cols]; exact List.mem_cons_of_mem f mem))
          inv₁
        (fun i g b st found same inv => by
          have := step (i + 1) g b st (by rw [cols]; exact found) (by rw [same, len₁])
          rw [← Nat.add_assoc, Nat.add_right_comm n i 1] at this
          exact this inv)
        (by simp only [List.length_append, List.length_cons] at enough; omega)
      refine ⟨st', tmp', ?_, ?_, by rw [len', len₁]⟩
      · rw [List.append_assoc, List.cons_append,
          rowLoop_field plain (fun mem => single (by simp [mem])) (.inr sep)
          (fun _ => newline) le room, if_neg newline]
        rw [Nat.add_zero] at e
        rw [e, Option.bind_some, loop]
      · rw [cols, List.length_cons, Nat.add_comm (columns rest).length 1, ← Nat.add_assoc]
        exact inv'
    · cases l with
      | nil => exact ⟨st, tmp, rfl, init, rfl⟩
      | cons x l =>
        -- the last field ends at the newline
        have cols : columns (x :: l) = [x :: l] := columns_single plain
        have room : (x :: l).length ≤ tmp.length := fits _ (by rw [cols]; exact List.mem_cons_self)
        obtain ⟨st₁, e, inv₁⟩ := step 0 (x :: l) tmp st (by rw [cols]; rfl) rfl init
        obtain ⟨rounds, rfl⟩ : ∃ m, rounds = m + 1 :=
          ⟨rounds - 1, by rw [List.length_cons] at enough; omega⟩
        refine ⟨st₁, _, ?_, by rw [cols]; exact inv₁, length_refill le room⟩
        rw [Nat.add_zero] at e
        rw [rowLoop_field plain single (.inl rfl) (fun e => by cases e) le room, e, if_pos rfl]
        rfl

/-- What is done with the columns from the column `n` on, one after the other. -/
def foldColumns (body : Nat → List UInt8 → σ → Option σ) : Nat → List (List UInt8) → σ → Option σ
  | _, [], st => some st
  | n, f :: fs, st => (body n f st).bind (foldColumns body (n + 1) fs)

/-- An invariant of the column number and the state that `body` keeps holds when the columns are
done. -/
lemma foldColumns_invariant (body : Nat → List UInt8 → σ → Option σ) (I : Nat → σ → Prop)
    (fs : List (List UInt8)) {n : Nat} {st : σ} (init : I n st)
    (step : ∀ i f st, fs[i]? = some f → I (n + i) st → ∃ st', body (n + i) f st = some st' ∧
      I (n + i + 1) st') : ∃ st', foldColumns body n fs st = some st' ∧ I (n + fs.length) st' := by
  induction fs generalizing n st with
  | nil => exact ⟨st, rfl, init⟩
  | cons f fs ih =>
    obtain ⟨st₁, e, inv₁⟩ := step 0 f st rfl init
    obtain ⟨st', fold, inv'⟩ := ih inv₁ fun i g st found inv => by
      have := step (i + 1) g st found
      rw [← Nat.add_assoc, Nat.add_right_comm n i 1] at this
      exact this inv
    refine ⟨st', ?_, ?_⟩
    · rw [Nat.add_zero] at e
      rw [foldColumns, e, Option.bind_some]
      exact fold
    · rw [List.length_cons, Nat.add_comm fs.length 1, ← Nat.add_assoc]
      exact inv'

/-- What is done with the string in the buffer. -/
def onString (body : Nat → List UInt8 → σ → Option σ) (n : Nat) (tmp : Buf) (st : σ) : Option σ :=
  tmp.str.bind fun f => body n f st

/-- A field is a part of the line. -/
lemma sublist_of_splitOnP {l f : List UInt8} (mem : f ∈ l.splitOnP isSep) : f.Sublist l := by
  induction l generalizing f with
  | nil =>
    rw [List.splitOnP_nil, List.mem_singleton] at mem
    rw [mem]
  | cons x l ih =>
    obtain ⟨g, gs, e⟩ := List.exists_cons_of_ne_nil (List.splitOnP_ne_nil isSep l)
    rw [List.splitOnP_cons_eq_if_modifyHead, e] at mem
    rw [e] at ih
    split at mem
    · rcases List.mem_cons.mp mem with rfl | mem
      · exact List.nil_sublist _
      · exact (ih mem).cons x
    · rcases List.mem_cons.mp mem with rfl | mem
      · exact (ih List.mem_cons_self).cons_cons x
      · exact (ih (List.mem_cons_of_mem g mem)).cons x

/-- A column is a part of the line. -/
lemma sublist_of_columns {l f : List UInt8} (mem : f ∈ columns l) : f.Sublist l := by
  apply sublist_of_splitOnP
  rw [columns] at mem
  split at mem
  · exact List.mem_of_mem_dropLast mem
  · exact mem

/-- The row loop of a program that looks at the strings in its buffer, with a buffer that is
cleared as a whole. -/
lemma rowLoop_fold {body : Nat → List UInt8 → σ → Option σ} {line : Line} (tmp : Buf) {st st' : σ}
    (fits : ∀ f ∈ columns line.chars, f.length < tmp.length)
    (fold : foldColumns body 0 (columns line.chars) st = some st') :
    ∃ tmp', rowLoop tmp.length (onString body) (line.chars.length + 1) 0
      (line.chars ++ [10]) tmp st = some (st', tmp') ∧
      tmp'.length = tmp.length := by
  -- what is left to do from a column on ends in the same state
  obtain ⟨st₁, tmp', loop, done, len⟩ := rowLoop_invariant (onString body)
    (fun n st => foldColumns body n ((columns line.chars).drop n) st = some st')
      (line.chars.length + 1) 0 tmp st
    line.single le_rfl (fun f mem => Nat.le_of_lt (fits f mem)) fold
    (fun i f b st found same rest => by
      have mem : f ∈ columns line.chars := List.mem_of_getElem? found
      have plain : 0 ∉ f := fun zero => line.terminated ((sublist_of_columns mem).subset zero)
      obtain ⟨lt, e⟩ := List.getElem?_eq_some_iff.mp found
      rw [Nat.zero_add, List.drop_eq_getElem_cons lt, e, foldColumns] at rest
      rw [Nat.zero_add, onString, str_refill plain (fits f mem), Option.bind_some]
      exact Option.bind_eq_some_iff.mp rest)
    le_rfl
  rw [Nat.zero_add, List.drop_length] at done
  cases done
  exact ⟨tmp', loop, len⟩

/-- What a program sees of the columns: the string in the buffer, in order. -/
def collect (_ : Nat) (tmp : Buf) (fields : List (List UInt8)) : Option (List (List UInt8)) :=
  tmp.str.map fun field => fields ++ [field]

/-- For every line that ends in a newline, with fields that fit the buffer with their terminator,
and whatever the buffer held: the row loop ends, and its rounds yield the fields of the line in
order. -/
theorem row_columns (line : Line) (tmp : Buf)
    (fits : ∀ f ∈ columns line.chars, f.length < tmp.length) (rounds : Nat)
    (enough : line.chars.length + 1 ≤ rounds) :
    ∃ tmp', rowLoop tmp.length collect rounds 0 (line.chars ++ [10]) tmp [] =
      some (columns line.chars, tmp') := by
  obtain ⟨fields, tmp', loop, all, _⟩ := rowLoop_invariant collect
    (fun n fields => fields = (columns line.chars).take n) rounds 0 tmp [] line.single le_rfl
    (fun f mem => Nat.le_of_lt (fits f mem)) rfl
    (fun i f b fields found _ so_far => by
      have mem : f ∈ columns line.chars := List.mem_of_getElem? found
      have plain : 0 ∉ f := fun zero => line.terminated ((sublist_of_columns mem).subset zero)
      refine ⟨fields ++ [f], ?_, ?_⟩
      · rw [collect, str_refill plain (fits f mem)]
        rfl
      · rw [so_far, Nat.zero_add, List.take_add_one, found]
        rfl)
    enough
  rw [Nat.zero_add, List.take_length] at all
  exact ⟨tmp', by rw [loop, all]⟩

/-- The line `"a\t b\n"` in a buffer of four characters. -/
theorem row_columns_two :
    (∀ f ∈ columns [97, 9, 32, 98], f.length < [1, 1, 1, 1].length) ∧
    ∃ tmp', rowLoop 4 collect 5 0 [97, 9, 32, 98, 10] [1, 1, 1, 1] [] =
      some ([[97], [32, 98]], tmp') := by
  have fits : ∀ f ∈ columns [97, 9, 32, 98], f.length < [1, 1, 1, 1].length := by decide
  exact ⟨fits, row_columns ⟨[97, 9, 32, 98], by decide, by decide⟩ [1, 1, 1, 1] fits 5 le_rfl⟩

/-- What `fgets` reads ends with the first newline. -/
lemma takeLine_newline {n : Nat} {rest : List UInt8} (mem : 10 ∈ takeLine n rest) :
    ∃ l, takeLine n rest = l ++ [10] ∧ 10 ∉ l := by
  induction n generalizing rest with
  | zero => cases mem
  | succ n ih =>
    cases rest with
    | nil => cases mem
    | cons c rest =>
      by_cases newline : c = 10
      · refine ⟨[], ?_, List.not_mem_nil⟩
        rw [takeLine, if_pos newline, newline]
        rfl
      · rw [takeLine, if_neg newline] at mem ⊢
        obtain ⟨l, e, none_before⟩ := ih ((List.mem_cons.mp mem).resolve_left (Ne.symm newline))
        refine ⟨c :: l, by rw [e]; rfl, ?_⟩
        intro mem
        rcases List.mem_cons.mp mem with e | mem
        · exact newline e.symm
        · exact none_before mem

/-- A string in the line buffer that holds a newline ends with it. -/
lemma fgets_newline {size : Nat} {fp : File} (mem : 10 ∈ (fgets size fp).1) :
    ∃ l, (fgets size fp).1 = l ++ [10] ∧ 10 ∉ l := by
  have start : (fgets size fp).1 <+: takeLine (size - 1) fp.rest := List.takeWhile_prefix _
  obtain ⟨l, e, single⟩ := takeLine_newline (start.subset mem)
  rw [e] at start
  -- a string that ends before the newline does not hold one
  rcases List.prefix_concat_iff.mp start with whole | before
  · exact ⟨l, whole, single⟩
  · exact absurd (before.subset mem) single

/-- What `my_csv` leaves of a string is its end. -/
lemma myCsv_suffix {s1 : List UInt8} {s2 : Buf} {r : List UInt8 × Buf} (e : myCsv s1 s2 = some r) :
    r.1 <:+ s1 := by
  have loop : ∀ (s1 : List UInt8) (s2 : Buf) p r, myCsvLoop s1 s2 p = some r → r.1 <:+ s1 := by
    intro s1
    induction s1 with
    | nil =>
      intro s2 p r e
      cases e
    | cons c s1 ih =>
      intro s2 p r e
      rw [myCsvLoop] at e
      split at e
      · obtain ⟨s2', _, e⟩ := Option.bind_eq_some_iff.mp e
        exact (ih s2' (p + 1) r e).trans (List.suffix_cons c s1)
      · cases e
        exact List.suffix_rfl
  rw [myCsv] at e
  obtain ⟨⟨left, b⟩, found, e⟩ := Option.bind_eq_some_iff.mp e
  have suffix := loop s1 s2 0 _ found
  cases left with
  | nil =>
    cases e
    exact suffix
  | cons c left =>
    dsimp only at e
    split at e
    · cases e
      exact (List.suffix_cons c left).trans suffix
    · cases e
      exact suffix

/-- The row loop ends only at a newline. -/
lemma newline_of_rowLoop {clear : Nat} {body : Nat → Buf → σ → Option σ} {rounds n : Nat}
    {ss : List UInt8} {tmp : Buf} {st : σ} {r : σ × Buf}
    (loop : rowLoop clear body rounds n ss tmp st = some r) : 10 ∈ ss := by
  induction rounds generalizing n ss tmp st with
  | zero => cases loop
  | succ rounds ih =>
    rw [rowLoop] at loop
    split at loop
    next newline => exact List.mem_of_mem_head? newline
    next =>
      obtain ⟨b, _, loop⟩ := Option.bind_eq_some_iff.mp loop
      obtain ⟨left, field, loop⟩ := Option.bind_eq_some_iff.mp loop
      obtain ⟨st', _, loop⟩ := Option.bind_eq_some_iff.mp loop
      exact (myCsv_suffix field).subset (ih loop)

/-- For every string that `fgets` can leave in the line buffer, whatever part of the buffer is
cleared and whatever is done with the columns: the row loop ends and reads nothing behind the string
exactly when the string holds a newline and its fields fit the buffer. -/
theorem row_reader_stays_inside (size : Nat) (fp : File) (tmp : Buf) (clear : Nat)
    (le : clear ≤ tmp.length) (body : Nat → Buf → σ → Option σ) (st : σ)
    (total : ∀ n b st, body n b st ≠ none) (rounds : Nat)
    (enough : (fgets size fp).1.length ≤ rounds) :
    (∃ st' tmp', rowLoop clear body rounds 0 (fgets size fp).1 tmp st = some (st', tmp')) ↔
      10 ∈ (fgets size fp).1 ∧ ∀ f ∈ columns (fgets size fp).1.dropLast, f.length ≤ tmp.length := by
  constructor
  · rintro ⟨st', tmp', loop⟩
    have newline := newline_of_rowLoop loop
    obtain ⟨l, e, single⟩ := fgets_newline newline
    refine ⟨newline, ?_⟩
    rw [e] at loop ⊢
    rw [List.dropLast_concat]
    obtain ⟨each, _⟩ :=
      of_rowLoop (J := fun _ => True) single le (fun _ _ _ _ => trivial) trivial loop
    intro f mem
    obtain ⟨i, found⟩ := List.mem_iff_getElem?.mp mem
    exact (each i f found).1
  · rintro ⟨newline, fits⟩
    obtain ⟨l, e, single⟩ := fgets_newline newline
    rw [e] at fits enough ⊢
    rw [List.dropLast_concat] at fits
    rw [List.length_append, List.length_singleton] at enough
    obtain ⟨st', tmp', loop, _⟩ :=
      rowLoop_invariant body (fun _ _ => True) rounds 0 tmp st single le
      fits trivial
      (fun i f b st _ _ _ => by
        obtain ⟨st', e⟩ := Option.ne_none_iff_exists'.mp (total (0 + i) _ st)
        exact ⟨st', e, trivial⟩)
      enough
    exact ⟨st', tmp', loop⟩

/-- The line of the file `"a\n"`, with a body that counts the columns. -/
theorem row_reader_stays_inside_one :
    10 ∈ (fgets 1024 ⟨[97, 10], false⟩).1 ∧
    ∃ st' tmp',
      rowLoop 2 (fun _ _ k => some (k + 1)) 2 0 (fgets 1024 ⟨[97, 10], false⟩).1 [1, 1] 0 =
      some (st', tmp') := by
  have newline : 10 ∈ (fgets 1024 ⟨[97, 10], false⟩).1 := by decide
  exact ⟨newline, (row_reader_stays_inside 1024 ⟨[97, 10], false⟩ [1, 1] 2 le_rfl
    (fun _ _ k => some (k + 1)) 0 (fun _ _ _ => Option.some_ne_none _) 2 (by decide)).mpr
    ⟨newline, by decide⟩⟩

/-- `my_csv` runs over the end of a string without a newline. -/
lemma myCsv_unterminated {s1 : List UInt8} (plain : ∀ c ∈ s1, isSep c = false) (single : 10 ∉ s1)
    (s2 : Buf) : myCsv s1 s2 = none := by
  suffices loop : ∀ p, myCsvLoop s1 s2 p = none by rw [myCsv, loop 0]; rfl
  induction s1 generalizing s2 with
  | nil =>
    intro p
    rfl
  | cons x s1 ih =>
    intro p
    have goes : x ≠ 10 ∧ (x = 32 ∨ !isspace x) := by
      rw [copied_iff]
      exact ⟨fun e => single (by rw [e]; exact List.mem_cons_self), plain x List.mem_cons_self⟩
    rw [myCsvLoop, if_pos goes]
    cases put : s2.put p x with
    | none => rfl
    | some s2' =>
      exact ih (fun c mem => plain c (List.mem_cons_of_mem x mem))
        (fun mem => single (List.mem_cons_of_mem x mem)) s2'
        (p + 1)

/-- A last line without a newline, `"a"`, and the empty string that is left at the end of every
file: `my_csv` copies the terminator and reads on behind it. -/
theorem reads_behind_terminator :
    (fgets 16384 ⟨[97], false⟩).1 = [97] ∧ (fgets 16384 ⟨[], false⟩).1 = [] ∧
    ∀ tmp : Buf, myCsv [97] tmp = none ∧ myCsv [] tmp = none := by
  refine ⟨by decide, by decide, fun tmp => ⟨?_, ?_⟩⟩
  · exact myCsv_unterminated (List.forall_mem_singleton.mpr rfl) (by decide) tmp
  · exact myCsv_unterminated (List.forall_mem_nil _) (by decide) tmp

end SweetClib.Bns
