import SweetClib.Bns.Regex
import SweetClib.Bns.Load

/-!
# The consumables of the gems

Model of the cases 287 and 288 of the switch over the columns in `lib/app/bns/gem_effect.c` and
`lib/app/bns/real_gem.c`, which share the text. Case 287 stores the items of the column in the
array `ptr3`, case 288 prints each with a count from its own column and clears its slot; the array
and the counter `loc_2` outlive the row. The other cases do not touch them, and what they print is
left out.

`malloc(strlen(matched + 1))` asks for one character less than the item has, and `strcpy` stores
two more than that. What the allocator really gives is the parameter `room`; a store behind it is a
fault, and a failed allocation gives no room.

C → Lean naming: `ptr3` keeps its name, `loc_2` → `loc2`; the bodies of the loops are `storeItem`
and `printItem`; `gemSwitch` is the switch, `gemColumn` a round of the row loop, and `gemRows` the
rows of a file with what is printed for each.

Case 288 clears the slots of the counts, not those of the items. `leftover` says which slots still
hold an item of an earlier row; a row that reaches one of them prints it.
-/

namespace SweetClib.Bns
open SweetClib.Lib

/-- The pattern `item:([0-9]+)`: it captures a digit at least. -/
structure ItemRegex extends Regex where
  captured_ne : ∀ src, toRegex.captured src ≠ some []

/-- The parameters of the exporter. -/
structure GemEnv where
  /-- The range of the ids (C `atoi(argv[2])`, `atoi(argv[3])`). -/
  first : Int
  last : Int
  regexConsum : ItemRegex
  /-- The characters that an allocation of so many has room for. -/
  room : Nat → Nat

/-- The variables, and what is printed for the row. -/
structure GemSt where
  block : Bool
  ptr3 : Fin 6 → Option (List UInt8)
  loc2 : Nat
  out : List UInt8

/-- The delimiter `",1,"` of the items. -/
def itemBreak : CStr := ⟨[44, 49, 44], by decide⟩

/-- The delimiter `","` of the counts. -/
def countBreak : CStr := ⟨[44], by decide⟩

/-- One token of case 287. -/
def storeItem (env : GemEnv) (ptr2 : List UInt8) (st : GemSt) : Option GemSt := do
  match ← filterRegex env.regexConsum.toRegex ptr2 with
  | none => return st
  | some item =>
    if h : st.loc2 < 6 then
      if item.length + 1 ≤ env.room (item.length - 1) then
        return { st with
          ptr3 := Function.update st.ptr3 ⟨st.loc2, h⟩ (some item), loc2 := st.loc2 + 1 }
      else none
    else none

/-- An item and its count. -/
def pairText (item count : List UInt8) :
    List UInt8 := text "[[\"" ++ item ++ text "\",\"grocery\"]," ++ count ++ text "]"

/-- One token of case 288. -/
def printItem (ptr2 : List UInt8) (st : GemSt) : Option GemSt :=
  if h : st.loc2 < 6 then
    match st.ptr3 ⟨st.loc2, h⟩ with
    | none => some { st with loc2 := st.loc2 + 1 }
    | some item =>
      some { st with
        ptr3 := Function.update st.ptr3 ⟨st.loc2, h⟩ none
        loc2 := st.loc2 + 1
        out := (if st.loc2 > 0 then st.out ++ [44] else st.out) ++ pairText item ptr2 }
  else none

/-- The switch over the number of the column. -/
def gemSwitch (env : GemEnv) (n : Nat) (title : List UInt8) (st : GemSt) : Option GemSt :=
  match n with
  | 287 =>
    strntokEach itemBreak.chars itemBreak.chars.length (storeItem env) (title.length + 2)
      (some title) { st with loc2 := 0 }
  | 288 => do
    let st := { st with out := st.out ++ text "\"consumable\":[" }
    let st ←
      if st.loc2 > 0 then
        strntokEach countBreak.chars countBreak.chars.length printItem (title.length + 2)
          (some title) { st with loc2 := 0 }
      else some st
    return { st with out := st.out ++ text "]," }
  | _ => some st

/-- A round of the row loop: a row whose id is in the range is exported. -/
def gemColumn (env : GemEnv) (n : Nat) (title : List UInt8) (st : GemSt) : Option GemSt := do
  let block ← enterBlock env.first env.last n title st.block
  if block then gemSwitch env n title { st with block } else some { st with block }

/-- What is printed for each row, with the variables and the buffer `tmp_title` at the end. -/
def gemRows (env : GemEnv) : List Line → Buf → GemSt → Option (List (List UInt8) × GemSt × Buf)
  | [], tmp, st => some ([], st, tmp)
  | line :: lines, tmp, st => do
    let r ← rowLoop (TITLE_BUF + 1) (onString (gemColumn env))
      (line.chars.length + 1) 0 (line.chars ++ [10]) tmp
      { st with block := false, out := [] }
    let rest ← gemRows env lines r.2 r.1
    return (r.1.out :: rest.1, rest.2)

/-- The items of a row. -/
def items (env : GemEnv) (line : Line) : List (List UInt8) :=
  (tokens itemBreak (column 287 line)).filterMap env.regexConsum.captured

/-- The counts of a row. -/
def counts (line : Line) : List (List UInt8) := tokens countBreak (column 288 line)

/-- What should be printed for a row: its items with its counts. -/
def consumable (env : GemEnv) (line : Line) : List UInt8 :=
  text "\"consumable\":[" ++ List.intercalate [44]
    (List.zipWith pairText (items env line) (counts line)) ++ text "],"

/-- The rows the exporter is meant for: the id is in the range, the columns are there, and there
are at most six items and at most six counts. -/
structure GemRow (env : GemEnv) (line : Line) : Prop where
  inRange : ∃ id, atoi (column 0 line) = some id ∧ env.first ≤ id ∧ id ≤ env.last
  enough : 289 ≤ (columns line.chars).length
  items : (items env line).length ≤ 6
  counts : (counts line).length ≤ 6

/-- What the code needs besides: texts that fit its buffers, and room for the items. -/
structure GemFits (env : GemEnv) (line : Line) : Prop where
  columns : ∀ f ∈ columns line.chars, f.length < TITLE_BUF + 1
  item : ∀ t ∈ tokens itemBreak (column 287 line), t.length < RES_SIZE
  count : ∀ t ∈ Bns.counts line, t.length < RES_SIZE
  room : ∀ item ∈ Bns.items env line, item.length + 1 ≤ env.room (item.length - 1)

/-- The slot `i` still holds an item, after rows with so many items and counts, the last row
first. -/
def leftover (i : Nat) : List (Nat × Nat) → Bool
  | [] => false
  | (items, counts) :: earlier => !(0 < items && i < counts) && (i < items || leftover i earlier)

/-- No row has a count, but no item, for a slot that still holds an item of an earlier row. The
last row is the first one. -/
def Clean : List (Nat × Nat) → Prop
  | [] => True
  | (items, counts) :: earlier =>
    (0 < items → ∀ i < counts, items ≤ i → leftover i earlier = false) ∧ Clean earlier

/-- The numbers of the items and the counts of a row. -/
def sizes (env : GemEnv) (line : Line) :
    Nat × Nat := ((items env line).length, (counts line).length)

section Slots

variable {env : GemEnv} {p q : Fin 6 → Option (List UInt8)} {es ts : List (List UInt8)}

/-- The slots after items were stored from the first one on. -/
def fill (es : List (List UInt8)) (p : Fin 6 → Option (List UInt8)) (i : Fin 6) :
    Option (List UInt8) := es[i.val]?.or (p i)

/-- The slots after as many of them were cleared. -/
def clearSlots (k : Nat) (q : Fin 6 → Option (List UInt8)) (i : Fin 6) : Option (List UInt8) :=
  if i.val < k then none else q i

@[simp] lemma fill_nil : fill [] p = p := by
  funext i
  simp [fill]

lemma fill_concat (item : List UInt8) (h : es.length < 6) :
    Function.update (fill es p) ⟨es.length, h⟩ (some item) = fill (es ++ [item]) p := by
  funext i
  by_cases same : i = ⟨es.length, h⟩
  · simp [same, fill]
  · have ne : i.val ≠ es.length := fun e => same (Fin.ext e)
    rw [Function.update_of_ne same, fill, fill]
    rcases Nat.lt_or_gt_of_ne ne with lt | gt
    · rw [List.getElem?_append_left lt]
    · rw [List.getElem?_eq_none (Nat.le_of_lt gt), List.getElem?_eq_none (by simp; omega)]

lemma clearSlots_succ {k : Nat} (h : k < 6) :
    Function.update (clearSlots k q) ⟨k, h⟩ none = clearSlots (k + 1) q := by
  funext i
  by_cases same : i = ⟨k, h⟩
  · simp [same, clearSlots]
  · have ne : i.val ≠ k := fun e => same (Fin.ext e)
    rw [Function.update_of_ne same, clearSlots, clearSlots]
    rcases Nat.lt_or_gt_of_ne ne with lt | gt
    · rw [if_pos lt, if_pos (by omega)]
    · rw [if_neg (by omega), if_neg (by omega)]

/-- The loop of case 287 stores the items one after the other. -/
lemma foldlM_storeItem (es : List (List UInt8)) (st : GemSt)
    (short : ∀ t ∈ ts, t.length < RES_SIZE)
    (room : ∀ item ∈ ts.filterMap env.regexConsum.captured,
      item.length + 1 ≤ env.room (item.length - 1))
    (few : (es ++ ts.filterMap env.regexConsum.captured).length ≤ 6) (ptr3 : st.ptr3 = fill es p)
    (loc2 : st.loc2 = es.length) :
    ts.foldlM (fun st t => storeItem env t st) st =
      some { st with
        ptr3 := fill (es ++ ts.filterMap env.regexConsum.captured) p
        loc2 := (es ++ ts.filterMap env.regexConsum.captured).length } := by
  induction ts generalizing st es with
  | nil =>
    obtain ⟨block, _, _, out⟩ := st
    simp only at ptr3 loc2
    simp [ptr3, loc2]
  | cons t ts ih =>
    obtain ⟨first, rest⟩ := List.forall_mem_cons.mp short
    rw [List.foldlM_cons, storeItem, filterRegex_eq (Regex.fits_of_length first)]
    cases h : env.regexConsum.captured t with
    | none =>
      rw [List.filterMap_cons_none h] at room few ⊢
      exact ih es st rest room few ptr3 loc2
    | some item =>
      rw [List.filterMap_cons_some h] at room few ⊢
      obtain ⟨fits, others⟩ := List.forall_mem_cons.mp room
      have slot : es.length < 6 := by
        rw [List.length_append, List.length_cons] at few
        omega
      rw [List.append_cons] at few ⊢
      simp only [Option.bind_eq_bind, Option.bind_some, loc2, slot, dite_true, fits, if_true, ptr3,
        fill_concat item slot, Option.pure_def]
      rw [ih _ _ rest others few rfl (by simp)]

/-- What case 288 prints for the counts from the slot `k` on. -/
def slotText (q : Fin 6 → Option (List UInt8)) : Nat → List (List UInt8) → List UInt8
  | _, [] => []
  | k, c :: cs =>
    (if h : k < 6 then
      match q ⟨k, h⟩ with
      | none => []
      | some item => (if k > 0 then [44] else []) ++ pairText item c
    else []) ++ slotText q (k + 1) cs

/-- The loop of case 288 prints the items of the slots with their counts, and empties the slots. -/
lemma foldlM_printItem (k : Nat) (cs : List (List UInt8)) (st : GemSt) (few : k + cs.length ≤ 6)
    (ptr3 : st.ptr3 = clearSlots k q) (loc2 : st.loc2 = k) :
    cs.foldlM (fun st t => printItem t st) st =
      some { st with
        ptr3 := clearSlots (k + cs.length) q
        loc2 := k + cs.length
        out := st.out ++ slotText q k cs } := by
  induction cs generalizing st k with
  | nil =>
    obtain ⟨block, _, _, _⟩ := st
    simp only at ptr3 loc2
    simp [ptr3, loc2, slotText]
  | cons c cs ih =>
    rw [List.length_cons] at few
    have slot : k < 6 := by omega
    have held : clearSlots k q ⟨k, slot⟩ = q ⟨k, slot⟩ := by
      rw [clearSlots, if_neg (Nat.lt_irrefl _)]
    have cleared := clearSlots_succ (q := q) slot
    have length : k + (c :: cs).length = k + 1 + cs.length := by
      rw [List.length_cons]
      omega
    rw [List.foldlM_cons, printItem, slotText, length]
    simp only [loc2, slot, dite_true, ptr3, held]
    cases h : q ⟨k, slot⟩ with
    | none =>
      -- no item: the slot is empty, and nothing is printed
      rw [h] at held
      rw [Function.update_eq_self_iff.mpr held.symm] at cleared
      simp only [Option.bind_eq_bind, Option.bind_some]
      rw [ih (k + 1) _ (by omega) cleared rfl]
      rfl
    | some item =>
      simp only [Option.bind_eq_bind, Option.bind_some]
      rw [ih (k + 1) _ (by omega) cleared rfl]
      split <;> simp

/-- Items in the first slots only: they are printed as a list. -/
lemma slotText_fill (k : Nat) (cs : List (List UInt8)) (few : k + cs.length ≤ 6) :
    slotText (fill es fun _ => none) k cs =
      (if k > 0 ∧ List.zipWith pairText (es.drop k) cs ≠ [] then [44] else []) ++
        List.intercalate [44] (List.zipWith pairText (es.drop k) cs) := by
  induction cs generalizing k with
  | nil => simp [slotText]
  | cons c cs ih =>
    rw [List.length_cons] at few
    rw [slotText, dif_pos (by omega), ih (k + 1) (by omega), fill, Option.or_none]
    by_cases there : k < es.length
    · rw [List.drop_eq_getElem_cons there, List.zipWith_cons_cons, List.getElem?_eq_getElem there]
      by_cases last : List.zipWith pairText (es.drop (k + 1)) cs = []
      · simp [last]
      · rw [List.intercalate_cons_of_ne_nil last]
        simp [last]
    · have behind : es.length ≤ k := by omega
      rw [List.getElem?_eq_none behind, List.drop_eq_nil_of_le behind,
        List.drop_eq_nil_of_le (Nat.le_succ_of_le behind)]
      simp

/-- What is printed depends on the slots that the counts reach. -/
lemma slotText_congr {q' : Fin 6 → Option (List UInt8)} (k : Nat) (cs : List (List UInt8))
    (same : ∀ i : Fin 6, k ≤ i.val → i.val < k + cs.length → q i = q' i) :
    slotText q k cs = slotText q' k cs := by
  induction cs generalizing k with
  | nil => rfl
  | cons c cs ih =>
    rw [List.length_cons] at same
    rw [slotText, slotText, ih (k + 1) fun i lo hi => same i (by omega) (by omega)]
    split
    next slot => rw [same ⟨k, slot⟩ le_rfl (by simp)]
    next => rfl

/-- With more slots that hold an item more is printed, and as much only if no count reaches them. -/
lemma slotText_length {q' : Fin 6 → Option (List UInt8)} (more : ∀ i, q i = none ∨ q i = q' i)
    (k : Nat) (cs : List (List UInt8)) :
    (slotText q k cs).length ≤ (slotText q' k cs).length ∧
      ((slotText q' k cs).length ≤ (slotText q k cs).length →
        ∀ i : Fin 6, k ≤ i.val → i.val < k + cs.length → q i = q' i) := by
  induction cs generalizing k with
  | nil => exact ⟨le_rfl, fun _ i lo hi => by rw [List.length_nil] at hi; omega⟩
  | cons c cs ih =>
    obtain ⟨le, eq⟩ := ih (k + 1)
    rw [slotText, slotText, List.length_append, List.length_append, List.length_cons]
    by_cases slot : k < 6
    · rw [dif_pos slot, dif_pos slot]
      have first : q ⟨k, slot⟩ = q' ⟨k, slot⟩ ∨ q ⟨k, slot⟩ = none ∧ q' ⟨k, slot⟩ ≠ none := by
        obtain empty | same := more ⟨k, slot⟩
        · by_cases same : q' ⟨k, slot⟩ = none
          · exact .inl (empty.trans same.symm)
          · exact .inr ⟨empty, same⟩
        · exact .inl same
      obtain same | ⟨empty, other⟩ := first
      · rw [same]
        refine ⟨by omega, fun few i lo hi => ?_⟩
        obtain rfl | lt := Nat.eq_or_lt_of_le lo
        · exact same
        · exact eq (by omega) i lt (by omega)
      · obtain ⟨item, held⟩ := Option.ne_none_iff_exists'.mp other
        rw [empty, held]
        have pair : 0 < (pairText item c).length := by
          rw [pairText]
          exact Nat.succ_pos _
        simp only [List.length_append, List.length_nil]
        exact ⟨by omega, fun few => by omega⟩
    · rw [dif_neg slot, dif_neg slot]
      refine ⟨by omega, fun few i lo hi => ?_⟩
      have := i.isLt
      omega

end Slots

section Row

variable {env : GemEnv} {line : Line} {p : Fin 6 → Option (List UInt8)}

lemma gemSwitch_items (row : GemRow env line) (fits : GemFits env line) (st : GemSt) :
    gemSwitch env 287 (column 287 line) st =
      some { st with ptr3 := fill (items env line) st.ptr3, loc2 := (items env line).length } := by
  unfold gemSwitch
  simp only [strntokEach_tokens (d := itemBreak) (by decide) (column_plain 287 line) fits.item]
  exact foldlM_storeItem [] _ fits.item fits.room row.items fill_nil.symm rfl

/-- The slots after a row. -/
def slotsAfter (env : GemEnv) (line : Line) (p : Fin 6 → Option (List UInt8)) :
    Fin 6 → Option (List UInt8) :=
  if 0 < (items env line).length then clearSlots (counts line).length (fill (items env line) p)
  else p

/-- No count of the row reaches a slot without an item of the row that holds another one. -/
def Unreached (env : GemEnv) (line : Line) (p : Fin 6 → Option (List UInt8)) : Prop :=
  0 < (items env line).length →
    ∀ i : Fin 6, i.val < (counts line).length → (items env line).length ≤ i.val → p i = none

/-- What case 288 prints for a row, with what the slots held before. -/
def rowText (env : GemEnv) (line : Line) (p : Fin 6 → Option (List UInt8)) : List UInt8 :=
  text "\"consumable\":[" ++
    (if 0 < (items env line).length then slotText (fill (items env line) p) 0 (counts line)
      else []) ++
    text "],"

/-- It is the items with their counts exactly when no other slot is reached that holds an item. -/
lemma rowText_eq_iff (row : GemRow env line) :
    rowText env line p = consumable env line ↔ Unreached env line p := by
  have own : slotText (fill (items env line) fun _ => none) 0 (counts line) =
      List.intercalate [44] (List.zipWith pairText (items env line) (counts line)) := by
    rw [slotText_fill 0 _ (by rw [Nat.zero_add]; exact row.counts), List.drop_zero]
    simp
  rw [rowText, consumable, ← own, List.append_left_inj, List.append_right_inj, Unreached]
  by_cases pos : 0 < (items env line).length
  · rw [if_pos pos]
    have more (i : Fin 6) : fill (items env line) (fun _ => none) i = none ∨
        fill (items env line) (fun _ => none) i = fill (items env line) p i := by
      rw [fill, fill]
      cases (items env line)[i.val]? with
      | none => exact .inl rfl
      | some item => exact .inr rfl
    constructor
    · intro same _ i reached behind
      have equal := (slotText_length more 0 (counts line)).2 (by rw [same]) i (Nat.zero_le _)
        (by omega)
      rw [fill, fill, List.getElem?_eq_none behind, Option.none_or, Option.none_or] at equal
      exact equal.symm
    · intro empty
      refine slotText_congr 0 (counts line) fun i _ reached => ?_
      rw [fill, fill]
      cases h : (items env line)[i.val]? with
      | none => exact (congrArg _ (empty pos i (by omega) (List.getElem?_eq_none_iff.mp h)) :)
      | some item => rfl
  · have no_items : items env line = [] := List.length_eq_zero_iff.mp (by omega)
    rw [if_neg pos, own, no_items]
    exact ⟨fun _ items => absurd items (by simp), fun _ => by simp⟩

lemma gemSwitch_counts (row : GemRow env line) (fits : GemFits env line)
    (p : Fin 6 → Option (List UInt8)) :
    ∃ loc2, gemSwitch env 288 (column 288 line)
        { block := true, ptr3 := fill (items env line) p, loc2 := (items env line).length,
          out := [] } =
      some { block := true, ptr3 := slotsAfter env line p, loc2, out := rowText env line p } := by
  by_cases none : (items env line).length = 0
  · have no_items : items env line = [] := List.length_eq_zero_iff.mp none
    refine ⟨0, ?_⟩
    simp [gemSwitch, slotsAfter, rowText, no_items]
  · have pos : 0 < (items env line).length := Nat.pos_of_ne_zero none
    have loop := foldlM_printItem (q := fill (items env line) p) 0 (counts line)
      { block := true, ptr3 := fill (items env line) p, loc2 := 0, out := text "\"consumable\":[" }
      (by rw [Nat.zero_add]; exact row.counts) rfl rfl
    refine ⟨(counts line).length, ?_⟩
    simp only [gemSwitch, List.nil_append, pos, if_true, Option.bind_eq_bind,
      strntokEach_tokens (d := countBreak) (by decide) (column_plain 288 line) fits.count]
    rw [show tokens countBreak (column 288 line) = counts line from rfl, loop]
    simp [slotsAfter, rowText, pos]

/-- How far the row is exported before the column `n`. -/
inductive Exported (env : GemEnv) (line : Line) (p : Fin 6 → Option (List UInt8)) :
    Nat → GemSt → Prop where
  | start {loc2} :
    Exported env line p 0 { block := false, ptr3 := p, loc2, out := [] }
  | before {n loc2} :
    1 ≤ n → n ≤ 287 →
    Exported env line p n { block := true, ptr3 := p, loc2, out := [] }
  | stored :
    Exported env line p 288
      { block := true, ptr3 := fill (items env line) p, loc2 := (items env line).length, out := [] }
  | printed {n loc2} :
    289 ≤ n →
    Exported env line p n
      { block := true, ptr3 := slotsAfter env line p, loc2, out := rowText env line p }

lemma gemColumn_exported (row : GemRow env line) (fits : GemFits env line) {n : Nat} {st : GemSt}
    (so_far : Exported env line p n st) :
    ∃ st', gemColumn env n (column n line) st = some st' ∧ Exported env line p (n + 1) st' := by
  have later : ∀ {m} {st : GemSt}, m ≠ 0 → st.block = true →
      gemColumn env m (column m line) st = gemSwitch env m (column m line) st := by
    rintro m ⟨_, _, _, _⟩ ne ⟨⟩
    simp [gemColumn, enterBlock_later ne]
  have other : ∀ {m} (st : GemSt), m ≠ 287 → m ≠ 288 →
      gemSwitch env m (column m line) st = some st := by
    intro m st ne ne'
    unfold gemSwitch
    split
    · exact absurd rfl ne
    · exact absurd rfl ne'
    · rfl
  cases so_far with
  | @start loc2 =>
    obtain ⟨id, inRange⟩ := row.inRange
    refine ⟨_, ?_, @Exported.before env line p 1 loc2 le_rfl (by decide)⟩
    simp [gemColumn, enterBlock_first inRange, gemSwitch]
  | @before n loc2 lo hi =>
    rw [later (by omega) rfl]
    rcases Nat.lt_or_ge n 287 with lt | ge
    · exact ⟨_, other _ (by omega) (by omega), .before (by omega) (by omega)⟩
    · obtain rfl : n = 287 := by omega
      exact ⟨_, gemSwitch_items row fits _, .stored⟩
  | stored =>
    obtain ⟨loc2, e⟩ := gemSwitch_counts row fits p
    rw [later (by decide) rfl]
    exact ⟨_, e, .printed le_rfl⟩
  | printed behind =>
    rw [later (by omega) rfl]
    exact ⟨_, other _ (by omega) (by omega), .printed (by omega)⟩

lemma foldColumns_exported (row : GemRow env line) (fits : GemFits env line)
    (p : Fin 6 → Option (List UInt8)) (loc2 : Nat) :
    ∃ loc2',
      foldColumns (gemColumn env) 0 (columns line.chars)
        { block := false, ptr3 := p, loc2, out := [] } =
          some {
          block := true, ptr3 := slotsAfter env line p, loc2 := loc2',
          out := rowText env line p } := by
  obtain ⟨st, fold, exported⟩ :=
    foldColumns_invariant (gemColumn env) (Exported env line p) (columns line.chars)
      (@Exported.start env line p loc2) (fun i f st found so_far => by
      rw [Nat.zero_add] at so_far ⊢
      rw [← column_eq found]
      exact gemColumn_exported row fits so_far)
  have enough := row.enough
  rw [Nat.zero_add] at exported
  generalize len : (columns line.chars).length = n at exported enough
  cases exported with
  | start => omega
  | before => omega
  | stored => omega
  | printed => exact ⟨_, fold⟩

/-- The rows behind one that was exported. -/
lemma gemRows_cons {tmp : Buf} (st : GemSt) {st' : GemSt} (lines : List Line)
    (size : tmp.length = TITLE_BUF + 1)
    (fits : ∀ f ∈ columns line.chars, f.length < TITLE_BUF + 1)
    (fold : foldColumns (gemColumn env) 0 (columns line.chars)
      { st with block := false, out := [] } = some st') :
    ∃ tmp', tmp'.length = TITLE_BUF + 1 ∧
      gemRows env (line :: lines) tmp st = (gemRows env lines tmp' st').map fun r =>
          (st'.out :: r.1, r.2) := by
  obtain ⟨tmp', loop, len⟩ := rowLoop_fold tmp (by rw [size]; exact fits) fold
  rw [size] at loop len
  refine ⟨tmp', len, ?_⟩
  rw [gemRows, loop, Option.bind_eq_bind, Option.bind_some]
  cases gemRows env lines tmp' st' <;> rfl

/-- The slots that hold an item are the left over ones. -/
def Held (history : List (Nat × Nat)) (p : Fin 6 → Option (List UInt8)) : Prop :=
  ∀ i : Fin 6, p i ≠ none ↔ leftover i.val history = true

/-- So they are after one more row. -/
lemma Held.row {history : List (Nat × Nat)} (held : Held history p) (env : GemEnv) (line : Line) :
    Held (sizes env line :: history) (slotsAfter env line p) := by
  intro i
  rw [slotsAfter, sizes, leftover]
  by_cases pos : 0 < (items env line).length
  · rw [if_pos pos, clearSlots]
    by_cases reached : i.val < (counts line).length
    · simp [pos, reached]
    · rw [if_neg reached, fill]
      by_cases stored : i.val < (items env line).length
      · simp [reached, stored]
      · rw [List.getElem?_eq_none (by omega), Option.none_or, held i]
        simp [reached, stored]
  · have none : ¬ i.val < (items env line).length := by omega
    rw [if_neg pos, held i]
    simp [pos, none]

/-- The row reaches no slot that holds an item of an earlier one exactly when the history stays
clean. -/
lemma Held.unreached_iff {history : List (Nat × Nat)} (held : Held history p)
    (row : GemRow env line) (clean : Clean history) :
    Unreached env line p ↔ Clean (sizes env line :: history) := by
  rw [Unreached, sizes, Clean, and_iff_left clean]
  refine forall_congr' fun pos =>
    ⟨fun empty i reached behind => ?_, fun clean i reached behind => ?_⟩
  · have lt : i < 6 := Nat.lt_of_lt_of_le reached row.counts
    have none := empty ⟨i, lt⟩ reached behind
    exact Bool.eq_false_of_not_eq_true fun left => (held ⟨i, lt⟩).mpr left none
  · by_contra ne
    have left := (held i).mp ne
    rw [clean i.val reached behind] at left
    cases left

/-- A history that is clean was so before. -/
lemma Clean.of_append {later earlier : List (Nat × Nat)} (clean : Clean (later ++ earlier)) :
    Clean earlier := by
  induction later with
  | nil => exact clean
  | cons _ _ ih => exact ih clean.2

/-- The rows of a file, after others. -/
lemma gemRows_iff {rows : List Line} (history : List (Nat × Nat)) {tmp : Buf} (st : GemSt)
    (row : ∀ line ∈ rows, GemRow env line) (fits : ∀ line ∈ rows, GemFits env line)
    (before : Clean history) (held : Held history st.ptr3) (size : tmp.length = TITLE_BUF + 1) :
    (∃ st' tmp', gemRows env rows tmp st = some (rows.map (consumable env), st', tmp')) ↔
      Clean ((rows.map (sizes env)).reverse ++ history) := by
  induction rows generalizing history tmp st with
  | nil => exact ⟨fun _ => before, fun _ => ⟨st, tmp, rfl⟩⟩
  | cons line rows ih =>
    obtain ⟨row, rows_ok⟩ := List.forall_mem_cons.mp row
    obtain ⟨fit, rows_fit⟩ := List.forall_mem_cons.mp fits
    obtain ⟨loc2, fold⟩ := foldColumns_exported row fit st.ptr3 st.loc2
    obtain ⟨tmp₁, size₁, e⟩ := gemRows_cons st rows size fit.columns fold
    have rest (clean : Clean (sizes env line :: history)) := ih (sizes env line :: history)
      { block := true, ptr3 := slotsAfter env line st.ptr3, loc2, out := rowText env line st.ptr3 }
      rows_ok rows_fit clean (held.row env line) size₁
    rw [List.map_cons, List.map_cons, List.reverse_cons, List.append_assoc,
      List.singleton_append, e]
    constructor
    · rintro ⟨st', tmp', printed⟩
      obtain ⟨r, others, own⟩ := Option.map_eq_some_iff.mp printed
      obtain ⟨first, tail⟩ := List.cons.inj (Prod.mk.inj own).1
      have clean := (held.unreached_iff row before).mp ((rowText_eq_iff row).mp first)
      exact (rest clean).mp ⟨r.2.1, r.2.2, by rw [others, ← tail]⟩
    · intro clean
      have here := clean.of_append
      obtain ⟨st', tmp', others⟩ := (rest here).mpr clean
      refine ⟨st', tmp', ?_⟩
      rw [others, Option.map_some,
        (rowText_eq_iff row).mpr ((held.unreached_iff row before).mpr here)]

end Row

/-- For every sequence of rows the exporter is meant for, that fit its buffers: the text printed
for each row is the list of its own items with its own counts exactly when no row has a count, but
no item, for a slot that still holds an item of an earlier row. -/
theorem gem_rows_independent (env : GemEnv) (rows : List Line)
    (row : ∀ line ∈ rows, GemRow env line) (fits : ∀ line ∈ rows, GemFits env line)
    (tmp : Vector UInt8 (TITLE_BUF + 1)) :
    (∃ st tmp', gemRows env rows tmp.toList
        { block := false, ptr3 := fun _ => none, loc2 := 0, out := [] } =
      some (rows.map (consumable env), st, tmp')) ↔ Clean (rows.map (sizes env)).reverse := by
  have all :=
    gemRows_iff [] { block := false, ptr3 := fun _ => none, loc2 := 0, out := [] } row fits
    trivial (fun i => by simp [leftover]) tmp.length_toList
  rwa [List.append_nil] at all

/-- A pattern that captures one digit behind `"item:"` at the start of a text, as `regex_consum`
does. -/
def digitRegex : Regex where
  nsub := 1
  few := Regex.one_group
  exec src :=
    if digit : text "item:" <+: src ∧ 6 ≤ src.length then
      some fun i => if i.val = 0 then ⟨0, 6, Nat.zero_le 6, digit.2⟩
        else ⟨5, 6, Nat.le_succ 5, digit.2⟩
    else none

lemma digitRegex_captured_ne (src : List UInt8) : digitRegex.captured src ≠ some [] := by
  simp only [Regex.captured, digitRegex]
  split
  · rename_i digit
    simp [Span.chars]
    omega
  · simp

def digitPattern : ItemRegex where
  toRegex := digitRegex
  captured_ne := digitRegex_captured_ne

/-- Ids from 1 to 9, and an allocator that gives 24 characters more than asked for. -/
def sampleGem : GemEnv where
  first := 1
  last := 9
  regexConsum := digitPattern
  room n := n + 24

/-- A row of ones with these items and counts. -/
def gemColumns (consumed numbers : String) : List (List UInt8) :=
  List.replicate 287 (text "1") ++ [text consumed, text numbers]

/-- There is a line with these columns. -/
lemma exists_gemLine {consumed numbers : String} (item : isField (text consumed) = true)
    (count : isField (text numbers) = true) :
    ∃ line : Line, columns line.chars = gemColumns consumed numbers := by
  refine exists_line (List.append_ne_nil_of_right_ne_nil _ (List.cons_ne_nil _ _)) fun f mem => ?_
  rw [gemColumns, List.mem_append, List.mem_cons, List.mem_singleton] at mem
  rcases mem with mem | rfl | rfl
  · rw [(List.mem_replicate.mp mem).2]
    decide
  · exact item
  · exact count

section Sample

variable {consumed numbers : String} {line : Line}

/-- The columns of such a row that matter. -/
lemma gemColumns_column (cols : columns line.chars = gemColumns consumed numbers) :
    column 0 line = text "1" ∧ column 287 line = text consumed ∧
      column 288 line = text numbers := by
  rw [column, column, column, cols]
  exact ⟨rfl, rfl, rfl⟩

/-- Such a row is one the exporter is meant for. -/
lemma gemColumns_row (cols : columns line.chars = gemColumns consumed numbers)
    (short : (text consumed).length < RES_SIZE ∧ (text numbers).length < RES_SIZE)
    (few : ((tokens itemBreak (text consumed)).filterMap digitPattern.captured).length ≤ 6 ∧
      (tokens countBreak (text numbers)).length ≤ 6) :
    GemRow sampleGem line ∧ GemFits sampleGem line := by
  obtain ⟨id, item, count⟩ := gemColumns_column cols
  constructor
  · refine ⟨⟨1, by rw [id]; decide, le_refl 1, show (1 : Int) ≤ 9 by decide⟩, ?_, ?_, ?_⟩
    · rw [cols, gemColumns, List.length_append, List.length_replicate]
      exact le_rfl
    · rw [items, item]
      exact few.1
    · rw [counts, count]
      exact few.2
  · refine ⟨?_, ?_, ?_, ?_⟩
    · have large : RES_SIZE < TITLE_BUF + 1 := by decide
      intro f mem
      rw [cols, gemColumns, List.mem_append, List.mem_cons, List.mem_singleton] at mem
      rcases mem with mem | rfl | rfl
      · rw [(List.mem_replicate.mp mem).2]
        decide
      · exact short.1.trans large
      · exact short.2.trans large
    · rw [item]
      exact fun t mem => Nat.lt_of_le_of_lt (sublist_of_tokens mem).length_le short.1
    · rw [counts, count]
      exact fun t mem => Nat.lt_of_le_of_lt (sublist_of_tokens mem).length_le short.2
    · intro item _
      simp only [sampleGem]
      omega

end Sample

/-- A row with an item and a count, and one with an item and two counts. -/
theorem gem_rows_independent_two :
    ∃ a b : Line, columns a.chars = gemColumns "item:1" "5" ∧
      columns b.chars = gemColumns "item:3" "6,7" ∧
    (∀ line ∈ [a, b], GemRow sampleGem line ∧ GemFits sampleGem line) ∧
    ∃ st tmp', gemRows sampleGem [a, b] (List.replicate (TITLE_BUF + 1) 0)
        { block := false, ptr3 := fun _ => none, loc2 := 0, out := [] } =
      some ([text "\"consumable\":[[[\"1\",\"grocery\"],5]],",
        text "\"consumable\":[[[\"3\",\"grocery\"],6]],"], st, tmp') := by
  obtain ⟨a, cols_a⟩ : ∃ a : Line, columns a.chars = gemColumns "item:1" "5" :=
    exists_gemLine (by decide) (by decide)
  obtain ⟨b, cols_b⟩ : ∃ b : Line, columns b.chars = gemColumns "item:3" "6,7" :=
    exists_gemLine (by decide) (by decide)
  have ok : ∀ line ∈ [a, b], GemRow sampleGem line ∧ GemFits sampleGem line :=
    List.forall_mem_cons.mpr ⟨gemColumns_row cols_a (by decide) (by decide),
      List.forall_mem_singleton.mpr (gemColumns_row cols_b (by decide) (by decide))⟩
  obtain ⟨_, item_a, count_a⟩ := gemColumns_column cols_a
  obtain ⟨_, item_b, count_b⟩ := gemColumns_column cols_b
  have clean : Clean ([a, b].map (sizes sampleGem)).reverse := by
    simp only [List.map_cons, List.map_nil, sizes, items, counts, item_a, count_a, item_b, count_b]
    exact ⟨by decide, by decide, trivial⟩
  have printed : [a, b].map (consumable sampleGem) =
      [text "\"consumable\":[[[\"1\",\"grocery\"],5]],",
          text "\"consumable\":[[[\"3\",\"grocery\"],6]],"] := by
    simp only [List.map_cons, List.map_nil, consumable, items, counts, item_a, count_a, item_b,
      count_b]
    decide +kernel
  refine ⟨a, b, cols_a, cols_b, ok, ?_⟩
  rw [← printed]
  exact (gem_rows_independent sampleGem [a, b] (fun line mem => (ok line mem).1)
    (fun line mem => (ok line mem).2)
    ⟨Array.replicate (TITLE_BUF + 1) 0, Array.size_replicate⟩).mpr clean

/-- A row with two items and one count, and one with one item and two counts: the second item of
the first row is printed with the second count of the second row. -/
theorem item_of_earlier_row_printed :
    ∃ a b : Line, columns a.chars = gemColumns "item:1,1,item:2" "5" ∧
      columns b.chars = gemColumns "item:3" "6,7" ∧
    (∀ line ∈ [a, b], GemRow sampleGem line ∧ GemFits sampleGem line) ∧
    consumable sampleGem b = text "\"consumable\":[[[\"3\",\"grocery\"],6]]," ∧
    ∃ st tmp', gemRows sampleGem [a, b] (List.replicate (TITLE_BUF + 1) 0)
        { block := false, ptr3 := fun _ => none, loc2 := 0, out := [] } =
      some ([text "\"consumable\":[[[\"1\",\"grocery\"],5]],",
        text "\"consumable\":[[[\"3\",\"grocery\"],6],[[\"2\",\"grocery\"],7]],"], st, tmp') := by
  obtain ⟨a, cols_a⟩ : ∃ a : Line, columns a.chars = gemColumns "item:1,1,item:2" "5" :=
    exists_gemLine (by decide) (by decide)
  obtain ⟨b, cols_b⟩ : ∃ b : Line, columns b.chars = gemColumns "item:3" "6,7" :=
    exists_gemLine (by decide) (by decide)
  have ok_a := gemColumns_row cols_a (by decide) (by decide)
  have ok_b := gemColumns_row cols_b (by decide) (by decide)
  obtain ⟨_, item_b, count_b⟩ := gemColumns_column cols_b
  have folds : ((foldColumns (gemColumn sampleGem) 0 (gemColumns "item:1,1,item:2" "5")
        { block := false, ptr3 := fun _ => none, loc2 := 0, out := [] }).bind fun st =>
      (foldColumns (gemColumn sampleGem) 0 (gemColumns "item:3" "6,7")
          { st with block := false, out := [] }).map fun st' =>
        (st.out, st'.out)) =
      some (text "\"consumable\":[[[\"1\",\"grocery\"],5]],",
        text "\"consumable\":[[[\"3\",\"grocery\"],6],[[\"2\",\"grocery\"],7]],") := by
    decide +kernel
  obtain ⟨st, fold_a, folds⟩ := Option.bind_eq_some_iff.mp folds
  obtain ⟨st', fold_b, outs⟩ := Option.map_eq_some_iff.mp folds
  obtain ⟨out_a, out_b⟩ := Prod.mk.inj outs
  rw [← cols_a] at fold_a
  rw [← cols_b] at fold_b
  have size : (List.replicate (TITLE_BUF + 1) (0 : UInt8)).length = TITLE_BUF + 1 :=
    List.length_replicate
  obtain ⟨tmp₁, size₁, rows_a⟩ :=
    gemRows_cons { block := false, ptr3 := fun _ => none, loc2 := 0, out := [] } [b] size
      ok_a.2.columns fold_a
  obtain ⟨tmp', _, rows_b⟩ := gemRows_cons st [] size₁ ok_b.2.columns fold_b
  refine ⟨a, b, cols_a, cols_b, List.forall_mem_cons.mpr ⟨ok_a, List.forall_mem_singleton.mpr ok_b⟩,
    ?_, st', tmp', ?_⟩
  · rw [consumable, items, counts, item_b, count_b]
    decide +kernel
  · rw [rows_a, rows_b, ← out_a, ← out_b]
    rfl

end SweetClib.Bns
