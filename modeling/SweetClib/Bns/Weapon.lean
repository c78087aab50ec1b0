import SweetClib.Bns.Regex
import SweetClib.Bns.Load

/-!
# The weapon exporters

Model of the switch over the columns of a row in `lib/app/bns/real_weapon.c`, and of case 267 in
its copy `lib/app/bns/weapon_handle.c`. A row is read by `rowLoop`, and what is printed is appended
to `out`.

The parameters are the range of ids from the command line, the compiled patterns, the icon table,
the `value` that the uninitialised record of a query holds, and what `printf` writes for `%s` of
the null pointer (`nullText`, and `none` when that is a fault). Allocations succeed.

C → Lean naming: `tmp_id` → `tmpId`, `atk_min` → `atkMin`; `numberColumns`, `weaponTypes` and
`professions` are the cases of the switch and the chains of `strcmp` that differ in their texts
only; `weaponSwitch` is the switch, `weaponColumn` a round of the row loop and `weaponRow` the row.
Case 266 is `weaponLocations` and case 267 `weaponEffects`, `handleEffects` in the copy. A loop
that prints a list counts its entries to print commas between them (`Listing`).

The copies of case 267 differ in their guard: `real_weapon.c` looks at the whole column where
`weapon_handle.c` looks at the segment that is printed.
-/

namespace SweetClib.Bns
open SweetClib.Lib SweetClib.Linked SweetClib.Hash

/-- A list that is being printed: the number of its entries (C `loc_i`, `loc_2`) and the output. -/
structure Listing where
  loc : Nat
  out : List UInt8

/-- Print one more entry, behind a comma if it is not the first one. -/
def Listing.add (l : Listing) (entry : List UInt8) : Listing :=
  { loc := l.loc + 1, out := (if l.loc > 0 then l.out ++ [44] else l.out) ++ entry }

/-- The delimiter `"><br/>"` of the effects. -/
def effectBreak : CStr := ⟨[62, 60, 98, 114, 47, 62], by decide⟩

/-- The text before the effects. -/
def effectsOpen : List UInt8 := text "\"以下效果随机出现一种\":["

/-- One effect in `real_weapon.c`. The guard looks at the whole column. -/
def weaponEffect (regexPatten : Regex) (nullText : Option (List UInt8)) (title ptr2 : List UInt8)
    (l : Listing) :
    Option Listing := do
  let guard ← filterRegex regexPatten title
  if guard ≠ none then
    let matched ← filterRegex regexPatten ptr2
    let shown ← matched <|> nullText
    return l.add (quoted shown)
  else return l.add (quoted [])

/-- One effect in `weapon_handle.c`. -/
def handleEffect (regexPatten : Regex) (nullText : Option (List UInt8)) (ptr2 : List UInt8)
    (l : Listing) :
    Option Listing := do
  let guard ← filterRegex regexPatten ptr2
  if guard ≠ none then
    let matched ← filterRegex regexPatten ptr2
    let shown ← matched <|> nullText
    return l.add (quoted shown)
  else return l.add (quoted [])

/-- The list of the effects, which ends the object. -/
def effectsLoop (effect : List UInt8 → Listing → Option Listing) (title out : List UInt8) :
    Option (List UInt8) := do
  let l ← strntokEach effectBreak.chars effectBreak.chars.length effect (title.length + 2)
    (some title)
    { loc := 0, out := out ++ effectsOpen }
  return l.out ++ text "]\x7d\n"

/-- Case 267 of `real_weapon.c`. -/
def weaponEffects (regexPatten : Regex) (nullText : Option (List UInt8)) (title out : List UInt8) :
    Option (List UInt8) :=
  effectsLoop (weaponEffect regexPatten nullText title) title out

/-- Case 267 of `weapon_handle.c`. -/
def handleEffects (regexPatten : Regex) (nullText : Option (List UInt8)) (title out : List UInt8) :
    Option (List UInt8) :=
  effectsLoop (handleEffect regexPatten nullText) title out

section Lists

variable {body : List UInt8 → Listing → Option Listing} {ts : List (List UInt8)}

/-- The list of the entries `es` behind `out`. -/
def listing (out : List UInt8) (es : List (List UInt8)) : Listing :=
  { loc := es.length, out := out ++ List.intercalate [44] es }

lemma listing_add (out : List UInt8) (es : List (List UInt8)) (e : List UInt8) :
    (listing out es).add e = listing out (es ++ [e]) := by
  by_cases empty : es = []
  · simp [listing, Listing.add, empty]
  · have some_entry : es.length > 0 := List.length_pos_iff.mpr empty
    simp only [listing, Listing.add, some_entry, if_true, List.length_append, List.length_singleton,
      intercalate_concat empty, List.append_assoc]

/-- A loop that prints an entry, or nothing, for each token prints the list of the entries. -/
lemma foldlM_listing (out : List UInt8) (entry : List UInt8 → Option (List UInt8))
    (each : ∀ t ∈ ts, ∀ l, body t l = some ((entry t).elim l l.add)) :
    ts.foldlM (fun l t => body t l) ({ loc := 0, out := out } : Listing) =
      some (listing out (ts.filterMap entry)) := by
  suffices loop :
      ∀ es, ts.foldlM (fun l t => body t l) (listing out es) =
        some (listing out (es ++ ts.filterMap entry)) by
    have := loop []
    rwa [listing, List.intercalate_nil, List.append_nil] at this
  induction ts with
  | nil => simp
  | cons t ts ih =>
    intro es
    obtain ⟨first, rest⟩ := List.forall_mem_cons.mp each
    rw [List.foldlM_cons, first, Option.bind_eq_bind, Option.bind_some]
    cases h : entry t with
    | none =>
      rw [List.filterMap_cons_none h]
      exact ih rest es
    | some e =>
      rw [List.filterMap_cons_some h, Option.elim_some, listing_add, ih rest, List.append_assoc]
      rfl

/-- A loop over a list ends only if each round does. -/
lemma foldlM_defined {σ : Type} {f : List UInt8 → σ → Option σ} {s s' : σ}
    (loop : ts.foldlM (fun s t => f t s) s = some s') {t : List UInt8} (mem : t ∈ ts) :
    ∃ u u', f t u = some u' := by
  induction ts generalizing s with
  | nil => cases mem
  | cons t' ts ih =>
    rw [List.foldlM_cons] at loop
    obtain ⟨u, round, loop⟩ := Option.bind_eq_some_iff.mp loop
    rcases List.mem_cons.mp mem with rfl | mem
    · exact ⟨s, u, round⟩
    · exact ih loop mem

end Lists

/-- The effects of a column as they should be printed: one entry for each segment, with what is
captured in it. -/
def effectsText (regexPatten : Regex) (title : List UInt8) : List UInt8 :=
  effectsOpen ++ List.intercalate [44]
    ((tokens effectBreak title).map fun t => quoted ((regexPatten.captured t).getD [])) ++
    text "]\x7d\n"

/-- What `real_weapon.c` shows for a segment, if it does not crash. -/
def weaponShown (regexPatten : Regex) (nullText : Option (List UInt8)) (title t : List UInt8) :
    Option (List UInt8) :=
  if regexPatten.captured title = none then some [] else regexPatten.captured t <|> nullText

section Effects

variable {regexPatten : Regex} {nullText : Option (List UInt8)} {title : List UInt8}

/-- The list that is printed when each segment is an entry. -/
lemma effectsLoop_eq (effect : List UInt8 → Listing → Option Listing)
    (shown : List UInt8 → List UInt8) (plain : 0 ∉ title) (out : List UInt8)
    (short : ∀ t ∈ tokens effectBreak title, t.length < RES_SIZE)
    (each : ∀ t ∈ tokens effectBreak title, ∀ l, effect t l = some (l.add (quoted (shown t)))) :
    effectsLoop effect title out =
      some (out ++ (effectsOpen ++
        List.intercalate [44] ((tokens effectBreak title).map fun t => quoted (shown t)) ++
        text "]\x7d\n")) := by
  have list := foldlM_listing (out ++ effectsOpen) (fun t => some (quoted (shown t))) each
  rw [List.filterMap_eq_map'] at list
  rw [effectsLoop, strntokEach_tokens (by decide) plain short, list]
  simp [listing]

/-- A list is printed only if its segments fit the buffer and each of them is printed. -/
lemma of_effectsLoop {effect : List UInt8 → Listing → Option Listing} {out printed : List UInt8}
    (plain : 0 ∉ title) (e : effectsLoop effect title out = some printed) :
    (∀ t ∈ tokens effectBreak title, t.length < RES_SIZE) ∧
    ∀ t ∈ tokens effectBreak title, ∃ l l', effect t l = some l' := by
  obtain ⟨l, loop, _⟩ := Option.bind_eq_some_iff.mp e
  rw [strntokEach_eq, strntokAll_eq (by decide) plain le_rfl] at loop
  obtain ⟨ts, found, loop⟩ := Option.bind_eq_some_iff.mp loop
  obtain ⟨short, found⟩ := Option.ite_none_right_eq_some.mp found
  cases found
  exact ⟨short, fun t mem => foldlM_defined loop mem⟩

lemma weaponEffect_eq {t s : List UInt8} (fits : regexPatten.Fits title)
    (short : t.length < RES_SIZE) (shown : weaponShown regexPatten nullText title t = some s)
    (l : Listing) : weaponEffect regexPatten nullText title t l = some (l.add (quoted s)) := by
  rw [weaponEffect, filterRegex_eq fits, filterRegex_eq (Regex.fits_of_length short)]
  rw [weaponShown] at shown
  simp only [Option.bind_eq_bind, Option.bind_some]
  by_cases miss : regexPatten.captured title = none
  · rw [if_pos miss] at shown
    cases shown
    rw [if_neg (not_not.mpr miss)]
    rfl
  · rw [if_neg miss] at shown
    rw [if_pos miss, shown]
    rfl

/-- A segment is printed only if the match of the whole column fits, and then it is shown. -/
lemma of_weaponEffect {t : List UInt8} {l l' : Listing} (short : t.length < RES_SIZE)
    (e : weaponEffect regexPatten nullText title t l = some l') :
    regexPatten.Fits title ∧ ∃ s, weaponShown regexPatten nullText title t = some s := by
  obtain ⟨guard, found, e⟩ := Option.bind_eq_some_iff.mp e
  have fits := fits_of_filterRegex found
  rw [filterRegex_eq fits] at found
  cases found
  refine ⟨fits, ?_⟩
  rw [weaponShown]
  by_cases miss : regexPatten.captured title = none
  · exact ⟨[], if_pos miss⟩
  · rw [if_pos miss, filterRegex_eq (Regex.fits_of_length short)] at e
    obtain ⟨matched, found, e⟩ := Option.bind_eq_some_iff.mp e
    cases found
    obtain ⟨s, shown, _⟩ := Option.bind_eq_some_iff.mp e
    exact ⟨s, (if_neg miss).trans shown⟩

lemma handleEffect_eq {t : List UInt8} (short : t.length < RES_SIZE) (l : Listing) :
    handleEffect regexPatten nullText t l =
      some (l.add (quoted ((regexPatten.captured t).getD []))) := by
  rw [handleEffect, filterRegex_eq (Regex.fits_of_length short)]
  cases regexPatten.captured t <;> rfl

/-- `weapon_handle.c` prints the effects exactly when each segment fits the buffer. -/
lemma handleEffects_iff (plain : 0 ∉ title) (out : List UInt8) :
    handleEffects regexPatten nullText title out = some (out ++ effectsText regexPatten title) ↔
      ∀ t ∈ tokens effectBreak title, t.length < RES_SIZE := by
  constructor
  · intro e
    exact (of_effectsLoop plain e).1
  · intro short
    exact effectsLoop_eq _ _ plain out short fun t mem l => handleEffect_eq (short t mem) l

/-- What should be printed for a segment is what `real_weapon.c` shows. -/
def ShownAlike (regexPatten : Regex) (nullText : Option (List UInt8)) (title t : List UInt8) :
    Prop :=
  weaponShown regexPatten nullText title t = some ((regexPatten.captured t).getD [])

/-- A segment is shown as it should be exactly when it matches with the whole column. The
exceptions show nothing: what is captured may be empty, and the library may print nothing for a
null pointer. -/
lemma shownAlike_iff (t : List UInt8) :
    ShownAlike regexPatten nullText title t ↔
      (regexPatten.captured title = none → (regexPatten.captured t).getD [] = []) ∧
      (regexPatten.captured title ≠ none → regexPatten.captured t = none → nullText = some []) := by
  rw [ShownAlike, weaponShown]
  by_cases miss : regexPatten.captured title = none
  · simp only [miss, if_true, Option.some.injEq, forall_const, ne_eq, not_true, false_implies,
      and_true]
    exact eq_comm
  · cases found : regexPatten.captured t <;> simp [miss]

/-- The printed lists are the same exactly when each segment is shown as it should be: of the
entries of the two lists, those of the one are nowhere longer than those of the other. -/
lemma weaponEffects_iff (plain : 0 ∉ title) (out : List UInt8)
    (short : ∀ t ∈ tokens effectBreak title, t.length < RES_SIZE) :
    weaponEffects regexPatten nullText title out = some (out ++ effectsText regexPatten title) ↔
      ∀ t ∈ tokens effectBreak title,
        regexPatten.Fits title ∧ ShownAlike regexPatten nullText title t := by
  constructor
  · intro e
    have each := (of_effectsLoop plain e).2
    have defined (t) (mem : t ∈ tokens effectBreak title) : regexPatten.Fits title ∧
        ∃ s, weaponShown regexPatten nullText title t = some s := by
      obtain ⟨l, l', printed⟩ := each t mem
      exact of_weaponEffect (short t mem) printed
    let shown t := (weaponShown regexPatten nullText title t).getD []
    have list := effectsLoop_eq (weaponEffect regexPatten nullText title) shown plain out short
      fun t mem l => by
        obtain ⟨fits, s, found⟩ := defined t mem
        rw [weaponEffect_eq fits (short t mem) found]
        simp only [shown, found, Option.getD_some]
    have same := Option.some.inj (list.symm.trans e)
    simp only [effectsText, List.append_assoc, List.append_cancel_left_eq,
      List.append_cancel_right_eq] at same
    intro t mem
    obtain ⟨fits, s, found⟩ := defined t mem
    refine ⟨fits, (shownAlike_iff t).mpr ?_⟩
    by_cases miss : regexPatten.captured title = none
    · have none_shown (t) : shown t = [] := by
        simp [shown, weaponShown, miss]
      have len := length_eq_of_intercalate (fun t _ => by simp [quoted, none_shown]) same t mem
      refine ⟨fun _ => ?_, fun hit => absurd miss hit⟩
      simpa [quoted, none_shown] using len.symm
    · have len := length_eq_of_intercalate (fun t mem => by
        cases captured : regexPatten.captured t <;>
          simp [shown, quoted, weaponShown, miss, captured]) same.symm t mem
      refine ⟨fun hit => absurd hit miss, fun _ unmatched => ?_⟩
      have null : nullText = some s := by simpa [weaponShown, miss, unmatched] using found
      have empty : s = [] := by simpa [quoted, shown, found, unmatched] using len.symm
      rw [null, empty]
  · intro alike
    exact effectsLoop_eq _ _ plain out short fun t mem l =>
      weaponEffect_eq (alike t mem).1 (short t mem) (alike t mem).2 l

end Effects

/-- For every text in column 267 and every pattern, `weapon_handle.c` prints one quoted entry for
each segment, with what is captured in it, or nothing, exactly when the segments fit the buffer of
`strntok`. `real_weapon.c` prints the same exactly when, for each segment: the match of the whole
text fits the buffer of `filter_regex`; if the whole text does not match, nothing is captured in the
segment; if it does, so does the segment, unless the library prints nothing for a null pointer. -/
theorem effects_agree (regexPatten : Regex) (nullText : Option (List UInt8)) (title : CStr)
    (out : List UInt8) :
    (handleEffects regexPatten nullText title.chars out =
        some (out ++ effectsText regexPatten title.chars) ↔
      ∀ t ∈ tokens effectBreak title.chars, t.length < RES_SIZE) ∧
    ((∀ t ∈ tokens effectBreak title.chars, t.length < RES_SIZE) →
      (weaponEffects regexPatten nullText title.chars out =
          handleEffects regexPatten nullText title.chars out ↔
        ∀ t ∈ tokens effectBreak title.chars,
          regexPatten.Fits title.chars ∧
          (regexPatten.captured title.chars = none → (regexPatten.captured t).getD [] = []) ∧
          (regexPatten.captured title.chars ≠ none → regexPatten.captured t = none →
            nullText = some []))) := by
  refine ⟨handleEffects_iff title.terminated out, fun short => ?_⟩
  rw [(handleEffects_iff title.terminated out).mpr short,
    weaponEffects_iff title.terminated out short]
  simp only [shownAlike_iff]

/-- A pattern that captures the `"x"` of `"<font c=1>x</font"`, as `regex_patten` does. -/
def fontPattern : Regex :=
  .literal (text "<font c=1>x</font") 10 11 (Nat.le_succ 10) (Nat.le_of_ble_eq_true rfl)

/-- Two segments that match. -/
theorem effects_agree_two :
    let title := text "<font c=1>x</font><br/><font c=1>x</font>"
    tokens effectBreak title = [text "<font c=1>x</font", text "<font c=1>x</font>"] ∧
    weaponEffects fontPattern none title [] = some (effectsOpen ++ text "\"x\",\"x\"]\x7d\n") := by
  intro title
  have cuts : tokens effectBreak title = [text "<font c=1>x</font", text "<font c=1>x</font>"] := by
    decide +kernel
  obtain ⟨handle, agree⟩ := effects_agree fontPattern none ⟨title, by decide⟩ []
  have short : ∀ t ∈ tokens effectBreak title, t.length < RES_SIZE := by
    rw [cuts]
    decide
  refine ⟨cuts, ?_⟩
  rw [(agree short).mpr, handle.mpr short]
  · decide +kernel
  · intro t mem
    refine ⟨Regex.fits_of_length (by decide), ?_⟩
    revert t
    rw [cuts]
    decide +kernel

/-- The column `"<font c=1>x</font><br/>y"`, whose second segment does not match: `weapon_handle.c`
prints an empty string for it, and `real_weapon.c` whatever the library prints for the null
pointer, or crashes. -/
theorem effects_disagree :
    handleEffects fontPattern (some (text "(null)")) (text "<font c=1>x</font><br/>y") [] =
      some (effectsOpen ++ text "\"x\",\"\"]\x7d\n") ∧
    weaponEffects fontPattern (some (text "(null)")) (text "<font c=1>x</font><br/>y") [] =
      some (effectsOpen ++ text "\"x\",\"(null)\"]\x7d\n") ∧
    weaponEffects fontPattern none (text "<font c=1>x</font><br/>y") [] = none := by
  decide +kernel

/-- The parameters of the exporter. -/
structure WeaponEnv where
  /-- The range of the ids (C `atoi(argv[2])`, `atoi(argv[3])`). -/
  first : Int
  last : Int
  regexPatten : Regex
  regexIcon : Regex
  regexLocK : Regex
  regexLocV : Regex
  htbl : TblSt (List UInt8) SweetListKv
  /-- The `value` of an uninitialised record. -/
  fresh : List UInt8
  nullText : Option (List UInt8)

/-- The variables of a row. -/
structure WeaponSt where
  block : Bool
  tmpId : Int
  atkMin : Option (List UInt8)
  out : List UInt8

/-- C `printf`. -/
def WeaponSt.print (st : WeaponSt) (printed : List UInt8) : Option WeaponSt := some { st with out :=
  st.out ++ printed }

/-- The columns that are printed as numbers, with their keys. -/
def numberColumns : List (Nat × String) :=
  [(90, "命中"), (94, "穿刺"), (98, "暴击"), (102, "暴击防御"), (105, "闪避"), (108, "格挡"), (123, "最大生命"),
    (25, "需要等级"), (4, "售价"), (24, "gear_score"), (85, "防御")]

/-- The weapon types, with what is printed for them. -/
def weaponTypes : List (String × String) :=
  [("sword(1)", "2"), ("gauntlet(2)", "3"), ("axe(3)", "7"), ("staff(4)", "9"),
    ("aura-bangle(5)", "4"), ("dagger(6)", "10")]

/-- The professions, with what is printed behind their key. -/
def professions : List (String × String) :=
  [("0,0", "\"\""), ("1,0", "\"剑师\""), ("1,8", "\"剑师\",\"灵剑士\""), ("2,0", "\"拳师\""),
    ("3,0", "\"气功师\""), ("5,0", "\"力士\""), ("6,0", "\"召唤师\""), ("7,0", "\"刺客\""),
    ("7,9", "\"刺客\",\"咒术师\""), ("8,0", "\"灵剑士\""), ("9,0", "\"咒术师\"")]

/-- A chain of `if (!strcmp(tmp_title, ..)) .. else if ..`. -/
def strcmpChain (cases : List (String × String)) (title : List UInt8) : Option String :=
  (cases.find? fun e => title = text e.1).map Prod.snd

/-- What is printed for case 35. -/
def fixedMembers : List UInt8 :=
  strMember "耐久度" (text "100/100") ++ numMember "disable" (text "0") ++
    strMember "growth_level_exp" (text "0") ++ numMember "growth_recipe_cost" (text "0") ++
    numMember "mesh_id" (text "0") ++ numMember "hidden" (text "0") ++
    numMember "集中" (text "0") ++ numMember "额外伤害" (text "0")

/-- One line of case 266. -/
def weaponLocation (env : WeaponEnv) (ptr1 : List UInt8) (l : Listing) : Option Listing := do
  match ← filterRegex env.regexLocK ptr1 with
  | none => return l
  | some k =>
    let k ← strTolower k
    -- `str_delchar` reads the null pointer if there is no match
    let v ← (← filterRegex env.regexLocV ptr1)
    let v ← strDelchar v (text "\"")
    return l.add (arrayText [quoted k, quoted v])

/-- Case 266. -/
def weaponLocations (env : WeaponEnv) (title out : List UInt8) : Option (List UInt8) := do
  let l ← strntokEach lineBreak.chars lineBreak.chars.length (weaponLocation env) (title.length + 2)
    (some title)
    { loc := 0, out := out ++ text "\"location\":[" }
  return l.out ++ text "],"

/-- The switch over the number of the column. -/
def weaponSwitch (env : WeaponEnv) (n : Nat) (title : List UInt8) (st : WeaponSt) :
    Option WeaponSt :=
  match numberColumns.lookup n with
  | some key => st.print (numMember key title)
  | none =>
    match n with
    | 0 => do
      let id ← atoi title
      return { st with tmpId := id }
    | 1 => do
      let level ← atoi title
      let id := if level > 1 then intText st.tmpId ++ 95 :: title else intText st.tmpId
      st.print (123 :: (strMember "_id" id ++
        (quoted (text "weapons") ++ [58] ++ arrayText [quoted (intText st.tmpId)] ++ [44]) ++
        strMember "collectweapon_id" id ++ numMember "level" title))
    | 8 =>
      match strcmpChain weaponTypes title with
      | some t => st.print (strMember "武器类型" (text t))
      | none => some st
    | 14 =>
      st.print (strMember "不可交易" title ++ if title = text "y" then strMember "归属" (text "2")
        else [])
    | 28 =>
      match strcmpChain professions title with
      | some p => st.print (quoted (text "职业") ++ [58] ++ text p ++ [44])
      | none => some st
    | 34 => st.print (strMember "item_grade" (if title = text "7" then text "6" else title))
    | 35 => st.print fixedMembers
    | 81 => some { st with atkMin := some title }
    | 82 => do
      let low ← atoi (← st.atkMin)
      let high ← atoi title
      if IsInt (low + high) then st.print (numMember "攻击力" (intText ((low + high).tdiv 2)))
      else none
    | 175 => st.print (numMember "恢复" title ++ numMember "战斗中恢复" title)
    | 229 => st.print (strMember "name" title)
    | 232 => do
      let key ← (← filterRegex env.regexIcon title)
      let data ← chtblFindKv id env.htbl.heap env.htbl.htbl { key, value := env.fresh }
      st.print (strMember "icon" data.value)
    | 260 => do
      match ← filterRegex env.regexPatten title with
      | some matched => st.print (strMember "描述" matched)
      | none => st.print (strMember "描述" [])
    | 266 => do
      let out ← weaponLocations env title st.out
      return { st with out }
    | 267 => do
      let out ← weaponEffects env.regexPatten env.nullText title st.out
      return { st with out }
    | _ => some st

/-- A round of the row loop: a row whose id is in the range is exported. -/
def weaponColumn (env : WeaponEnv) (n : Nat) (title : List UInt8) (st : WeaponSt) :
    Option WeaponSt := do
  let block ← enterBlock env.first env.last n title st.block
  if block then weaponSwitch env n title { st with block } else some { st with block }

/-- A row, with its newline, and the buffer `tmp_title`. -/
def weaponRow (env : WeaponEnv) (line : List UInt8) (tmp : Vector UInt8 (TITLE_BUF + 1))
    (out : List UInt8) :
    Option (WeaponSt × Buf) :=
  rowLoop (TITLE_BUF + 1) (onString (weaponColumn env)) line.length 0 line tmp.toList
    { block := false, tmpId := 0, atkMin := none, out }

end SweetClib.Bns
